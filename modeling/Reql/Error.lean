/-
# `Reql.Error` — everything that can go wrong, and how it is said

Errors are causes: what was expected where, and what was found.  The wording
is in the `message` functions only.

    ArgumentError   a value, an argument or an option is not what it must be
    RegistryError   a name is unknown, or taken
    ReadError       a text is not an expression, or has an unbound symbol
    ConfigError     a configuration is not usable
-/
import Reql.Double.Layout
import Reql.Operation
import Reql.Text.Joined

namespace Reql

/-! ## Arguments -/

/-- Which part of an invocation an error is about; positions count from 1. -/
inductive Place where
  | argument (position : Nat)
  | key (position : Nat)
  | option (name : String)
  | timezone
  deriving DecidableEq, Repr

def Place.text : Place → String
  | .argument position => "argument " ++ Double.digitText position
  | .key position => "key " ++ Double.digitText position
  | .option name => "option '" ++ name ++ "'"
  | .timezone => "timezone"

/-- What is wrong with a value, or with what a command was given. -/
inductive ArgumentError where
  /-- Raw arrays and objects are nested deeper than allowed. -/
  | nestingLimit
  /-- A raw number has no JSON form. -/
  | notJsonNumber (value : Double)
  /-- An application cannot carry the operation of literals. -/
  | literalOperation
  /-- A node is given an option twice. -/
  | duplicateOption (name : String) (operation : Operation)
  /-- A function was expected where something else was given. -/
  | notFunction (arity : Nat) (kind : String)
  /-- A function has another number of parameters. -/
  | arityMismatch (arity declared : Nat)
  /-- The parameter list of a function is not a list. -/
  | malformedParameters
  /-- A command is given too few or too many arguments. -/
  | argumentCount (command : String) (least : Nat) (most : Option Nat) (count : Nat)
  /-- A value is not of the kind its place asks for. -/
  | mustBe (command : String) (place : Place) (expected kind : String)
  /-- A function in some place of a command is not the one expected. -/
  | functionAt (command : String) (place : Place) (cause : ArgumentError)
  /-- The function that a command calls is not the one expected. -/
  | functionOf (command : String) (cause : ArgumentError)
  /-- A command that calls a function is given none. -/
  | functionMissing (command : String)
  /-- An option is not one that the command takes. -/
  | unknownOption (command name : String) (accepted : List String)
  /-- An option is given twice to a command. -/
  | repeatedOption (command name : String)
  /-- Replicas by server tag need the tag of the primary. -/
  | replicasNeedTag (command : String)
  /-- The tag of the primary needs replicas. -/
  | tagNeedsReplicas (command : String)
  /-- Keys and values do not pair up. -/
  | unpaired (command : String) (count : Nat)
  /-- A time has neither four nor seven parts. -/
  | timeParts (command : String) (count : Nat)
  /-- Tests and results leave no single last result. -/
  | evenCount (command : String) (count : Nat)
  deriving DecidableEq, Repr

namespace ArgumentError

/-- How many arguments a command takes, in words. -/
def countText (least : Nat) : Option Nat → String
  | none => "at least " ++ Double.digitText least
  | some most =>
    if most = least then Double.digitText least
    else Double.digitText least ++ " to " ++ Double.digitText most

def message : ArgumentError → String
  | .nestingLimit => "Nesting depth limit exceeded"
  | .notJsonNumber value =>
    "type mismatch: " ++ value.plain ++ " is not representable as a JSON number"
  | .literalOperation => "DATUM terms carry a literal; use Term::datum"
  | .duplicateOption name operation => "duplicate option '" ++ name ++ "' for " ++ operation.name
  | .notFunction arity kind =>
    "expected a function of arity " ++ Double.digitText arity ++ ", got " ++ kind
  | .arityMismatch arity declared =>
    "expected a function of arity " ++ Double.digitText arity ++ ", got arity "
      ++ Double.digitText declared
  | .malformedParameters => "malformed function parameters"
  | .argumentCount command least most count =>
    command ++ " expects " ++ countText least most ++ " argument(s), got "
      ++ Double.digitText count
  | .mustBe command place expected kind =>
    command ++ ": " ++ place.text ++ " must be " ++ expected ++ ", got " ++ kind
  | .functionAt command place cause => command ++ ": " ++ place.text ++ ": " ++ cause.message
  | .functionOf command cause => command ++ ": " ++ cause.message
  | .functionMissing command => command ++ " expects a function"
  | .unknownOption command name accepted =>
    command ++ " does not accept option '" ++ name ++ "' (accepted: "
      ++ (if accepted.isEmpty then "none" else Text.joined ", " accepted) ++ ")"
  | .repeatedOption command name => command ++ ": option '" ++ name ++ "' given more than once"
  | .replicasNeedTag command =>
    command ++ ": replicas per server tag require primary_replica_tag"
  | .tagNeedsReplicas command => command ++ ": primary_replica_tag requires replicas"
  | .unpaired command count =>
    command ++ " expects key/value pairs, got " ++ Double.digitText count ++ " argument(s)"
  | .timeParts command count =>
    command ++ " expects 4 or 7 arguments, got " ++ Double.digitText count
  | .evenCount command count =>
    command ++ " expects an odd number of arguments, got " ++ Double.digitText count

end ArgumentError

/-! ## Registry -/

/-- Why a registry refuses. -/
inductive RegistryError where
  /-- The name of a new command is taken and may not be redefined. -/
  | commandTaken (name : String)
  /-- An alias needs a command to stand for. -/
  | noTarget (spelling target : String)
  /-- The spelling of a new alias is taken. -/
  | nameTaken (name : String)
  /-- There is no such command to remove. -/
  | notFound (name : String)
  /-- No command answers to the name. -/
  | unknownCommand (name : String)
  deriving DecidableEq, Repr

def RegistryError.message : RegistryError → String
  | .commandTaken name => "Command '" ++ name ++ "' already registered"
  | .noTarget spelling target =>
    "Cannot alias '" ++ spelling ++ "' to unknown command '" ++ target ++ "'"
  | .nameTaken name => "Name '" ++ name ++ "' already registered"
  | .notFound name => "Command '" ++ name ++ "' not found"
  | .unknownCommand name => "Unknown command '" ++ name ++ "'"

/-! ## Reading -/

/-- What is wrong at a place of a text. -/
inductive ReadError where
  | unknownEscape (letter : Char)
  | unterminatedString
  | invalidNumber (word : String)
  | emptyKeyword
  | emptyExpression
  | unexpectedEnd
  | trailingInput
  | strayKeyword (keyword : String)
  | strayClose
  | unclosed
  | nestedTooDeeply
  | keyExpected
  | duplicateKey (key : String)
  | valueMissing (key : String)
  | emptyInvocation
  | headExpected
  | optionValueMissing (keyword : String)
  | parametersExpected
  | parameterExpected
  | duplicateParameter (name : String)
  | bodyExpected
  | severalBodies
  | unboundSymbol (name : String)
  deriving DecidableEq, Repr

def ReadError.message : ReadError → String
  | .unknownEscape letter => "unknown escape '\\" ++ String.singleton letter ++ "'"
  | .unterminatedString => "unterminated string"
  | .invalidNumber word => "invalid number '" ++ word ++ "'"
  | .emptyKeyword => "empty keyword"
  | .emptyExpression => "empty expression"
  | .unexpectedEnd => "unexpected end of input"
  | .trailingInput => "unexpected trailing input"
  | .strayKeyword keyword => "keyword ':" ++ keyword ++ "' outside an invocation"
  | .strayClose => "unexpected closing delimiter"
  | .unclosed => "unclosed delimiter"
  | .nestedTooDeeply => "expression nested too deeply"
  | .keyExpected => "object keys must be strings or keywords"
  | .duplicateKey key => "duplicate key '" ++ key ++ "'"
  | .valueMissing key => "missing value for key '" ++ key ++ "'"
  | .emptyInvocation => "empty invocation"
  | .headExpected => "invocation head must be a command name"
  | .optionValueMissing keyword => "missing value for option ':" ++ keyword ++ "'"
  | .parametersExpected => "fn expects a parameter vector"
  | .parameterExpected => "fn parameters must be symbols"
  | .duplicateParameter name => "duplicate parameter '" ++ name ++ "'"
  | .bodyExpected => "fn expects a body"
  | .severalBodies => "fn takes a single body expression"
  | .unboundSymbol name => "unbound symbol '" ++ name ++ "'"

/-! ## Configuration -/

/-- Why a configuration is refused. -/
inductive ConfigError where
  /-- No value at all could be made into a term. -/
  | zeroDepth
  /-- A file or a variable does not say what it must. -/
  | unreadable
  /-- A limit is too large to be written down. -/
  | outOfRange
  deriving DecidableEq, Repr

/-- What is wrong with the settings themselves; faults of a file are not explained. -/
def ConfigError.message? : ConfigError → Option String
  | .zeroDepth => some "nesting_depth must be at least 1"
  | .unreadable => none
  | .outOfRange => none

/-! ## All errors -/

/-- Why no term could be built. -/
inductive Error where
  | argument (cause : ArgumentError)
  | registry (cause : RegistryError)
  /-- The offset counts the bytes of the text before the place of the error. -/
  | read (offset : Nat) (cause : ReadError)
  deriving DecidableEq, Repr

namespace Error

/-- The text of an error, with the name of its class in front. -/
def message : Error → String
  | .argument cause => "Argument error: " ++ cause.message
  | .registry cause => "Registry error: " ++ cause.message
  | .read offset cause =>
    "Syntax error at offset " ++ Double.digitText offset ++ ": " ++ cause.message

end Error

end Reql
