/-
# `Reql.Cli.Arguments` — what the command line asks for

    reql [-c FILE] [--log-level LEVEL] [--log-dir DIR] [--no-color] COMMAND

    build [EXPR | -f FILE] [--json]
    commands [-a]
    describe NAME
    config

The general options may also follow the command.  After `--` every argument is
a plain one, and an argument of a single dash always is.
-/

namespace Reql.Cli

/-- Where the text of a query comes from. -/
inductive Source where
  | argument (text : String)
  | file (path : String)
  | input
  deriving DecidableEq, Repr

/-- What is to be done. -/
inductive Action where
  | build (source : Source) (json : Bool)
  | commands (aliases : Bool)
  | describe (name : String)
  | config
  | version
  deriving DecidableEq, Repr

/-- A command line that makes sense. -/
structure Request where
  action : Action
  /-- The file with the settings. -/
  config : Option String
  deriving DecidableEq, Repr

/-! ## Options -/

/-- An option of the command line. -/
inductive Opt where
  | config
  | logLevel
  | logDir
  | noColor
  | version
  | file
  | json
  | aliases
  deriving DecidableEq, Repr

namespace Opt

/-- Whether a value belongs to the option. -/
def takesValue : Opt → Bool
  | .config | .logLevel | .logDir | .file => true
  | .noColor | .version | .json | .aliases => false

/-- Whether the value is a path, which cannot be empty. -/
def isPath : Opt → Bool
  | .config | .logDir | .file => true
  | _ => false

/-- The options that are known everywhere. -/
def general : List Opt := [.config, .logLevel, .logDir, .noColor]

/-- The name after two dashes. -/
def long : Opt → String
  | .config => "config"
  | .logLevel => "log-level"
  | .logDir => "log-dir"
  | .noColor => "no-color"
  | .version => "version"
  | .file => "file"
  | .json => "json"
  | .aliases => "aliases"

/-- The letter after one dash. -/
def short? : Opt → Option Char
  | .config => some 'c'
  | .version => some 'V'
  | .file => some 'f'
  | .aliases => some 'a'
  | _ => none

end Opt

/-! ## Words -/

/-- One part of the command line. -/
inductive Word where
  | plain (text : String)
  /-- An option; one without a value has an empty text here. -/
  | option (name : Opt) (value : String)
  deriving DecidableEq, Repr

/-- An option with a value is accepted unless the value is an empty path. -/
def valued? (name : Opt) (value : String) : Option Word :=
  if name.isPath && value.isEmpty then none else some (.option name value)

/-- The value that follows an option as an argument of its own; it may not look
like an option itself. -/
def separateValue? : List String → Option (String × List String)
  | [] => none
  | value :: rest =>
    match value.toList with
    | '-' :: _ :: _ => none
    | _ => some (value, rest)

/-- Reads letters after one dash; the first one that takes a value takes the rest,
and after the one that asks for the version nothing is read any more. -/
def shortWords? (known : List Opt) (rest : List String) :
    List Char → Option (List Word × List String)
  | [] => some ([], rest)
  | letter :: letters =>
    match known.find? fun name => name.short? = some letter with
    | none => none
    | some name =>
      if name.takesValue then
        match letters with
        | [] => do
          let (value, rest) ← separateValue? rest
          return ([← valued? name value], rest)
        | '=' :: value => do return ([← valued? name (String.ofList value)], rest)
        | value => do return ([← valued? name (String.ofList value)], rest)
      else if name = .version then some ([.option name ""], [])
      else do
        let (words, rest) ← shortWords? known rest letters
        return (.option name "" :: words, rest)

/-- Reads what stands after two dashes; again the version comes last. -/
def longWord? (known : List Opt) (rest : List String) (body : List Char) :
    Option (Word × List String) :=
  let (name, value) := body.span (· != '=')
  match known.find? fun option => option.long = String.ofList name with
  | none => none
  | some option =>
    match option.takesValue, value with
    | true, [] => do
      let (value, rest) ← separateValue? rest
      return (← valued? option value, rest)
    | true, _ :: value => do return (← valued? option (String.ofList value), rest)
    | false, [] => some (.option option "", if option = .version then [] else rest)
    | false, _ :: _ => none

/-- The words of a command line, and from the first plain one on what is left if
`stop` is set.  `fuel` is at least the number of arguments. -/
def words? (known : List Opt) (stop : Bool) :
    Nat → List String → Option (List Word × List String)
  | 0, args => if args.isEmpty then some ([], []) else none
  | _ + 1, [] => some ([], [])
  | fuel + 1, arg :: rest =>
    match arg.toList with
    | ['-', '-'] => some (rest.map .plain, [])
    | '-' :: '-' :: body => do
      let (word, rest) ← longWord? known rest body
      let (more, rest) ← words? known stop fuel rest
      return (word :: more, rest)
    | '-' :: letter :: letters => do
      let (words, rest) ← shortWords? known rest (letter :: letters)
      let (more, rest) ← words? known stop fuel rest
      return (words ++ more, rest)
    | _ =>
      if stop then some ([], arg :: rest)
      else do
        let (more, rest) ← words? known stop fuel rest
        return (.plain arg :: more, rest)

/-! ## Requests -/

/-- The plain words. -/
def plains (words : List Word) : List String :=
  words.filterMap fun word => match word with
    | .plain text => some text
    | .option _ _ => none

/-- The value of an option. -/
def valueOf? (words : List Word) (name : Opt) : Option String :=
  words.findSome? fun word => match word with
    | .option other value => if other = name then some value else none
    | .plain _ => none

/-- Whether no option is given twice. -/
def noneTwice (words : List Word) : Bool :=
  let names := words.filterMap fun word => match word with
    | .option name _ => some name
    | .plain _ => none
  names.length == names.eraseDups.length

/-- The options that a command knows besides the general ones. -/
def ownOptions? : String → Option (List Opt)
  | "build" => some [.file, .json]
  | "commands" => some [.aliases]
  | "describe" => some []
  | "config" => some []
  | _ => none

/-- What a command with its words asks for. -/
def action? (command : String) (words : List Word) : Option Action :=
  match command, plains words, valueOf? words .file with
  | "build", [], none => some (.build .input (valueOf? words .json).isSome)
  | "build", [], some path => some (.build (.file path) (valueOf? words .json).isSome)
  | "build", [text], none => some (.build (.argument text) (valueOf? words .json).isSome)
  | "commands", [], _ => some (.commands (valueOf? words .aliases).isSome)
  | "describe", [name], _ => some (.describe name)
  | "config", [], _ => some .config
  | _, _, _ => none

/-- What a command line asks for, or `none` if it makes no sense.  An option
after the command overrides the same one before it, and both the environment. -/
def parse? (args : List String) (environment : List (String × String)) : Option Request := do
  let (before, rest) ← words? (.version :: Opt.general) true args.length args
  let paths := [("REQL_CONFIG", Opt.config), ("REQL_LOG_DIR", Opt.logDir)]
  if !noneTwice before then none
  else if (valueOf? before .version).isSome then return ⟨.version, none⟩
  else
    match rest with
    | [] => none
    | command :: rest => do
      let own ← ownOptions? command
      let (after, _) ← words? (own ++ Opt.general) false rest.length rest
      let given := after ++ before
      let inherited (name : String) : Option String := environment.reverse.lookup name
      let emptyPath := paths.any fun path =>
        inherited path.1 == some "" && (valueOf? given path.2).isNone
      if !noneTwice after || emptyPath then none
      else
        let action ← action? command after
        return ⟨action, (valueOf? given .config).or (inherited "REQL_CONFIG")⟩

end Reql.Cli
