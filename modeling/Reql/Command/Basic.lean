/-
# `Reql.Command.Basic` — commands and their signatures

A command says what it takes: required arguments, optional ones, a
requirement on all further ones, and named options.

    between(selection, any, any; index: string, left_bound: open|closed)
-/
import Reql.Command.Check

namespace Reql

/-- An option that a command takes. -/
structure OptionSpec where
  name : String
  check : Check
  deriving DecidableEq, Repr

/-- How a command makes its term from what it is given. -/
inductive Assembly where
  /-- Arguments and options as they are. -/
  | plain
  /-- With a database in front of the arguments, if one is given. -/
  | scoped
  /-- The same, with options that depend on each other. -/
  | tableCreate
  /-- Keys and values in turn. -/
  | object
  /-- A date, or a date and a time of day, and a time zone. -/
  | time
  /-- Arguments and at last the function to call with them. -/
  | call
  /-- Tests and results in turn and at last the other result. -/
  | branch
  deriving DecidableEq, Repr

/-- A command: what it is called, takes and makes. -/
structure Command where
  name : String
  operation : Operation
  required : List Check := []
  optional : List Check := []
  rest : Option Check := none
  options : List OptionSpec := []
  /-- One of the ways that the catalogue knows.  Commands that make their term by a function of
  the caller's own are left out. -/
  assembly : Assembly := .plain
  deriving DecidableEq, Repr

namespace Command

variable (c : Command)

/-! ## Signature -/

/-- The least number of arguments, and the greatest unless there is none. -/
def arity : Nat × Option Nat :=
  (c.required.length,
    if c.rest.isSome then none else some (c.required.length + c.optional.length))

/-- The requirement on the argument at a position, counted from 0. -/
def checkAt? (index : Nat) : Option Check :=
  match (c.required ++ c.optional)[index]? with
  | some check => some check
  | none => c.rest

/-- The option of a name. -/
def option? (name : String) : Option OptionSpec := c.options.find? fun spec => spec.name == name

/-- The parameters in words: optional ones in brackets, further ones with dots. -/
def parameterTexts : List String :=
  c.required.map Check.describe
    ++ c.optional.map (fun check => "[" ++ check.describe ++ "]")
    ++ c.rest.toList.map (fun check => check.describe ++ "...")

/-- What the command takes, on one line. -/
def signature : String :=
  c.name ++ "(" ++ Text.joined ", " c.parameterTexts
    ++ (if c.options.isEmpty then "" else
      "; " ++ Text.joined ", " (c.options.map fun spec => spec.name ++ ": " ++ spec.check.describe))
    ++ ")"

/-! ## Validation -/

/-- Checks the arguments from a position on, in order. -/
def verifyFrom (index : Nat) : List Value → Except ArgumentError Unit
  | [] => .ok ()
  | v :: rest => do
    match c.checkAt? index with
    | some check => check.verify c.name (.argument (index + 1)) v
    | none => pure ()
    verifyFrom (index + 1) rest

/-- Refuses a wrong number of arguments, then the first wrong argument. -/
def validateArgs (args : List Value) : Except ArgumentError Unit :=
  let (least, most) := c.arity
  if args.length < least || most.any (fun most => most < args.length) then
    .error (.argumentCount c.name least most args.length)
  else c.verifyFrom 0 args

/-- Checks options in order; `seen` are the names before them. -/
def verifyOptions (seen : List String) : Options → Except ArgumentError Unit
  | [] => .ok ()
  | (name, v) :: rest =>
    match c.option? name with
    | none => .error (.unknownOption c.name name (c.options.map OptionSpec.name))
    | some spec =>
      if name ∈ seen then .error (.repeatedOption c.name name)
      else do
        spec.check.verify c.name (.option name) v
        verifyOptions (name :: seen) rest

/-- Refuses the first option that is unknown, given before, or wrong. -/
def validateOptions (options : Options) : Except ArgumentError Unit := c.verifyOptions [] options

end Command

end Reql
