/-
# `Reql.Command.Check` — what an argument or an option must be

A check is a requirement on one value.  A term whose result is only known
when it runs passes every requirement on the shape of a result.
-/
import Reql.Classify
import Reql.Function

namespace Reql

/-- A requirement on one value. -/
inductive Check where
  | any
  | string
  | number
  | integer
  | bool
  /-- A literal, with no operations inside. -/
  | datum
  | object
  | array
  | sequence
  | selection
  | primaryKey
  | path
  /-- A term with this operation. -/
  | kind (op : Operation)
  /-- A function of this many parameters. -/
  | function (arity : Nat)
  /-- Such a function, or any value that is no function. -/
  | predicate (arity : Nat)
  /-- A string, or such a function. -/
  | stringOrFunction (arity : Nat)
  /-- One of these strings. -/
  | oneOf (choices : List String)
  deriving DecidableEq, Repr

namespace Check

/-- Whether a value meets the requirement. -/
def admits (v : Value) : Check → Bool
  | .any => true
  | .string => v.isString || v.isDeferred
  | .number => v.isNumber || v.isDeferred
  | .integer => v.isInteger || v.isDeferred
  | .bool => v.isBoolean || v.isDeferred
  | .datum => v.isDatum
  | .object => v.isObject || v.isDeferred
  | .array => v.isArray || v.isDeferred
  | .sequence => v.isSequence || v.isDeferred
  | .selection => v.isSelect
  | .primaryKey => v.isPrimaryKey || v.isDeferred
  | .path => v.isPath || v.isDeferred
  | .kind op => v.isOfKind op
  | .function arity => v.arity? == some arity
  | .predicate arity =>
    match v.arity? with
    | some declared => declared == arity
    | none => !v.isFunction
  | .stringOrFunction arity =>
    v.isString || v.arity? == some arity || (v.isDeferred && !v.isFunction)
  | .oneOf choices =>
    match v.string? with
    | some text => choices.contains text
    | none => v.isDeferred

/-- The requirement in a few words. -/
def describe : Check → String
  | .any => "any"
  | .string => "string"
  | .number => "number"
  | .integer => "integer"
  | .bool => "bool"
  | .datum => "datum"
  | .object => "object"
  | .array => "array"
  | .sequence => "sequence"
  | .selection => "selection"
  | .primaryKey => "pkey"
  | .path => "path"
  | .kind op => String.ofList (op.name.toList.map Char.toLower)
  | .function arity => "fn/" ++ Double.digitText arity
  | .predicate arity => "fn/" ++ Double.digitText arity ++ "|value"
  | .stringOrFunction arity => "string|fn/" ++ Double.digitText arity
  | .oneOf choices => Text.joined "|" choices

/-- Refuses a value that does not meet the requirement.  A function is told
how it differs from the one asked for. -/
def verify (check : Check) (command : String) (place : Place) (v : Value) :
    Except ArgumentError Unit :=
  if check.admits v then .ok ()
  else
    match check with
    | .function arity =>
      match v.expectArity arity with
      | .ok () => .ok ()
      | .error cause => .error (.functionAt command place cause)
    | _ => .error (.mustBe command place check.describe v.kindName)

end Check

end Reql
