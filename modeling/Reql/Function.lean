/-
# `Reql.Function` — functions and their parameters

A function is `FUNC(MAKE_ARRAY(id, ...), body)`; inside the body a
parameter is `VAR(id)`.  Parameters are told apart by their numbers.
-/
import Reql.Error
import Reql.Value

namespace Reql

namespace Term

/-- The number of a parameter as a literal.  Numbers have 64 bits: counting past the
last one starts over. -/
def ofId (id : Nat) : Term := .literal (.number (Double.ofNat (id % UInt64.size)))

/-- A reference to a parameter. -/
def var (id : Nat) : Term := .apply .var [ofId id] []

/-- The function with the given parameters and body. -/
def func (ids : List Nat) (body : Term) : Term :=
  .apply .func [.apply .makeArray (ids.map ofId) [], body] []

/-- How many parameters a function declares.  The list of them may also be a
literal array; with anything else in its place nothing is declared. -/
def arity? : Term → Option Nat
  | .apply .func (.literal (.array ids) :: _) _ => some ids.length
  | .apply .func (.apply .makeArray ids _ :: _) _ => some ids.length
  | _ => none

end Term

namespace Value

/-- How many parameters a value declares, if it is a function. -/
def arity? (v : Value) : Option Nat := v.term?.bind Term.arity?

/-- Refuses everything but a function of `arity` parameters. -/
def expectArity (v : Value) (arity : Nat) : Except ArgumentError Unit :=
  match v.term?.filter (·.is .func) with
  | none => .error (.notFunction arity v.kindName)
  | some t =>
    match t.arity? with
    | some declared => if declared = arity then .ok () else .error (.arityMismatch arity declared)
    | none => .error .malformedParameters

end Value

end Reql
