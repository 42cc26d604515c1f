/-
# `Reql.Normalize` — from values to terms

Scalars become literals, arrays `MAKE_ARRAY`, objects `MAKE_OBJ` with an
option for each key; terms stay what they are.  Raw arrays and objects may
nest only so deep, and raw numbers have to be finite.
-/
import Reql.Term.Builder
import Reql.Value

namespace Reql

/-- Makes terms of values, with a limit on the nesting of raw containers. -/
structure Normalizer where
  depth : Nat
  deriving DecidableEq, Repr

namespace Normalizer

/-- The limit where none is configured. -/
def defaultDepth : Nat := 20

instance : Inhabited Normalizer := ⟨⟨defaultDepth⟩⟩

mutual

/-- The term of a value that may open `depth` more levels of containers. -/
def normalizeAt (depth : Nat) : Value → Except ArgumentError Term
  | .term t => .ok t
  | .null => .ok (.literal .null)
  | .bool value => .ok (.literal (.bool value))
  | .number value =>
    if value.isFinite then .ok (.literal (.number value)) else .error (.notJsonNumber value)
  | .string value => .ok (.literal (.string value))
  | .array items =>
    match depth with
    | 0 => .error .nestingLimit
    | inner + 1 => do
      let args ← normalizeItems inner items
      return .apply .makeArray args []
  | .object fields =>
    match depth with
    | 0 => .error .nestingLimit
    | inner + 1 => do
      let options ← normalizeFields inner fields
      return .apply .makeObj [] options

/-- The terms of the items of an array, in order. -/
def normalizeItems (depth : Nat) : List Value → Except ArgumentError (List Term)
  | [] => .ok []
  | item :: rest => do
    let t ← normalizeAt depth item
    let ts ← normalizeItems depth rest
    return t :: ts

/-- The terms of named values, in order. -/
def normalizeFields (depth : Nat) :
    List (String × Value) → Except ArgumentError (List (String × Term))
  | [] => .ok []
  | (name, value) :: rest => do
    let t ← normalizeAt depth value
    let ts ← normalizeFields depth rest
    return (name, t) :: ts

end

variable (n : Normalizer)

/-- The term of a value. -/
def normalize (value : Value) : Except ArgumentError Term := normalizeAt n.depth value

/-- One named value. -/
def normalizeOption (name : String) (value : Value) : Except ArgumentError (String × Term) := do
  let t ← n.normalize value
  return (name, t)

/-- The node of an operation with all its arguments, then all its options, normalized. -/
def createTerm (op : Operation) (args : List Value) (options : Options) :
    Except ArgumentError Term := do
  let args ← normalizeItems n.depth args
  let options ← normalizeFields n.depth options
  Term.Builder.build ⟨op, args, options⟩

end Normalizer

end Reql
