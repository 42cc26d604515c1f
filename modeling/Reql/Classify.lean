/-
# `Reql.Classify` — what a value is

Yes-or-no questions about values and terms.  A raw scalar and the
literal that holds it answer alike, so normalizing a value does not change
what it is.
-/
import Reql.Value

namespace Reql

namespace Value

/-! ## Scalars -/

def isString : Value → Bool
  | .string _ => true
  | v => match v.datum? with
    | some (.string _) => true
    | _ => false

def isNumber : Value → Bool
  | .number _ => true
  | v => match v.datum? with
    | some (.number _) => true
    | _ => false

/-- A finite number without a fractional part. -/
def isInteger (v : Value) : Bool :=
  match v.number? with
  | some x => x.isInteger
  | none => false

def isBoolean : Value → Bool
  | .bool _ => true
  | v => match v.datum? with
    | some (.bool _) => true
    | _ => false

def isNull : Value → Bool
  | .null => true
  | v => match v.datum? with
    | some .null => true
    | _ => false

/-! ## Containers -/

/-- A raw object, a literal one, or a term that makes one. -/
def isObject : Value → Bool
  | .object _ => true
  | .term (.literal (.object _)) => true
  | .term t => t.is .makeObj
  | _ => false

/-- A raw array, a literal one, or a term that makes one. -/
def isArray : Value → Bool
  | .array _ => true
  | .term (.literal (.array _)) => true
  | .term t => t.is .makeArray
  | _ => false

mutual

/-- A value made of JSON scalars, arrays and objects only, or a literal. -/
def isDatum : Value → Bool
  | .null => true
  | .bool _ => true
  | .number value => value.isFinite
  | .string _ => true
  | .array items => allDatum items
  | .object fields => allDatumFields fields
  | .term t => t.isLiteral

def allDatum : List Value → Bool
  | [] => true
  | item :: rest => item.isDatum && allDatum rest

def allDatumFields : List (String × Value) → Bool
  | [] => true
  | (_, value) :: rest => value.isDatum && allDatumFields rest

end

/-! ## Operations -/

/-- A term whose root has an operation. -/
def isOfKind (v : Value) (op : Operation) : Bool :=
  match v.term? with
  | some t => t.is op
  | none => false

def isFunction (v : Value) : Bool := v.isOfKind .func

/-- A term that denotes rows which can still be narrowed or changed in place. -/
def isSelect (v : Value) : Bool :=
  match v.term? with
  | some t => Operation.selections.contains t.operation
  | none => false

/-- Anything that can be iterated. -/
def isSequence (v : Value) : Bool :=
  v.isArray || v.isSelect ||
    match v.term? with
    | some t => Operation.sequences.contains t.operation
    | none => false

/-- A term whose result is only known when it runs. -/
def isDeferred (v : Value) : Bool :=
  match v.term? with
  | some t => !([.datum, .makeArray, .makeObj, .func] : List Operation).contains t.operation
  | none => false

/-- What can be a primary key: a string or an integer. -/
def isPrimaryKey (v : Value) : Bool := v.isString || v.isInteger

end Value

/-! ## Paths -/

mutual

/-- A literal that names fields: a string, or a nonempty container of paths. -/
def Datum.isPath : Datum → Bool
  | .string _ => true
  | .array items => !items.isEmpty && Datum.allPaths items
  | .object fields => !fields.isEmpty && Datum.allPathFields fields
  | _ => false

def Datum.allPaths : List Datum → Bool
  | [] => true
  | item :: rest => item.isPath && Datum.allPaths rest

/-- In an object a field may also be chosen by a boolean. -/
def Datum.allPathFields : List (String × Datum) → Bool
  | [] => true
  | (_, value) :: rest => (value.isPath || value.bool?.isSome) && Datum.allPathFields rest

end

mutual

/-- A term that names fields. -/
def Term.isPath : Term → Bool
  | .literal value => value.isPath
  | .apply .makeArray args _ => !args.isEmpty && Term.allPaths args
  | .apply .makeObj _ options => !options.isEmpty && Term.allPathOptions options
  | .apply _ _ _ => false

def Term.allPaths : List Term → Bool
  | [] => true
  | t :: rest => t.isPath && Term.allPaths rest

def Term.allPathOptions : List (String × Term) → Bool
  | [] => true
  | (_, t) :: rest => (t.isPath || (Value.term t).isBoolean) && Term.allPathOptions rest

end

mutual

/-- A value that names fields: a string, a nonempty array of paths, or a nonempty
object of paths and booleans. -/
def Value.isPath : Value → Bool
  | .string _ => true
  | .array items => !items.isEmpty && Value.allPaths items
  | .object fields => !fields.isEmpty && Value.allPathFields fields
  | .term t => t.isPath
  | _ => false

def Value.allPaths : List Value → Bool
  | [] => true
  | item :: rest => item.isPath && Value.allPaths rest

def Value.allPathFields : List (String × Value) → Bool
  | [] => true
  | (_, value) :: rest => (value.isPath || value.isBoolean) && Value.allPathFields rest

end

end Reql
