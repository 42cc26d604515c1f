/-
# `Reql.Value` — what may stand for a term

A caller passes JSON-like scalars and containers, or terms that are
already built, in any mixture.
-/
import Reql.Term.Basic

namespace Reql

/-- A value that can be made into a term. -/
inductive Value where
  | null
  | bool (value : Bool)
  | number (value : Double)
  | string (value : String)
  | array (items : List Value)
  | object (fields : List (String × Value))
  | term (term : Term)
  deriving Repr, Inhabited

/-- Named options in the order they were given; a name may come again. -/
abbrev Options := List (String × Value)

namespace Value

/-- An object from entries in any order; of several with one name the last counts. -/
def ofEntries (entries : List (String × Value)) : Value := .object (Fields.ofList entries)

/-- The name of a value's kind in messages. -/
def kindName : Value → String
  | .null => "null"
  | .bool _ => "boolean"
  | .number _ => "number"
  | .string _ => "string"
  | .array _ => "array"
  | .object _ => "object"
  | .term _ => "term"

/-- The term of a value that is one already. -/
def term? : Value → Option Term
  | .term t => some t
  | _ => none

/-- The literal of a value that is a literal term. -/
def datum? (v : Value) : Option Datum := v.term?.bind Term.datum?

/-- The content of a string, raw or a literal. -/
def string? : Value → Option String
  | .string value => some value
  | v => v.datum?.bind Datum.string?

/-- The content of a number, raw or a literal. -/
def number? : Value → Option Double
  | .number value => some value
  | v => v.datum?.bind Datum.number?

mutual

/-- A literal as raw values. -/
def ofDatum : Datum → Value
  | .null => .null
  | .bool value => .bool value
  | .number value => .number value
  | .string value => .string value
  | .array items => .array (ofItems items)
  | .object fields => .object (ofFields fields)

def ofItems : List Datum → List Value
  | [] => []
  | item :: rest => ofDatum item :: ofItems rest

def ofFields : List (String × Datum) → List (String × Value)
  | [] => []
  | (key, value) :: rest => (key, ofDatum value) :: ofFields rest

end

/-- A document as raw values. -/
def ofJson (document : Json) : Value := ofDatum (Datum.ofJson document)

/-- A time, given in milliseconds since the epoch: `EPOCH_TIME` of its seconds. -/
def ofEpochMillis (millis : Int) : Value :=
  .term (.apply .epochTime [.literal (.number ((Double.ofInt millis).divideBy 1000))] [])

mutual

/-- Equality of values under the comparison of IEEE arithmetic. -/
def equals : Value → Value → Bool
  | .null, .null => true
  | .bool a, .bool b => a == b
  | .number a, .number b => a.equals b
  | .string a, .string b => a == b
  | .array as, .array bs => equalsItems as bs
  | .object as, .object bs => equalsFields as bs
  | .term a, .term b => a.equals b
  | _, _ => false

def equalsItems : List Value → List Value → Bool
  | [], [] => true
  | a :: as, b :: bs => a.equals b && equalsItems as bs
  | _, _ => false

def equalsFields : List (String × Value) → List (String × Value) → Bool
  | [], [] => true
  | (k, a) :: as, (l, b) :: bs => k == l && a.equals b && equalsFields as bs
  | _, _ => false

end

end Value

end Reql
