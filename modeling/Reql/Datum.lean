/-
# `Reql.Datum` — literals

A literal is a JSON value whose numbers are doubles and whose objects have
their keys in increasing order, so that equal literals print alike.
-/
import Reql.Fields
import Reql.Json.Printer
import Reql.Text.Quoted

namespace Reql

/-- A literal value. -/
inductive Datum where
  | null
  | bool (value : Bool)
  | number (value : Double)
  | string (value : String)
  | array (items : List Datum)
  | object (fields : List (String × Datum))
  deriving Repr, Inhabited

namespace Datum

/-! ## Looking at a literal -/

/-- The type of a literal as a server reports it. -/
def typeName : Datum → String
  | .null => "NULL"
  | .bool _ => "BOOL"
  | .number _ => "NUMBER"
  | .string _ => "STRING"
  | .array _ => "ARRAY"
  | .object _ => "OBJECT"

def isNull : Datum → Bool
  | .null => true
  | _ => false

def bool? : Datum → Option Bool
  | .bool value => some value
  | _ => none

def number? : Datum → Option Double
  | .number value => some value
  | _ => none

def string? : Datum → Option String
  | .string value => some value
  | _ => none

def array? : Datum → Option (List Datum)
  | .array items => some items
  | _ => none

def object? : Datum → Option (Fields Datum)
  | .object fields => some fields
  | _ => none

mutual

/-- Equality of literals under the comparison of IEEE arithmetic. -/
def equals : Datum → Datum → Bool
  | .null, .null => true
  | .bool a, .bool b => a == b
  | .number a, .number b => a.equals b
  | .string a, .string b => a == b
  | .array as, .array bs => equalsItems as bs
  | .object as, .object bs => equalsFields as bs
  | _, _ => false

def equalsItems : List Datum → List Datum → Bool
  | [], [] => true
  | a :: as, b :: bs => a.equals b && equalsItems as bs
  | _, _ => false

def equalsFields : List (String × Datum) → List (String × Datum) → Bool
  | [], [] => true
  | (k, a) :: as, (l, b) :: bs => k == l && a.equals b && equalsFields as bs
  | _, _ => false

end

/-! ## Text -/

mutual

/-- A literal on one line: `[null, 1, "x", {"k": true}]`. -/
def text : Datum → String
  | .null => "null"
  | .bool value => Json.boolText value
  | .number value => value.plain
  | .string value => Text.quoted value
  | .array items => "[" ++ Text.joined ", " (itemTexts items) ++ "]"
  | .object fields => "\x7b" ++ Text.joined ", " (fieldTexts fields) ++ "\x7d"

def itemTexts : List Datum → List String
  | [] => []
  | item :: rest => item.text :: itemTexts rest

def fieldTexts : List (String × Datum) → List String
  | [] => []
  | (key, value) :: rest => (Text.quoted key ++ ": " ++ value.text) :: fieldTexts rest

end

/-! ## JSON -/

mutual

/-- The literal of a document.  Numbers become the nearest double, and of
several members with one name the last counts. -/
def ofJson : Json → Datum
  | .null => .null
  | .bool value => .bool value
  | .number value => .number value.toDouble
  | .string value => .string value
  | .array items => .array (ofJsonItems items)
  | .object members => .object (Fields.ofList (ofJsonMembers members))

def ofJsonItems : List Json → List Datum
  | [] => []
  | item :: rest => ofJson item :: ofJsonItems rest

def ofJsonMembers : List (String × Json) → List (String × Datum)
  | [] => []
  | (name, value) :: rest => (name, ofJson value) :: ofJsonMembers rest

end

mutual

/-- The document of a literal; a number without a JSON form becomes null. -/
def toJson : Datum → Json
  | .null => .null
  | .bool value => .bool value
  | .number value => Json.double value
  | .string value => .string value
  | .array items => .array (toJsonItems items)
  | .object fields => .object (toJsonFields fields)

def toJsonItems : List Datum → List Json
  | [] => []
  | item :: rest => item.toJson :: toJsonItems rest

def toJsonFields : List (String × Datum) → List (String × Json)
  | [] => []
  | (key, value) :: rest => (key, value.toJson) :: toJsonFields rest

end

end Datum

end Reql
