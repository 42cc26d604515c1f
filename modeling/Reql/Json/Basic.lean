/-
# `Reql.Json.Basic` — JSON documents

A document keeps the members of an object in the order they were put in.
A number is an integer or a double; only finite doubles have a JSON form.
-/
import Reql.Double.Rounding

namespace Reql

namespace Json

/-- A number of a document. -/
inductive Number where
  | int (value : Int)
  | double (value : Double)
  deriving DecidableEq, Repr

/-- The double nearest to a number of a document. -/
def Number.toDouble : Number → Double
  | .int value => Double.ofInt value
  | .double value => value

end Json

/-- A JSON document. -/
inductive Json where
  | null
  | bool (value : Bool)
  | number (value : Json.Number)
  | string (value : String)
  | array (items : List Json)
  | object (members : List (String × Json))
  deriving Repr, Inhabited

namespace Json

/-- An integer as a document. -/
def int (value : Int) : Json := .number (.int value)

/-- A double as a document: null when it is not finite. -/
def double (value : Double) : Json :=
  if value.isFinite then .number (.double value) else .null

end Json

end Reql
