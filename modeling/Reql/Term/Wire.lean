/-
# `Reql.Term.Wire` — the JSON form of a term

A node is an object with the number of its operation and, where there are
any, its arguments and options; a literal has its value instead.

    {"term_type": 15, "args": [{"term_type": 1, "datum": "users"}]}
-/
import Reql.Term.Basic

namespace Reql.Term

/-- A member of an object that is left out when it holds nothing. -/
def memberUnless (empty : Bool) (name : String) (value : Json) : List (String × Json) :=
  if empty then [] else [(name, value)]

mutual

/-- The document of a term. -/
def toJson : Term → Json
  | .literal value =>
    .object [("term_type", .int Operation.datum.code), ("datum", value.toJson)]
  | .apply op args options =>
    .object (("term_type", .int op.code)
      :: (memberUnless args.isEmpty "args" (.array (toJsonArgs args))
        ++ memberUnless options.isEmpty "optargs" (.object (toJsonOptions options))))

def toJsonArgs : List Term → List Json
  | [] => []
  | t :: rest => t.toJson :: toJsonArgs rest

def toJsonOptions : List (String × Term) → List (String × Json)
  | [] => []
  | (name, t) :: rest => (name, t.toJson) :: toJsonOptions rest

end

/-- The text that goes over the wire. -/
def wire (t : Term) : String := t.toJson.compact

end Reql.Term
