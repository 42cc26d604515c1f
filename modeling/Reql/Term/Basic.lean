/-
# `Reql.Term.Basic` — query terms

A term is a literal, or an operation applied to positional arguments and
named options.  Options are in increasing order of their names.

    BETWEEN(TABLE("users"), 1, 10, index="code")

A literal answers to the operation `DATUM`; `Term.Valid` says that no
application carries that operation, so the two kinds never overlap.
-/
import Reql.Datum
import Reql.Operation

namespace Reql

/-- A query, or a part of one. -/
inductive Term where
  | literal (value : Datum)
  | apply (operation : Operation) (args : List Term) (options : List (String × Term))
  deriving Repr, Inhabited

namespace Term

/-! ## Parts -/

/-- The operation of the root; a literal has the operation `DATUM`. -/
def operation : Term → Operation
  | .literal _ => .datum
  | .apply op _ _ => op

/-- The positional arguments of the root. -/
def args : Term → List Term
  | .literal _ => []
  | .apply _ args _ => args

/-- The named options of the root. -/
def options : Term → Fields Term
  | .literal _ => []
  | .apply _ _ options => options

/-- The value of a literal. -/
def datum? : Term → Option Datum
  | .literal value => some value
  | .apply _ _ _ => none

/-- Whether the term is a literal. -/
def isLiteral (t : Term) : Bool := t.datum?.isSome

/-- Whether the root has an operation. -/
def is (t : Term) (op : Operation) : Bool := t.operation == op

/-- The argument at a position, counted from 0. -/
def arg? (t : Term) (index : Nat) : Option Term := t.args[index]?

/-- The value of an option. -/
def option? (t : Term) (name : String) : Option Term := t.options.get? name

/-! ## Measures -/

mutual

/-- How many nodes a term has, options included. -/
def nodeCount : Term → Nat
  | .literal _ => 1
  | .apply _ args options => 1 + countArgs args + countOptions options

def countArgs : List Term → Nat
  | [] => 0
  | t :: rest => t.nodeCount + countArgs rest

def countOptions : List (String × Term) → Nat
  | [] => 0
  | (_, t) :: rest => t.nodeCount + countOptions rest

end

/-! ## Validity -/

mutual

/-- No application anywhere in the term carries the operation of literals. -/
def Valid : Term → Prop
  | .literal _ => True
  | .apply op args options => op ≠ .datum ∧ ValidArgs args ∧ ValidOptions options

def ValidArgs : List Term → Prop
  | [] => True
  | t :: rest => t.Valid ∧ ValidArgs rest

def ValidOptions : List (String × Term) → Prop
  | [] => True
  | (_, t) :: rest => t.Valid ∧ ValidOptions rest

end

/-! ## Comparison -/

mutual

/-- Equality of terms under the comparison of IEEE arithmetic. -/
def equals : Term → Term → Bool
  | .literal a, .literal b => a.equals b
  | .apply op as os, .apply op' as' os' => op == op' && equalsArgs as as' && equalsOptions os os'
  | _, _ => false

def equalsArgs : List Term → List Term → Bool
  | [], [] => true
  | a :: as, b :: bs => a.equals b && equalsArgs as bs
  | _, _ => false

def equalsOptions : List (String × Term) → List (String × Term) → Bool
  | [], [] => true
  | (k, a) :: as, (l, b) :: bs => k == l && a.equals b && equalsOptions as bs
  | _, _ => false

end

end Term

end Reql
