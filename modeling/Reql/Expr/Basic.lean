/-
# `Reql.Expr.Basic` — expressions

The written form of a query, before any name in it is looked up:

    (insert (table "users") {"name" "ada"} :return-changes true)
    (reduce (table "scores") (fn [acc row] (+ acc row)))

`(head arg... :option value...)` invokes a command, `[...]` is an array,
`{key value ...}` an object, and `(fn [x y] body)` a function.  Symbols and
invocations remember where they stand, counted in bytes.
-/
import Reql.Double.Basic

namespace Reql

/-- Something that stands at a place of a text, counted in bytes. -/
structure Placed (α : Type) where
  offset : Nat
  value : α
  deriving DecidableEq, Repr

/-- A written query. -/
inductive Expr where
  | null
  | bool (value : Bool)
  | number (value : Double)
  | string (value : String)
  | symbol (name : String) (offset : Nat)
  | vector (items : List Expr)
  | map (entries : List (String × Expr))
  /-- The names of options have underscores for dashes. -/
  | call (head : String) (offset : Nat) (args : List Expr) (options : List (String × Expr))
  | fn (params : List String) (body : Expr)
  deriving Repr, Inhabited

end Reql
