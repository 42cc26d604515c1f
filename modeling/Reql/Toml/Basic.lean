/-
# `Reql.Toml.Basic` — TOML documents

The values a document holds, and the tables that are open while it is
read.  A table remembers how it came to be, because that decides whether more
may be added to it:

    implied   only named as a part of some `[a.b]`; may still get its own header
    header    has had its header; a second one is refused
    dotted    made by a dotted key; only further dotted keys add to it
-/
import Reql.Double.Rounding

namespace Reql.Toml

/-- A value of a document. -/
inductive Value where
  | string (text : String)
  | integer (value : Int)
  | float (value : Double)
  | boolean (value : Bool)
  /-- A date, a time of day, or both, in its canonical spelling. -/
  | datetime (text : String)
  | array (items : List Value)
  | table (entries : List (String × Value))
  deriving Repr, Inhabited

/-- Whether a document can hold an integer: it has 64 bits with a sign. -/
def fitsInteger (value : Int) : Bool :=
  Int64.minValue.toInt ≤ value && value ≤ Int64.maxValue.toInt

/-- How a table came to be. -/
inductive Origin where
  | implied
  | header
  | dotted
  deriving DecidableEq, Repr

/-- What a key stands for while the document is read. -/
inductive Node where
  | leaf (value : Value)
  | table (origin : Origin) (entries : List (String × Node))
  /-- An array of tables; the latest one is open. -/
  | tables (earlier : List (List (String × Node))) (latest : List (String × Node))
  deriving Repr, Inhabited

abbrev Entries := List (String × Node)

namespace Entries

/-- Gives a key that is there another node. -/
def set (key : String) (node : Node) (entries : Entries) : Entries :=
  entries.map fun entry => if entry.1 = key then (key, node) else entry

/-- Adds a value under a dotted key, `path` being all but its last part. -/
def assign (key : String) (value : Value) : List String → Entries → Option Entries
  | [], entries =>
    if (entries.lookup key).isSome then none else some (entries ++ [(key, .leaf value)])
  | part :: path, entries =>
    match entries.lookup part with
    | none => do
      let inner ← assign key value path []
      return entries ++ [(part, .table .dotted inner)]
    | some (.table .dotted inner) => do
      let inner ← assign key value path inner
      return set part (.table .dotted inner) entries
    | some (.table .implied inner) =>
      if path.isEmpty then none
      else do
        let inner ← assign key value path inner
        return set part (.table .implied inner) entries
    | some (.tables earlier latest) =>
      if path.isEmpty then none
      else do
        let latest ← assign key value path latest
        return set part (.tables earlier latest) entries
    | some _ => none

/-- Changes the entries of the table that a header names, `path` being the
parts before; tables on the way are made as needed. -/
def within (change : Entries → Option Entries) : List String → Entries → Option Entries
  | [], entries => change entries
  | part :: path, entries =>
    match entries.lookup part with
    | none => do
      let inner ← within change path []
      return entries ++ [(part, .table .implied inner)]
    | some (.table origin inner) => do
      let inner ← within change path inner
      return set part (.table origin inner) entries
    | some (.tables earlier latest) => do
      let latest ← within change path latest
      return set part (.tables earlier latest) entries
    | some (.leaf _) => none

/-- Without a key. -/
def erase (key : String) (entries : Entries) : Entries := entries.filter (·.1 != key)

/-- The header `[... key]`.  A table stands where its own header does, after what came
before, even if it was implied earlier. -/
def openTable (key : String) (entries : Entries) : Option Entries :=
  match entries.lookup key with
  | none => some (entries ++ [(key, .table .header [])])
  | some (.table .implied inner) => some (entries.erase key ++ [(key, .table .header inner)])
  | some _ => none

/-- The header `[[... key]]`. -/
def openElement (key : String) (entries : Entries) : Option Entries :=
  match entries.lookup key with
  | none => some (entries ++ [(key, .tables [] [])])
  | some (.tables earlier latest) => some (set key (.tables (earlier ++ [latest]) []) entries)
  | some _ => none

end Entries

mutual

/-- The value of a node. -/
def Node.toValue : Node → Value
  | .leaf value => value
  | .table _ entries => .table (valuesOf entries)
  | .tables earlier latest => .array (tablesOf earlier ++ [.table (valuesOf latest)])

def tablesOf : List (List (String × Node)) → List Value
  | [] => []
  | entries :: rest => .table (valuesOf entries) :: tablesOf rest

def valuesOf : List (String × Node) → List (String × Value)
  | [] => []
  | (key, node) :: rest => (key, node.toValue) :: valuesOf rest

end

end Reql.Toml
