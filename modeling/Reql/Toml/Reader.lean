/-
# `Reql.Toml.Reader` — reading a TOML document

A document is a sequence of lines: a header that opens a table, a key with
its value, or nothing, each with a comment at most.  Arrays may go on over
several lines; inline tables may not.
-/
import Reql.Toml.Scalar

namespace Reql.Toml

open Reading

/-- How many arrays and inline tables may be inside each other, and how many parts a key
may have. -/
def maxNesting : Nat := 79

/-! ## Keys -/

/-- Whether a character may stand in a key without quotes. -/
def isBare (c : Char) : Bool := c.isAlphanum || c == '_' || c == '-'

/-- One part of a key. -/
def keyPart : Reading String := do
  match ← peek with
  | some c =>
    if c = '"' ∨ c = Char.ofNat 39 then
      exactly [c]
      lineText c
    else
      let letters ← takeWhile isBare
      if letters.isEmpty then failure else pure (String.ofList letters)
  | none => failure

/-- A key of so many parts at most: the parts before the last one, and the last one. -/
def keyWithin : Nat → Reading (List String × String)
  | 0 => failure
  | parts + 1 => do
    blanks
    let part ← keyPart
    blanks
    if ← optionally ['.'] then
      let (path, last) ← keyWithin parts
      return (part :: path, last)
    else return ([], part)

/-- A key. -/
def key : Reading (List String × String) := keyWithin maxNesting

/-! ## Values -/

/-- A value that holds no other values. -/
def scalar : Reading Value := do
  match ← peek with
  | some c => if c = '"' ∨ c = Char.ofNat 39 then return .string (← text) else word
  | none => failure

mutual

/-- A value with at most `depth` containers inside each other. -/
def value : Nat → Reading Value
  | 0 => scalar
  | depth + 1 => do
    match ← peek with
    | some '[' => do
      exactly ['[']
      let room ← get
      let items ← items depth room.length
      return .array items
    | some '\x7b' => do
      exactly ['\x7b']
      blanks
      if ← optionally ['\x7d'] then return .table []
      else
        let room ← get
        let entries ← members depth room.length []
        return .table (valuesOf entries)
    | _ => scalar
termination_by depth => (depth, 0)

/-- The items of an array up to its end. -/
def items (depth : Nat) : Nat → Reading (List Value)
  | 0 => failure
  | fuel + 1 => do
    skipLines fuel
    if ← optionally [']'] then return []
    else
      let item ← value depth
      skipLines fuel
      if ← optionally [','] then
        let rest ← items depth fuel
        return item :: rest
      else
        exactly [']']
        return [item]
termination_by fuel => (depth, fuel + 1)

/-- The entries of an inline table up to its end. -/
def members (depth : Nat) : Nat → Entries → Reading Entries
  | 0, _ => failure
  | fuel + 1, entries => do
    let (path, last) ← key
    exactly ['=']
    blanks
    let v ← value depth
    blanks
    match entries.assign last v path with
    | none => failure
    | some entries =>
      if ← optionally [','] then members depth fuel entries
      else
        exactly ['\x7d']
        return entries
termination_by fuel => (depth, fuel + 1)

end

/-! ## Documents -/

/-- The tables read so far, and the parts of the header that is open. -/
structure Progress where
  root : Entries
  current : List String

/-- One header, key or empty line. -/
def line (p : Progress) : Reading Progress := do
  blanks
  match ← peek with
  | some '[' => do
    exactly ['[']
    let array ← optionally ['[']
    let (path, last) ← key
    exactly [']']
    if array then exactly [']']
    endOfLine
    let change := if array then Entries.openElement last else Entries.openTable last
    match p.root.within change path with
    | some root => return ⟨root, path ++ [last]⟩
    | none => failure
  | some c =>
    if c = '#' ∨ c = '\n' ∨ c = '\r' then
      endOfLine
      return p
    else
      let (path, last) ← key
      exactly ['=']
      blanks
      let v ← value maxNesting
      endOfLine
      match p.root.within (Entries.assign last v path) p.current with
      | some root => return { p with root := root }
      | none => failure
  | none => return p

/-- All lines up to the end of the text. -/
def lines : Nat → Progress → Reading Progress
  | 0, p => pure p
  | fuel + 1, p => do
    match ← peek with
    | none => pure p
    | some _ =>
      let p ← line p
      lines fuel p

/-- The entries of a document. -/
def parse? (document : String) : Option (List (String × Value)) :=
  let cs := match document.toList with
    | '\ufeff' :: rest => rest
    | cs => cs
  match lines (cs.length + 1) ⟨[], []⟩ cs with
  | some (p, []) => some (valuesOf p.root)
  | _ => none

end Reql.Toml
