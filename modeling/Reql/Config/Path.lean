/-
# `Reql.Config.Path` — names of settings and of what is inside them

A setting is named by a word.  What would be inside it is named by a path: the
word, and then steps that go to an entry (`name.entry`) or to an item
(`name[0]`).
-/
import Reql.Double.Numeral
import Reql.Toml.Basic

namespace Reql.Config

/-- One step into a container. -/
inductive Step where
  | entry (name : String)
  | item (index : Int)
  deriving DecidableEq, Repr

/-- A word and the steps from there. -/
structure Path where
  name : String
  steps : List Step
  deriving DecidableEq, Repr

namespace Path

/-- Whether a character may stand in a word. -/
def isPart (c : Char) : Bool := c.isAlphanum || c == '_' || c == '-' || c == ' '

/-- A word, and what follows it. -/
def word? (cs : List Char) : Option (String × List Char) :=
  match cs.span isPart with
  | ([], _) => none
  | (letters, rest) => some (String.ofList letters, rest)

/-- Without the blanks in front. -/
def dropBlanks (cs : List Char) : List Char := cs.dropWhile fun c => c == ' ' || c == '\t'

/-- The index between brackets, the first of them taken already, and what follows them. -/
def index? (cs : List Char) : Option (Int × List Char) :=
  let (negative, cs) := match dropBlanks cs with
    | '-' :: rest => (true, rest)
    | rest => (false, rest)
  let (digits, rest) := cs.span Char.isDigit
  let size : Int := Double.Numeral.natOfDigits digits
  let index := if negative then -size else size
  match dropBlanks rest with
  | ']' :: rest => if digits.isEmpty || !Toml.fitsInteger index then none else some (index, rest)
  | _ => none

/-- The steps up to the end of a text. -/
def steps? : Nat → List Char → Option (List Step)
  | _, [] => some []
  | fuel + 1, '.' :: rest => do
    let (name, rest) ← word? rest
    return .entry name :: (← steps? fuel rest)
  | fuel + 1, '[' :: rest => do
    let (index, rest) ← index? rest
    return .item index :: (← steps? fuel rest)
  | _, _ => none

/-- The path that a text writes. -/
def ofText? (text : String) : Option Path := do
  let (name, rest) ← word? text.toList
  return ⟨name, ← steps? rest.length rest⟩

end Path

end Reql.Config
