/-
# `Reql.Toml.Reading` — taking characters off the front of a text

A `Reading` takes characters off the front of a text or fails; it never looks
back.  Here are the steps that all readers of a document share: fixed words,
runs of characters, and what may stand between two things on a line.
-/

namespace Reql.Toml

/-- Takes characters off the front of a text, or fails. -/
abbrev Reading := StateT (List Char) Option

namespace Reading

/-- The next character, left where it is. -/
def peek : Reading (Option Char) := fun cs => some (cs.head?, cs)

/-- Takes exactly these characters. -/
def exactly (word : List Char) : Reading Unit := fun cs =>
  if word.isPrefixOf cs then some ((), cs.drop word.length) else none

/-- Takes these characters if they come next, and says whether they did. -/
def optionally (word : List Char) : Reading Bool := fun cs =>
  if word.isPrefixOf cs then some (true, cs.drop word.length) else some (false, cs)

/-- Takes all characters of a kind. -/
def takeWhile (p : Char → Bool) : Reading (List Char) := fun cs => some (cs.span p)

/-- Takes blanks and tabs. -/
def blanks : Reading Unit := do
  let _ ← takeWhile fun c => c == ' ' || c == '\t'

/-- Takes a line break. -/
def lineBreak : Reading Unit := fun cs =>
  match cs with
  | '\n' :: rest => some ((), rest)
  | '\r' :: '\n' :: rest => some ((), rest)
  | _ => none

/-- Whether a character may stand in comments and strings on one line. -/
def isPlain (c : Char) : Bool := c == '\t' || (0x20 ≤ c.toNat && c.toNat ≠ 0x7F)

/-- Takes a comment up to the end of its line, if one begins here. -/
def comment : Reading Unit := do
  if ← optionally ['#'] then
    let _ ← takeWhile isPlain

/-- Takes blanks and a comment up to the end of the line or text. -/
def endOfLine : Reading Unit := do
  blanks
  comment
  match ← peek with
  | none => pure ()
  | some _ => lineBreak

/-- Whether white space, comments and line breaks are skipped with so much fuel. -/
def skipLines : Nat → Reading Unit
  | 0 => pure ()
  | fuel + 1 => do
    blanks
    comment
    match ← peek with
    | some '\n' => lineBreak; skipLines fuel
    | some '\r' => lineBreak; skipLines fuel
    | _ => pure ()

end Reading

end Reql.Toml
