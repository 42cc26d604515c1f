/-
# `Reql.Expr.Token` — the words of the written form

Six brackets, strings, and words.  A word runs up to the next delimiter and
is a constant, a number, a keyword, or else a symbol.  It counts as a number
as soon as it begins like one, with a digit or with a sign or point and a digit.
-/
import Reql.Double.Numeral
import Reql.Error
import Reql.Expr.Basic
import Reql.Text.Blank

namespace Reql

/-- A word of the written form. -/
inductive Token where
  | openList
  | closeList
  | openVector
  | closeVector
  | openMap
  | closeMap
  | null
  | bool (value : Bool)
  | number (value : Double)
  | string (value : String)
  | keyword (name : String)
  | symbol (name : String)
  deriving DecidableEq, Repr

namespace Token

/-- The bracket that a character is. -/
def bracket? (c : Char) : Option Token :=
  if c = '(' then some .openList
  else if c = ')' then some .closeList
  else if c = '[' then some .openVector
  else if c = ']' then some .closeVector
  else if c = '\x7b' then some .openMap
  else if c = '\x7d' then some .closeMap
  else none

/-- Whether a character separates tokens and means nothing else. -/
def isSeparator (c : Char) : Bool := Text.isBlank c || c == ','

/-- Whether a character ends a word. -/
def isDelimiter (c : Char) : Bool :=
  isSeparator c || c == ';' || c == '"' || (bracket? c).isSome

/-- Whether a word begins like a number. -/
def beginsNumber : List Char → Bool
  | [] => false
  | c :: rest =>
    c.isDigit || ((c == '-' || c == '+' || c == '.') && rest.head?.any Char.isDigit)

/-- The token that a word is. -/
def ofWord (letters : List Char) : Except ReadError Token :=
  let word := String.ofList letters
  if word = "true" then .ok (.bool true)
  else if word = "false" then .ok (.bool false)
  else if word = "nil" ∨ word = "null" then .ok .null
  else if beginsNumber letters then
    match Double.ofText? word with
    | some value => .ok (.number value)
    | none => .error (.invalidNumber word)
  else
    match letters with
    | [':'] => .error .emptyKeyword
    | ':' :: name => .ok (.keyword (String.ofList name))
    | _ => .ok (.symbol word)

end Token

end Reql
