/-
# `Reql.Json.Printer` — the text of a JSON document

Two layouts: `compact` has no white space at all, and `pretty` gives each
item and member a line of its own, indented by two spaces a level, with empty
containers on one line.  Strings escape the quote, the backslash and the
characters below U+0020, and nothing else.
-/
import Reql.Double.Layout
import Reql.Json.Basic
import Reql.Text.Joined

namespace Reql.Json

/-! ## Scalars -/

/-- Four hexadecimal digits. -/
def hex4 (code : Nat) : List Char :=
  let digits := Nat.toDigits 16 code
  List.replicate (4 - digits.length) '0' ++ digits

/-- How one character of a string is written. -/
def escapedChar (c : Char) : List Char :=
  if c = '"' then ['\\', '"']
  else if c = '\\' then ['\\', '\\']
  else if c = '\x08' then ['\\', 'b']
  else if c = '\x0c' then ['\\', 'f']
  else if c = '\n' then ['\\', 'n']
  else if c = '\r' then ['\\', 'r']
  else if c = '\t' then ['\\', 't']
  else if c.toNat < 0x20 then '\\' :: 'u' :: hex4 c.toNat
  else [c]

/-- A string between quotes. -/
def stringText (text : String) : String :=
  String.ofList ('"' :: text.toList.flatMap escapedChar ++ ['"'])

def boolText (b : Bool) : String := if b then "true" else "false"

/-- The text of a number; a double that is not finite has none and is null. -/
def Number.text : Number → String
  | .int value => Double.signText (value < 0) ++ Double.digitText value.natAbs
  | .double value => value.wire?.getD "null"

/-! ## Documents -/

mutual

/-- The text without white space. -/
def compact : Json → String
  | .null => "null"
  | .bool value => boolText value
  | .number value => value.text
  | .string value => stringText value
  | .array items => "[" ++ Text.joined "," (compactItems items) ++ "]"
  | .object members => "\x7b" ++ Text.joined "," (compactMembers members) ++ "\x7d"

def compactItems : List Json → List String
  | [] => []
  | item :: rest => item.compact :: compactItems rest

def compactMembers : List (String × Json) → List String
  | [] => []
  | (name, value) :: rest => (stringText name ++ ":" ++ value.compact) :: compactMembers rest

end

/-- A line break and the indentation of a level. -/
def newline (level : Nat) : String := "\n" ++ Text.repeated "  " level

/-- A container over several lines, or on one line when it is empty. -/
def block (open_ close : String) (level : Nat) (entries : List String) : String :=
  if entries.isEmpty then open_ ++ close
  else
    open_ ++ newline (level + 1) ++ Text.joined ("," ++ newline (level + 1)) entries
      ++ newline level ++ close

mutual

/-- The text over several lines, `level` containers deep. -/
def prettyAt (level : Nat) : Json → String
  | .null => "null"
  | .bool value => boolText value
  | .number value => value.text
  | .string value => stringText value
  | .array items => block "[" "]" level (prettyItems (level + 1) items)
  | .object members => block "\x7b" "\x7d" level (prettyMembers (level + 1) members)

def prettyItems (level : Nat) : List Json → List String
  | [] => []
  | item :: rest => item.prettyAt level :: prettyItems level rest

def prettyMembers (level : Nat) : List (String × Json) → List String
  | [] => []
  | (name, value) :: rest =>
    (stringText name ++ ": " ++ value.prettyAt level) :: prettyMembers level rest

end

/-- The text over several lines. -/
def pretty (document : Json) : String := document.prettyAt 0

end Reql.Json
