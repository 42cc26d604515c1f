/-
# `Reql.Text.Quoted` — strings between double quotes

A quoted string shows every character that could mislead a reader as an
escape: the quote and the backslash, the controls with a letter of their own,
and by its code point in hexadecimal everything else that has no visible form
or would merge with the character before it.
-/
import Reql.Text.Printable

namespace Reql.Text

/-- The escape of a character by its code point. -/
def codeEscape (c : Char) : List Char :=
  "\\u\x7b".toList ++ Nat.toDigits 16 c.toNat ++ ['\x7d']

/-- How one character of a string is written between quotes. -/
def escapedChar (c : Char) : List Char :=
  if c = '"' then ['\\', '"']
  else if c = '\\' then ['\\', '\\']
  else if c = '\n' then ['\\', 'n']
  else if c = '\r' then ['\\', 'r']
  else if c = '\t' then ['\\', 't']
  else if c = '\x00' then ['\\', '0']
  else if isExtender c || !isPrintable c then codeEscape c
  else [c]

/-- The string between quotes. -/
def quoted (text : String) : String :=
  String.ofList ('"' :: text.toList.flatMap escapedChar ++ ['"'])

end Reql.Text
