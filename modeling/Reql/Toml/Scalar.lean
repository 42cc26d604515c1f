/-
# `Reql.Toml.Scalar` — numbers, words and strings of TOML

Readers of values that hold no other values.
-/
import Reql.Double.Numeral
import Reql.Toml.Basic
import Reql.Toml.Datetime

namespace Reql.Toml

open Reading

/-! ## Strings -/

/-- The number that hexadecimal digits write. -/
def hexValue? (digits : List Char) : Option Nat :=
  digits.foldlM (fun n c =>
    if c.isDigit then some (16 * n + (c.toNat - '0'.toNat))
    else if 'a' ≤ c ∧ c ≤ 'f' then some (16 * n + (c.toNat - 'a'.toNat + 10))
    else if 'A' ≤ c ∧ c ≤ 'F' then some (16 * n + (c.toNat - 'A'.toNat + 10))
    else none) 0

/-- The character of a code point, if it is one. -/
def charOf? (code : Nat) : Option Char :=
  if code.isValidChar then some (Char.ofNat code) else none

/-- What follows a backslash, and the characters after it. -/
def escape? : List Char → Option (Char × List Char)
  | 'b' :: rest => some ('\x08', rest)
  | 't' :: rest => some ('\t', rest)
  | 'n' :: rest => some ('\n', rest)
  | 'f' :: rest => some ('\x0c', rest)
  | 'r' :: rest => some ('\r', rest)
  | '"' :: rest => some ('"', rest)
  | '\\' :: rest => some ('\\', rest)
  | 'u' :: rest =>
    if rest.length < 4 then none
    else do
      let c ← (hexValue? (rest.take 4)).bind charOf?
      return (c, rest.drop 4)
  | 'U' :: rest =>
    if rest.length < 8 then none
    else do
      let c ← (hexValue? (rest.take 8)).bind charOf?
      return (c, rest.drop 8)
  | _ => none

/-- The rest of a string on one line, up to its quote; `quote` is `"` where
backslashes escape and the apostrophe where they do not. -/
def lineString (quote : Char) : Nat → List Char → Option (List Char × List Char)
  | 0, _ => none
  | fuel + 1, cs =>
    match cs with
    | [] => none
    | c :: rest =>
      if c = quote then some ([], rest)
      else if c = '\\' ∧ quote = '"' then do
        let (meant, rest) ← escape? rest
        let (more, rest) ← lineString quote fuel rest
        return (meant :: more, rest)
      else if isPlain c then do
        let (more, rest) ← lineString quote fuel rest
        return (c :: more, rest)
      else none

/-- Drops blanks, tabs and line breaks, after a backslash at the end of a line.  A
carriage return that breaks no line stays. -/
def dropLines : List Char → List Char
  | ' ' :: rest => dropLines rest
  | '\t' :: rest => dropLines rest
  | '\n' :: rest => dropLines rest
  | '\r' :: '\n' :: rest => dropLines rest
  | cs => cs

/-- Whether nothing but blanks stands before the next line break. -/
def endsLine (cs : List Char) : Bool :=
  match cs.dropWhile fun c => c == ' ' || c == '\t' with
  | '\n' :: _ => true
  | '\r' :: '\n' :: _ => true
  | _ => false

/-- The rest of a string over several lines.  Three quotes end it, and up to two
quotes right before them belong to it. -/
def blockString (quote : Char) : Nat → List Char → Option (List Char × List Char)
  | 0, _ => none
  | fuel + 1, cs =>
    let quotes := (cs.takeWhile (· == quote)).length
    if 3 ≤ quotes then
      if quotes ≤ 5 then some (List.replicate (quotes - 3) quote, cs.drop quotes) else none
    else
      match cs with
      | [] => none
      | '\r' :: '\n' :: rest => do
        let (more, rest) ← blockString quote fuel rest
        return ('\n' :: more, rest)
      | c :: rest =>
        if c = '\\' ∧ quote = '"' then
          if endsLine rest then blockString quote fuel (dropLines rest)
          else do
            let (meant, rest) ← escape? rest
            let (more, rest) ← blockString quote fuel rest
            return (meant :: more, rest)
        else if isPlain c ∨ c = '\n' then do
          let (more, rest) ← blockString quote fuel rest
          return (c :: more, rest)
        else none

/-- A string on one line, its first quote taken already. -/
def lineText (quote : Char) : Reading String := fun cs =>
  (lineString quote (cs.length + 1) cs).map fun (letters, rest) => (String.ofList letters, rest)

/-- A string over several lines, its first quotes taken already; a line break right
after them does not count. -/
def blockText (quote : Char) : Reading String := fun cs =>
  let cs := match cs with
    | '\n' :: rest => rest
    | '\r' :: '\n' :: rest => rest
    | cs => cs
  (blockString quote (cs.length + 1) cs).map fun (letters, rest) => (String.ofList letters, rest)

/-- Any string. -/
def text : Reading String := do
  let apostrophe := Char.ofNat 39
  if ← optionally (List.replicate 3 '"') then blockText '"'
  else if ← optionally (List.replicate 3 apostrophe) then blockText apostrophe
  else if ← optionally ['"'] then lineText '"'
  else
    exactly [apostrophe]
    lineText apostrophe

/-! ## Numbers -/

/-- Digits with single underscores between them; the digits alone. -/
def digitRun? (p : Char → Bool) (cs : List Char) : Option (List Char) :=
  match cs with
  | [] => none
  | c :: rest => if p c then go rest [c] else none
where
  go : List Char → List Char → Option (List Char)
    | [], taken => some taken.reverse
    | '_' :: c :: rest, taken => if p c then go rest (c :: taken) else none
    | c :: rest, taken => if p c then go rest (c :: taken) else none

/-- The number that digits of a base write. -/
def natOf (base : Nat) (digits : List Char) : Nat :=
  digits.foldl (fun n c =>
    let digit := if c.isDigit then c.toNat - '0'.toNat else c.toLower.toNat - 'a'.toNat + 10
    base * n + digit) 0

/-- An integer is kept if a document can hold it. -/
def integer? (value : Int) : Option Value :=
  if fitsInteger value then some (.integer value) else none

/-- Digits without a needless zero in front. -/
def wholePart? (cs : List Char) : Option (List Char) := do
  let digits ← digitRun? Char.isDigit cs
  if digits.head? = some '0' ∧ 1 < digits.length then none else some digits

/-- The exponent that follows a mantissa; none is 0. -/
def exponentOf? : List Char → Option Int
  | [] => some 0
  | _ :: rest => do
    let (down, digits) := Double.Numeral.splitSign rest
    let digits ← digitRun? Char.isDigit digits
    let size : Int := Double.Numeral.natOfDigits digits
    return if down then -size else size

/-- The digits from the point on; without a point there are none. -/
def fractionOf? : List Char → Option (List Char)
  | [] => some []
  | _ :: digits => digitRun? Char.isDigit digits

/-- A number with a point, an exponent, or both, but without its sign.  One that is too
large for a double is refused; one that is too far below zero is negative infinity. -/
def float? (negative : Bool) (cs : List Char) : Option Value := do
  let (mantissa, exponent) := cs.span fun c => c != 'e' && c != 'E'
  let (whole, fraction) := mantissa.span (· != '.')
  let whole ← wholePart? whole
  let fraction ← fractionOf? fraction
  let exponent ← exponentOf? exponent
  let value := Double.binary64.ofDecimal negative
    (Double.Numeral.natOfDigits (whole ++ fraction)) (exponent - fraction.length)
  if value = .infinity false then none else some (.float value)

/-- The number that a word is. -/
def number? (word : List Char) : Option Value :=
  match word with
  | '0' :: 'x' :: rest => do
    let digits ← digitRun? (fun c => (hexValue? [c]).isSome) rest
    integer? (natOf 16 digits)
  | '0' :: 'o' :: rest => do
    let digits ← digitRun? (fun c => '0' ≤ c && c ≤ '7') rest
    integer? (natOf 8 digits)
  | '0' :: 'b' :: rest => do
    let digits ← digitRun? (fun c => c == '0' || c == '1') rest
    integer? (natOf 2 digits)
  | _ =>
    let (negative, rest) := Double.Numeral.splitSign word
    if rest = "inf".toList then some (.float (.infinity negative))
    else if rest = "nan".toList then some (.float .nan)
    else if rest.any fun c => c == '.' || c == 'e' || c == 'E' then float? negative rest
    else do
      let digits ← wholePart? rest
      let size : Int := Double.Numeral.natOfDigits digits
      integer? (if negative then -size else size)

/-! ## Words -/

/-- Whether a character may belong to a number. -/
def isNumberPart (c : Char) : Bool :=
  c.isAlphanum || c == '_' || c == '+' || c == '-' || c == '.'

/-- A truth value, number, date or time. -/
def word : Reading Value := fun cs =>
  if Datetime.begins cs then (Datetime.read? cs).map fun (date, rest) => (.datetime date, rest)
  else
    let (letters, rest) := cs.span isNumberPart
    if letters = "true".toList then some (.boolean true, rest)
    else if letters = "false".toList then some (.boolean false, rest)
    else (number? letters).map fun value => (value, rest)

end Reql.Toml
