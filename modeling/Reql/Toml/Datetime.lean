/-
# `Reql.Toml.Datetime` — dates and times of day

A date, a time of day, or both, perhaps with an offset from universal time.  Every
reader gives the canonical spelling of what it takes: `T` between date and time, no
zeros at the end of a fraction, `Z` in upper case.

A document writes dates in two ways, which differ in what they let pass: as a value
(`read?`), and as a text (`ofText?`), where a day may end at 24 o'clock and an
offset is only bounded as a whole.
-/
import Reql.Double.Numeral
import Reql.Toml.Reading

namespace Reql.Toml.Datetime

open Reading

/-- Exactly `count` digits and what follows them. -/
def digits? (count : Nat) (cs : List Char) : Option (Nat × List Char) :=
  let digits := cs.take count
  if digits.length = count ∧ digits.all Char.isDigit then
    some (Double.Numeral.natOfDigits digits, cs.drop count)
  else none

/-- A number with zeros in front up to a width. -/
def padded (width n : Nat) : String :=
  let digits := Nat.toDigits 10 n
  String.ofList (List.replicate (width - digits.length) '0' ++ digits)

/-- How many days a month has. -/
def daysIn (year month : Nat) : Nat :=
  if month = 2 then
    if year % 4 = 0 ∧ (year % 100 ≠ 0 ∨ year % 400 = 0) then 29 else 28
  else if month = 4 ∨ month = 6 ∨ month = 9 ∨ month = 11 then 30
  else 31

/-- `2024-02-29` -/
def day? (cs : List Char) : Option (String × List Char) := do
  let (year, cs) ← digits? 4 cs
  let (_, cs) ← exactly ['-'] cs
  let (month, cs) ← digits? 2 cs
  let (_, cs) ← exactly ['-'] cs
  let (day, cs) ← digits? 2 cs
  if 1 ≤ month ∧ month ≤ 12 ∧ 1 ≤ day ∧ day ≤ daysIn year month then
    some (padded 4 year ++ "-" ++ padded 2 month ++ "-" ++ padded 2 day, cs)
  else none

/-- The fraction of a second, to nine places and without zeros at the end. -/
def fractionText (digits : List Char) : String :=
  let kept := ((digits.take 9).reverse.dropWhile (· == '0')).reverse
  if kept.isEmpty then "" else "." ++ String.ofList kept

/-- `13:30:00.5`, the hour being less than `hours`; a second may be a leap second. -/
def clock? (hours : Nat) (cs : List Char) : Option (String × List Char) := do
  let (hour, cs) ← digits? 2 cs
  let (_, cs) ← exactly [':'] cs
  let (minute, cs) ← digits? 2 cs
  let (_, cs) ← exactly [':'] cs
  let (second, cs) ← digits? 2 cs
  if hours ≤ hour ∨ 60 ≤ minute ∨ 61 ≤ second then none
  else
    let clock := padded 2 hour ++ ":" ++ padded 2 minute ++ ":" ++ padded 2 second
    match cs with
    | '.' :: rest =>
      let (digits, rest) := rest.span Char.isDigit
      if digits.isEmpty then none else some (clock ++ fractionText digits, rest)
    | cs => some (clock, cs)

/-- `Z` or `+01:00`, or nothing; `allowed` says which hours and minutes pass. -/
def offset? (allowed : Nat → Nat → Bool) (cs : List Char) : Option (String × List Char) :=
  match cs with
  | 'Z' :: rest => some ("Z", rest)
  | 'z' :: rest => some ("Z", rest)
  | sign :: rest =>
    if sign = '+' ∨ sign = '-' then do
      let (hour, rest) ← digits? 2 rest
      let (_, rest) ← exactly [':'] rest
      let (minute, rest) ← digits? 2 rest
      if allowed hour minute then
        let total := 60 * hour + minute
        let mark := if sign = '-' ∧ 0 < total then "-" else "+"
        some (mark ++ padded 2 (total / 60) ++ ":" ++ padded 2 (total % 60), rest)
      else none
    else some ("", sign :: rest)
  | [] => some ("", [])

/-- A date, a time of day, or a date and a time of day with or without an offset, and
what follows it. -/
def read? (cs : List Char) : Option (String × List Char) :=
  match day? cs with
  | none => clock? 24 cs
  | some (day, rest) =>
    match rest with
    | mark :: more =>
      if mark = 'T' ∨ mark = 't' ∨ (mark = ' ' ∧ more.head?.any Char.isDigit) then do
        let (clock, rest) ← clock? 24 more
        let (offset, rest) ← offset? (fun hour minute => hour < 24 && minute < 60) rest
        return (day ++ "T" ++ clock ++ offset, rest)
      else some (day, rest)
    | [] => some (day, [])

/-- Whether a value that begins so is a date or a time of day. -/
def begins (cs : List Char) : Bool :=
  let digits := (cs.takeWhile Char.isDigit).length
  (digits == 4 && (cs.drop 4).head? == some '-') || (digits == 2 && (cs.drop 2).head? == some ':')

/-- The date or time that a text as a whole is.  Its hour may be 24, and its offset
anything up to a day. -/
def ofText? (text : String) : Option String := do
  let (spelling, rest) ← match day? text.toList with
    | none => clock? 25 text.toList
    | some (day, mark :: more) =>
      if mark = 'T' ∨ mark = 't' ∨ mark = ' ' then do
        let (clock, rest) ← clock? 25 more
        let (offset, rest) ← offset? (fun hour minute => 60 * hour + minute ≤ 24 * 60) rest
        pure (day ++ "T" ++ clock ++ offset, rest)
      else none
    | some whole => some whole
  if rest.isEmpty then some spelling else none

end Reql.Toml.Datetime
