/-
# `Reql.Double.Numeral` — reading a number

A numeral is an optional sign and one of

    digits [. [digits]] [exponent]        12   12.   12.5   12e3
    . digits [exponent]                   .5   .5e-3
    inf   infinity   nan                  in any mix of cases

where an exponent is `e` or `E`, an optional sign and digits.  Only the ASCII
digits count.  A numeral means the nearest double.
-/
import Reql.Double.Rounding

namespace Reql.Double

/-- What a numeral says before it is rounded. -/
inductive Numeral where
  | nan
  | infinity
  | decimal (significand : Nat) (exponent : Int)
  deriving DecidableEq, Repr

namespace Numeral

/-- The natural number that a run of digits writes. -/
def natOfDigits (digits : List Char) : Nat :=
  digits.foldl (fun n c => 10 * n + (c.toNat - '0'.toNat)) 0

/-- Takes an optional sign off; `true` says it was a minus. -/
def splitSign : List Char → Bool × List Char
  | '-' :: rest => (true, rest)
  | '+' :: rest => (false, rest)
  | cs => (false, cs)

/-- An exponent part, or nothing at all (exponent 0). -/
def readExponent? : List Char → Option Int
  | [] => some 0
  | e :: rest =>
    if e = 'e' ∨ e = 'E' then
      let (negative, digits) := splitSign rest
      if digits.isEmpty || !digits.all Char.isDigit then none
      else if negative then some (-(natOfDigits digits : Int))
      else some (natOfDigits digits)
    else none

/-- Splits off the digits after a point, if there is a point. -/
def splitFraction : List Char → List Char × List Char
  | '.' :: rest => rest.span Char.isDigit
  | cs => ([], cs)

/-- An unsigned decimal numeral. -/
def readDecimal? (cs : List Char) : Option Numeral :=
  let (whole, rest) := cs.span Char.isDigit
  let (fraction, rest) := splitFraction rest
  if whole.isEmpty && fraction.isEmpty then none
  else (readExponent? rest).map fun e =>
    .decimal (natOfDigits (whole ++ fraction)) (e - fraction.length)

/-- An unsigned numeral. -/
def readUnsigned? (cs : List Char) : Option Numeral :=
  let word := cs.map Char.toLower
  if word = "inf".toList ∨ word = "infinity".toList then some .infinity
  else if word = "nan".toList then some .nan
  else readDecimal? cs

/-- The double that a numeral means, rounded to `f` on the way. -/
def round (f : Format) (negative : Bool) : Numeral → Double
  | .nan => .nan
  | .infinity => .infinity negative
  | .decimal significand exponent => f.ofDecimal negative significand exponent

end Numeral

/-- Reads a whole text as one numeral of the format `f`. -/
def Format.read? (f : Format) (text : String) : Option Double :=
  let (negative, rest) := Numeral.splitSign text.toList
  (Numeral.readUnsigned? rest).map (Numeral.round f negative)

/-- Reads a whole text as one numeral. -/
def ofText? (text : String) : Option Double := binary64.read? text

end Reql.Double
