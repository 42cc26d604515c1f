/-
# `Reql.Double.Layout` — how the digits of a number are laid out

Two layouts of the same digits:

    plain    1   -0   0.1   10000000000000000   0.0000001   inf   NaN
    wire     1.0 -0.0 0.1   1e+16               1e-7        null  null

`plain` never has an exponent and writes whole numbers without a point.
`wire` always has a point or an exponent: it is positional for decimal
exponents from -5 to 15 and scientific, with the exponent's sign, outside.
Of two equally near candidates for the last digit `plain` writes the larger
one and `wire` the even one.
-/
import Reql.Double.Shortest

namespace Reql.Double

/-- The decimal digits of a natural number. -/
def digitText (n : Nat) : String := String.ofList (Nat.toDigits 10 n)

def zeros (n : Nat) : String := String.ofList (List.replicate n '0')

/-- Digits with a point after the first `before` of them, zeros filling in
on either side; `whole` follows a number that has no fraction. -/
def positional (digits : List Char) (before : Int) (whole : String) : String :=
  if before ≤ 0 then "0." ++ zeros (-before).toNat ++ String.ofList digits
  else if digits.length ≤ before.toNat then
    String.ofList digits ++ zeros (before.toNat - digits.length) ++ whole
  else
    String.ofList (digits.take before.toNat) ++ "." ++ String.ofList (digits.drop before.toNat)

/-- Digits with a point after the first of them and an exponent with its sign. -/
def scientific (digits : List Char) (exponent : Int) : String :=
  let fraction := digits.drop 1
  String.ofList (digits.take 1)
    ++ (if fraction.isEmpty then "" else "." ++ String.ofList fraction)
    ++ (if exponent < 0 then "e-" else "e+") ++ digitText exponent.natAbs

def signText (negative : Bool) : String := if negative then "-" else ""

/-- The plain layout of a finite magnitude. -/
def plainMagnitude (d : Decimal) : String :=
  let digits := Nat.toDigits 10 d.digits
  positional digits (digits.length + d.exponent) ""

/-- The wire layout of a finite magnitude. -/
def wireMagnitude (d : Decimal) : String :=
  let digits := Nat.toDigits 10 d.digits
  let before : Int := digits.length + d.exponent
  if -5 < before ∧ before ≤ 16 then positional digits before ".0"
  else scientific digits (before - 1)

/-- The plain text of a number. -/
def plain : Double → String
  | .nan => "NaN"
  | .infinity negative => signText negative ++ "inf"
  | .finite negative rank => signText negative ++ plainMagnitude (shortest .up rank.val)

/-- The wire text of a number; there is none for a number that is not finite. -/
def wire? : Double → Option String
  | .finite negative rank => some (signText negative ++ wireMagnitude (shortest .even rank.val))
  | _ => none

end Reql.Double
