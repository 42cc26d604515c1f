/-
# `Reql.Double.Rounding` — the double nearest to a fraction

One rounding serves every way a number enters a query: written in
decimal, converted from an integer, widened from a 32-bit float, or
divided.  Ties go to the even rank, which is the even significand, because
each block of ranks starts at an even one.
-/
import Reql.Double.Basic

namespace Reql.Double

/-- The rank whose magnitude is nearest to `num / den`, ties to even.  It is
`f.ranks` or more when the fraction is too large for the format. -/
def Format.nearest (f : Format) (num den : Nat) : Nat :=
  let scaled := num * Nat.pow 2 f.scale
  -- the step of the block that the fraction falls into is 2^doublings units
  let doublings := Nat.log2 (scaled / den) - f.fraction
  let step := den * Nat.pow 2 doublings
  let below := scaled / step
  let excess := scaled % step
  let rounded :=
    if 2 * excess < step then below
    else if step < 2 * excess then below + 1
    else below + below % 2
  doublings * Nat.pow 2 f.fraction + rounded

/-- The double of a given rank; past the last finite rank it is infinite. -/
def ofRank (negative : Bool) (rank : Nat) : Double :=
  if h : rank < magnitudes then .finite negative ⟨rank, h⟩ else .infinity negative

/-- The double nearest to `± num / den`. -/
def ofRatio (negative : Bool) (num den : Nat) : Double :=
  ofRank negative (binary64.nearest num den)

/-- The double nearest to a natural number. -/
def ofNat (n : Nat) : Double := ofRatio false n 1

/-- The double nearest to an integer. -/
def ofInt (n : Int) : Double := ofRatio (n < 0) n.natAbs 1

/-- The quotient by a positive natural number, rounded once. -/
def divideBy (d : Nat) : Double → Double
  | .finite negative rank => ofRatio negative (units rank.val) (Nat.pow 2 1074 * d)
  | x => x

/-! ## Decimal fractions -/

/-- The fraction nearest to `± significand · 10^exponent` as a double, first
rounded to the format `f` and then widened.

As 10^k ≥ 2^(3k), an exponent of 342 or more overflows every format here
and one far enough below the significand's length underflows, so neither
needs the power itself. -/
def Format.ofDecimal (f : Format) (negative : Bool) (significand : Nat) (exponent : Int) : Double :=
  if significand = 0 then zero negative
  else if 342 ≤ exponent then .infinity negative
  else if Nat.log2 significand + 1 + 1075 < 3 * (-exponent).toNat then zero negative
  else
    let rank := f.nearest (significand * Nat.pow 10 exponent.toNat) (Nat.pow 10 (-exponent).toNat)
    if rank < f.ranks then ofRatio negative (f.units rank) (Nat.pow 2 f.scale)
    else .infinity negative

end Reql.Double
