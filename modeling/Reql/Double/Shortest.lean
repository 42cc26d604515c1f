/-
# `Reql.Double.Shortest` — the fewest digits that read back

A double is written with as few digits as still read back to it, and of
those with the digits nearest to its value.

The exact decimal expansion is finite: the magnitude of rank `i` is
`expansion i` times 10^-1074.  Dropping `t` places leaves two candidates,
the neighbours of the magnitude among the multiples of 10^(t - 1074).  The
search tries the largest `t` first and stops at the first one where a
candidate rounds to the same rank, so nothing shorter reads back.  When both
candidates read back and are equally near, a `Tie` decides.
-/
import Reql.Double.Rounding

namespace Reql.Double

/-- The number `digits · 10^exponent`. -/
structure Decimal where
  digits : Nat
  exponent : Int
  deriving DecidableEq, Repr

/-- The magnitude of rank `i` in units of 10^-1074. -/
def expansion (i : Nat) : Nat := units i * Nat.pow 5 1074

/-- Whether `c · 10^places` units of 10^-1074 round to rank `i`. -/
def readsBack (i c places : Nat) : Bool :=
  binary64.nearest (c * Nat.pow 10 places) (Nat.pow 10 1074) == i

/-- Which of two equally near candidates is written. -/
inductive Tie where
  /-- The larger one. -/
  | up
  /-- The one whose last digit is even. -/
  | even
  deriving DecidableEq, Repr

/-- Whether the lower candidate `low` wins over `low + 1`, when the magnitude
is `excess` above `low` on a grid of width `grid`. -/
def Tie.prefersLow (tie : Tie) (low excess grid : Nat) : Bool :=
  2 * excess < grid || (2 * excess == grid && tie == .even && low % 2 == 0)

/-- A neighbour of the magnitude with `places` places dropped that reads back,
the preferred one if both do. -/
def candidate? (tie : Tie) (i places : Nat) : Option Nat :=
  let grid := Nat.pow 10 places
  let low := expansion i / grid
  let lowReads := readsBack i low places
  let highReads := readsBack i (low + 1) places
  if lowReads && (tie.prefersLow low (expansion i % grid) grid || !highReads) then some low
  else if highReads then some (low + 1)
  else none

/-- Drops as many places as still read back, at most `places`. -/
def dropPlaces (tie : Tie) (i : Nat) : Nat → Decimal
  | 0 => ⟨expansion i, -1074⟩
  | places + 1 =>
    ((candidate? tie i (places + 1)).map fun c => ⟨c, (places + 1 : Nat) - 1074⟩).getD
      (dropPlaces tie i places)

/-- The shortest decimal that reads back to rank `i`.  No more places are
worth dropping than the expansion has: log10 2 is below 1234/4096. -/
def shortest (tie : Tie) (i : Nat) : Decimal :=
  if i = 0 then ⟨0, 0⟩
  else dropPlaces tie i ((Nat.log2 (expansion i) + 1) * 1234 / 4096 + 1)

end Reql.Double
