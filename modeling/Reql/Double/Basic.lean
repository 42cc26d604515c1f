/-
# `Reql.Double.Basic` — the numbers of a query, exactly

Every number a query carries is an IEEE 754 double.  A finite double is a
sign and a *rank*: the place of its magnitude among all finite magnitudes
in increasing order.

    rank 0                zero
    rank 1                2^-1074, the least positive magnitude
    rank 2047 · 2^52 - 1  the greatest finite magnitude

The magnitude of rank `i` is `units i` times 2^-1074, so whether two
doubles are near each other, or a number is whole, is a question about
natural numbers.  Equality `=` keeps the sign of zero and has one NaN;
the comparison of IEEE arithmetic is `Double.equals`.
-/

namespace Reql

/-- How many finite magnitudes there are: 2047 blocks of 2^52 each. -/
def Double.magnitudes : Nat := 2047 * Nat.pow 2 52

/-- An IEEE 754 double, with a single NaN. -/
inductive Double where
  | nan
  | infinity (negative : Bool)
  | finite (negative : Bool) (rank : Fin Double.magnitudes)
  deriving DecidableEq, Repr

namespace Double

/-- One of the two zeros. -/
def zero (negative : Bool) : Double := .finite negative ⟨0, by decide⟩

instance : Inhabited Double := ⟨zero false⟩

/-! ## Binary formats -/

/-- A binary floating-point format: how many bits the fraction has, the
least positive magnitude 2^-`scale`, and how many finite magnitudes there are. -/
structure Format where
  fraction : Nat
  scale : Nat
  ranks : Nat

/-- The format of a double. -/
def binary64 : Format := ⟨52, 1074, magnitudes⟩

/-- The format with a 23-bit fraction. -/
def binary32 : Format := ⟨23, 149, 255 * Nat.pow 2 23⟩

/-- The magnitude of rank `i`, counted in the format's least positive
magnitude.  Ranks below 2^`fraction` (the subnormal ones) count one each, and
the step doubles with each following block of 2^`fraction` ranks. -/
def Format.units (f : Format) (i : Nat) : Nat :=
  let doublings := i / Nat.pow 2 f.fraction - 1
  (i - doublings * Nat.pow 2 f.fraction) * Nat.pow 2 doublings

/-- The magnitude of rank `i` in units of 2^-1074. -/
def units (i : Nat) : Nat := binary64.units i

/-! ## Tests -/

def isFinite : Double → Bool
  | .finite _ _ => true
  | _ => false

/-- A finite number without a fractional part. -/
def isInteger : Double → Bool
  | .finite _ rank => units rank.val % Nat.pow 2 1074 == 0
  | _ => false

/-- The comparison of IEEE arithmetic: a NaN equals nothing, and the two
zeros equal each other. -/
def equals : Double → Double → Bool
  | .nan, _ => false
  | _, .nan => false
  | .finite n i, .finite m j => i == j && (n == m || i.val == 0)
  | .infinity n, .infinity m => n == m
  | _, _ => false

end Double

end Reql
