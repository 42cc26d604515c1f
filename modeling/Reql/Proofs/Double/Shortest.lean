/-
# `Reql.Proofs.Double.Shortest` — the shortest decimal reads back

Whatever digits the search settles on, they round to the rank it was asked for
(`rank_shortest`), so no two ranks are written with the same digits and exponent.  The search
may drop places as it likes: it stops at candidates that read back, and with no place dropped
the expansion is the magnitude itself.
-/
import Reql.Double.Shortest
import Reql.Proofs.Double.Rounding

namespace Reql.Double

/-! ## Decimals as fractions -/

/-- The rank that a decimal rounds to. -/
def Decimal.rank (d : Decimal) : Nat :=
  binary64.nearest (d.digits * 10 ^ d.exponent.toNat) (10 ^ (-d.exponent).toNat)

theorem Decimal.ofRank_rank (d : Decimal) (negative : Bool) :
    ofRank negative d.rank = binary64.ofDecimal negative d.digits d.exponent :=
  (ofDecimal_eq_ofRatio negative d.digits d.exponent).symm

/-- Only the difference of the two powers of ten counts. -/
theorem nearest_ten_pow {c a b a' b' : Nat} (h : a + b' = a' + b) :
    binary64.nearest (c * 10 ^ a) (10 ^ b) = binary64.nearest (c * 10 ^ a') (10 ^ b') := by
  have hpos (k : Nat) : 0 < 10 ^ k := Nat.pow_pos (by decide)
  rw [← binary64.nearest_mul _ _ (hpos b'), ← binary64.nearest_mul (c * 10 ^ a') _ (hpos b)]
  simp only [Nat.mul_assoc, ← Nat.pow_add, h, Nat.add_comm b']

theorem Decimal.rank_eq_nearest {d : Decimal} {a b : Nat} (h : d.exponent = a - b) :
    d.rank = binary64.nearest (d.digits * 10 ^ a) (10 ^ b) := by
  rw [Decimal.rank]
  exact nearest_ten_pow (by omega)

/-- Zeros behind the digits are as good as an exponent. -/
theorem Decimal.rank_mul_ten_pow (c k : Nat) (exponent : Int) :
    Decimal.rank ⟨c * 10 ^ k, exponent⟩ = Decimal.rank ⟨c, exponent + k⟩ := by
  rw [Decimal.rank, Nat.mul_assoc, ← Nat.pow_add, Decimal.rank]
  refine nearest_ten_pow ?_
  simp only
  omega

/-! ## The search -/

theorem readsBack_iff {i c places : Nat} : readsBack i c places = true ↔
    binary64.nearest (c * 10 ^ places) (10 ^ binary64.scale) = i := by
  rw [readsBack, ← scale_binary64, Nat.pow_eq, Nat.pow_eq, beq_iff_eq]

theorem readsBack_of_candidate? {tie : Tie} {i places c : Nat}
    (h : candidate? tie i places = some c) : readsBack i c places = true := by
  simp only [candidate?] at h
  split at h
  next hlow =>
    obtain rfl := Option.some.inj h
    rw [Bool.and_eq_true] at hlow
    exact hlow.1
  next =>
    split at h
    next hhigh =>
      obtain rfl := Option.some.inj h
      exact hhigh
    next => exact nomatch h

theorem ten_pow_eq (k : Nat) : 10 ^ k = 2 ^ k * 5 ^ k := Nat.mul_pow 2 5 k

/-- The expansion is the magnitude. -/
theorem nearest_expansion (i : Nat) : binary64.nearest (expansion i) (10 ^ binary64.scale) = i := by
  rw [expansion, ← scale_binary64, Nat.pow_eq, ten_pow_eq,
    binary64.nearest_mul _ _ (Nat.pow_pos (by decide))]
  exact binary64.nearest_units i

theorem rank_dropPlaces (tie : Tie) (i places : Nat) : (dropPlaces tie i places).rank = i := by
  induction places with
  | zero =>
      rw [dropPlaces, Decimal.rank_eq_nearest (a := 0) (b := binary64.scale) rfl, Nat.pow_zero,
        Nat.mul_one]
      exact nearest_expansion i
  | succ places ih =>
      rw [dropPlaces]
      cases hcandidate : candidate? tie i (places + 1) with
      | none => exact ih
      | some c =>
          rw [Option.map_some, Option.getD_some,
            Decimal.rank_eq_nearest (a := places + 1) (b := binary64.scale) rfl]
          exact readsBack_iff.mp (readsBack_of_candidate? hcandidate)

/-- The shortest decimal reads back. -/
theorem rank_shortest (tie : Tie) (i : Nat) : (shortest tie i).rank = i := by
  rw [shortest]
  split
  next hzero =>
    rw [hzero, Decimal.rank, Nat.zero_mul]
    exact binary64.nearest_zero Nat.one_pos
  next => exact rank_dropPlaces tie i _

end Reql.Double
