/-
# `Reql.Proofs.Double.Rounding` — what rounding keeps

A fraction rounds alike however it is written (`Format.nearest_mul`), and a magnitude of the
format rounds to its own rank (`Format.nearest_units`).  So a decimal fraction is rounded
once, and the bounds that spare a power of ten decide as the rounding itself would
(`ofDecimal_eq_ofRatio`).
-/
import Mathlib.Algebra.Order.Ring.Nat
import Reql.Double.Rounding

namespace Reql.Double

variable (f : Format)

/-- A fraction in other terms rounds alike. -/
theorem Format.nearest_mul (num den : Nat) {k : Nat} (hk : 0 < k) :
    f.nearest (num * k) (den * k) = f.nearest num den := by
  have hscaled : num * k * 2 ^ f.scale = num * 2 ^ f.scale * k := Nat.mul_right_comm _ _ _
  have hstep (p : Nat) : den * k * p = den * p * k := Nat.mul_right_comm _ _ _
  simp only [Format.nearest, Nat.pow_eq, hscaled, hstep, Nat.mul_div_mul_right _ _ hk,
    Nat.mul_mod_mul_right, ← Nat.mul_assoc, Nat.mul_lt_mul_right hk]

/-! ## Magnitudes of the format -/

/-- The block of a magnitude: from the second block on its significand has the leading bit. -/
theorem log2_significand {fraction m d : Nat} (hfit : m < 2 ^ (fraction + 1))
    (hlead : d = 0 ∨ 2 ^ fraction ≤ m) : (m * 2 ^ d).log2 - fraction = d := by
  rcases hlead with rfl | hlead
  · rcases Nat.eq_zero_or_pos m with rfl | hm
    · simp
    · have hlog := (Nat.log2_lt hm.ne').mpr hfit
      rw [Nat.pow_zero, Nat.mul_one]
      omega
  · have hpos : 0 < 2 ^ d := Nat.two_pow_pos d
    have hm : 0 < m := Nat.lt_of_lt_of_le (Nat.two_pow_pos fraction) hlead
    have hlog : (m * 2 ^ d).log2 = fraction + d := by
      rw [Nat.log2_eq_iff (Nat.mul_pos hm hpos).ne']
      constructor
      · rw [Nat.pow_add]
        exact Nat.mul_le_mul_right _ hlead
      · rw [Nat.add_right_comm, Nat.pow_add]
        exact Nat.mul_lt_mul_of_pos_right hfit hpos
    rw [hlog, Nat.add_sub_cancel_left]

/-- What is left of a number after halving it until it fits the significand. -/
theorem significand_quotient (fraction q : Nat) :
    q / 2 ^ (q.log2 - fraction) < 2 ^ (fraction + 1) ∧
      (q.log2 - fraction = 0 ∨ 2 ^ fraction ≤ q / 2 ^ (q.log2 - fraction)) := by
  constructor
  · refine Nat.div_lt_of_lt_mul ?_
    calc q < 2 ^ (q.log2 + 1) := Nat.lt_log2_self
      _ ≤ 2 ^ (q.log2 - fraction + (fraction + 1)) := Nat.pow_le_pow_right (by decide) (by omega)
      _ = 2 ^ (q.log2 - fraction) * 2 ^ (fraction + 1) := Nat.pow_add _ _ _
  · rcases Nat.eq_zero_or_pos (q.log2 - fraction) with hzero | hpos
    · exact .inl hzero
    · have hq : q ≠ 0 := by
        rintro rfl
        simp at hpos
      refine .inr ?_
      rw [Nat.le_div_iff_mul_le (Nat.two_pow_pos _), ← Nat.pow_add, Nat.add_sub_cancel' (by omega)]
      exact Nat.log2_self_le hq

/-- A rank is a number of doublings and a significand, which has the leading bit from the second
block on. -/
theorem Format.exists_block (i : Nat) : ∃ d m, i = d * 2 ^ f.fraction + m ∧
    f.units i = m * 2 ^ d ∧ m < 2 ^ (f.fraction + 1) ∧ (d = 0 ∨ 2 ^ f.fraction ≤ m) := by
  generalize hd : i / 2 ^ f.fraction - 1 = d
  have hbelow : d * 2 ^ f.fraction ≤ i := by
    calc d * 2 ^ f.fraction ≤ i / 2 ^ f.fraction * 2 ^ f.fraction :=
          Nat.mul_le_mul_right _ (hd ▸ Nat.sub_le _ _)
      _ ≤ i := Nat.div_mul_le_self _ _
  obtain ⟨m, hm⟩ := Nat.exists_eq_add_of_le hbelow
  have hunits : f.units i = m * 2 ^ d := by
    simp only [Format.units, Nat.pow_eq, hd]
    rw [hm, Nat.add_sub_cancel_left]
  have hblock : i / 2 ^ f.fraction = m / 2 ^ f.fraction + d := by
    rw [hm, Nat.add_comm, Nat.add_mul_div_right _ _ (Nat.two_pow_pos _)]
  have hfit : m < 2 ^ (f.fraction + 1) := by
    have hquotient : m / 2 ^ f.fraction < 2 := by omega
    rwa [Nat.pow_succ', ← Nat.div_lt_iff_lt_mul (Nat.two_pow_pos _)]
  refine ⟨d, m, hm, hunits, hfit, ?_⟩
  rcases Nat.eq_zero_or_pos d with hzero | hpos
  · exact .inl hzero
  · have hquotient : 1 ≤ m / 2 ^ f.fraction := by omega
    exact .inr (by rwa [Nat.le_div_iff_mul_le (Nat.two_pow_pos _), Nat.one_mul] at hquotient)

/-- A magnitude rounds to its own rank. -/
theorem Format.nearest_units (i : Nat) : f.nearest (f.units i) (2 ^ f.scale) = i := by
  obtain ⟨d, m, hm, hunits, hfit, hlead⟩ := f.exists_block i
  -- nothing is left over, so nothing is rounded
  have hstep : 0 < 2 ^ f.scale * 2 ^ d := Nat.mul_pos (Nat.two_pow_pos _) (Nat.two_pow_pos _)
  have hscaled : m * 2 ^ d * 2 ^ f.scale = m * (2 ^ f.scale * 2 ^ d) := by
    rw [Nat.mul_assoc, Nat.mul_comm (2 ^ d)]
  have hdoublings : (m * (2 ^ f.scale * 2 ^ d) / 2 ^ f.scale).log2 - f.fraction = d := by
    rw [← hscaled, Nat.mul_div_cancel _ (Nat.two_pow_pos _), log2_significand hfit hlead]
  simp only [Format.nearest, Nat.pow_eq, hunits, hscaled, hdoublings, Nat.mul_div_cancel _ hstep,
    Nat.mul_mod_left, Nat.mul_zero, hstep, if_true]
  exact hm.symm

theorem scale_binary64 : binary64.scale = 1074 := rfl

/-! ## Fractions out of range -/

/-- Less than half of the least positive magnitude is zero. -/
theorem Format.nearest_eq_zero {num den : Nat} (h : 2 * (num * 2 ^ f.scale) < den) :
    f.nearest num den = 0 := by
  have hlt : num * 2 ^ f.scale < den := by omega
  simp only [Format.nearest, Nat.pow_eq, Nat.div_eq_of_lt hlt, Nat.mod_eq_of_lt hlt, h, if_true,
    Nat.log2_zero, Nat.zero_sub, Nat.pow_zero, Nat.mul_one, Nat.zero_mul, Nat.zero_add]

theorem Format.nearest_zero {den : Nat} (hden : 0 < den) : f.nearest 0 den = 0 :=
  f.nearest_eq_zero (by rwa [Nat.zero_mul])

/-- The rank of a whole number is in the block of its length, or a later one. -/
theorem Format.le_nearest {num bits : Nat} (h : 2 ^ bits ≤ num) :
    (bits + f.scale - f.fraction) * 2 ^ f.fraction ≤ f.nearest num 1 := by
  have hnum : num * 2 ^ f.scale ≠ 0 :=
    (Nat.mul_pos (Nat.lt_of_lt_of_le (Nat.two_pow_pos bits) h) (Nat.two_pow_pos _)).ne'
  have hlog : bits + f.scale ≤ (num * 2 ^ f.scale).log2 := by
    rw [Nat.le_log2 hnum, Nat.pow_add]
    exact Nat.mul_le_mul_right _ h
  simp only [Format.nearest, Nat.pow_eq, Nat.div_one]
  refine Nat.le_trans (Nat.mul_le_mul_right _ ?_) (Nat.le_add_right _ _)
  omega

theorem ofRank_of_le {rank : Nat} (negative : Bool) (h : magnitudes ≤ rank) :
    ofRank negative rank = .infinity negative := by
  rw [ofRank, dif_neg (Nat.not_lt.mpr h)]

@[simp] theorem ofRank_zero (negative : Bool) : ofRank negative 0 = zero negative := by
  rw [ofRank, dif_pos]
  rfl

@[simp] theorem ofRank_val (negative : Bool) (rank : Fin magnitudes) :
    ofRank negative rank.val = .finite negative rank := by
  rw [ofRank, dif_pos rank.isLt]

theorem two_pow_le_ten_pow (k : Nat) : 2 ^ (3 * k) ≤ 10 ^ k := by
  rw [Nat.pow_mul]
  exact Nat.pow_le_pow_left (by decide) k

/-- From the exponent 342 on every number but zero is out of range. -/
theorem magnitudes_le_nearest {significand k : Nat} (hsignificand : significand ≠ 0)
    (hk : 342 ≤ k) : magnitudes ≤ binary64.nearest (significand * 10 ^ k) 1 := by
  have hpow : 2 ^ (3 * k) ≤ significand * 10 ^ k := by
    calc 2 ^ (3 * k) ≤ 10 ^ k := two_pow_le_ten_pow k
      _ ≤ significand * 10 ^ k := Nat.le_mul_of_pos_left _ (Nat.pos_of_ne_zero hsignificand)
  have hblock : 2047 ≤ 3 * k + 1074 - 52 := by omega
  exact Nat.le_trans (Nat.mul_le_mul_right _ hblock) (binary64.le_nearest hpow)

/-- A number that has enough places after its digits is nearer to zero than to any other. -/
theorem nearest_eq_zero_of_log2 {significand k : Nat}
    (h : significand.log2 + 1 + 1075 < 3 * k) : binary64.nearest significand (10 ^ k) = 0 := by
  refine binary64.nearest_eq_zero ?_
  calc 2 * (significand * 2 ^ binary64.scale) = significand * 2 ^ (binary64.scale + 1) := by
        rw [Nat.pow_succ, Nat.mul_comm 2, Nat.mul_assoc]
    _ < 2 ^ (significand.log2 + 1) * 2 ^ (binary64.scale + 1) :=
        Nat.mul_lt_mul_of_pos_right Nat.lt_log2_self (Nat.two_pow_pos _)
    _ = 2 ^ (significand.log2 + 1 + (binary64.scale + 1)) := (Nat.pow_add _ _ _).symm
    _ ≤ 2 ^ (3 * k) := Nat.pow_le_pow_right (by decide) (Nat.le_of_lt h)
    _ ≤ 10 ^ k := two_pow_le_ten_pow k

/-! ## Decimal fractions -/

/-- A decimal fraction is rounded once. -/
theorem ofDecimal_eq_ofRatio (negative : Bool) (significand : Nat) (exponent : Int) :
    binary64.ofDecimal negative significand exponent =
      ofRatio negative (significand * 10 ^ exponent.toNat) (10 ^ (-exponent).toNat) := by
  unfold Format.ofDecimal
  rw [ofRatio]
  split
  next hzero =>
    rw [hzero, Nat.zero_mul, binary64.nearest_zero (Nat.pow_pos (by decide)), ofRank_zero]
  next hsignificand =>
    split
    next hlarge =>
      have hnegative : (-exponent).toNat = 0 := by omega
      rw [hnegative, Nat.pow_zero, ofRank_of_le]
      exact magnitudes_le_nearest hsignificand (by omega)
    next =>
      split
      next hsmall =>
        have hpositive : exponent.toNat = 0 := by omega
        rw [hpositive, Nat.pow_zero, Nat.mul_one, nearest_eq_zero_of_log2 hsmall, ofRank_zero]
      next =>
        simp only [Nat.pow_eq]
        split
        next => rw [ofRatio, binary64.nearest_units]
        next hrank => rw [ofRank_of_le negative (Nat.le_of_not_lt hrank)]

end Reql.Double
