/-
# `Reql.Proofs.Double.Naturals` — small natural numbers are doubles

A natural number that fits the significand is rounded to a rank of exactly its
magnitude (`Format.units_nearest`), so two such numbers never become one double.
-/
import Reql.Proofs.Double.Rounding

namespace Reql.Double

variable (f : Format) {n : Nat}

/-- The block of a number and its place in it. -/
theorem Format.nearest_natural (hscale : f.fraction ≤ f.scale) (hn : n ≠ 0)
    (hfit : n < 2 ^ (f.fraction + 1)) :
    f.nearest n 1 = (n.log2 + f.scale - f.fraction) * 2 ^ f.fraction
      + n * 2 ^ (f.fraction - n.log2) := by
  have hlog : n.log2 ≤ f.fraction := Nat.le_of_lt_succ ((Nat.log2_lt hn).mpr hfit)
  have hpos : 0 < 2 ^ f.scale := Nat.two_pow_pos _
  have hscaled : (n * 2 ^ f.scale).log2 = n.log2 + f.scale := by
    rw [Nat.log2_eq_iff (Nat.mul_ne_zero hn hpos.ne')]
    constructor
    · rw [Nat.pow_add]
      exact Nat.mul_le_mul_right _ (Nat.log2_self_le hn)
    · rw [Nat.add_right_comm, Nat.pow_add]
      exact Nat.mul_lt_mul_of_pos_right Nat.lt_log2_self hpos
  have hsplit : 2 ^ f.scale = 2 ^ (f.fraction - n.log2) * 2 ^ (n.log2 + f.scale - f.fraction) := by
    rw [← Nat.pow_add]
    congr 1
    omega
  -- nothing is left over, so nothing is rounded
  have hstep : 0 < 2 ^ (n.log2 + f.scale - f.fraction) := Nat.two_pow_pos _
  have hbelow : n * 2 ^ f.scale / 2 ^ (n.log2 + f.scale - f.fraction) =
      n * 2 ^ (f.fraction - n.log2) := by
    rw [hsplit, ← Nat.mul_assoc, Nat.mul_div_cancel _ hstep]
  have hexcess : n * 2 ^ f.scale % 2 ^ (n.log2 + f.scale - f.fraction) = 0 := by
    rw [hsplit, ← Nat.mul_assoc, Nat.mul_mod_left]
  simp only [Format.nearest, Nat.pow_eq, Nat.div_one, Nat.one_mul, hscaled, hbelow, hexcess,
    Nat.mul_zero, hstep, if_true]

/-- The place of a number in its block. -/
theorem significand_bounds {fraction : Nat} (hn : n ≠ 0) (hfit : n < 2 ^ (fraction + 1)) :
    2 ^ fraction ≤ n * 2 ^ (fraction - n.log2) ∧
      n * 2 ^ (fraction - n.log2) < 2 ^ (fraction + 1) := by
  have hlog : n.log2 ≤ fraction := Nat.le_of_lt_succ ((Nat.log2_lt hn).mpr hfit)
  have hsplit : 2 ^ fraction = 2 ^ n.log2 * 2 ^ (fraction - n.log2) := by
    rw [← Nat.pow_add]
    congr 1
    omega
  constructor
  · rw [hsplit]
    exact Nat.mul_le_mul_right _ (Nat.log2_self_le hn)
  · rw [Nat.pow_succ, hsplit, Nat.mul_right_comm, ← Nat.pow_succ]
    exact Nat.mul_lt_mul_of_pos_right Nat.lt_log2_self (Nat.two_pow_pos _)

/-- A number that fits the significand keeps its magnitude. -/
theorem Format.units_nearest (hscale : f.fraction ≤ f.scale) (hfit : n < 2 ^ (f.fraction + 1)) :
    f.units (f.nearest n 1) = n * 2 ^ f.scale := by
  rcases Nat.eq_zero_or_pos n with rfl | hn
  · simp [f.nearest_zero Nat.one_pos, Format.units]
  · obtain ⟨hlow, hhigh⟩ := significand_bounds hn.ne' hfit
    have hlog : n.log2 ≤ f.fraction := Nat.le_of_lt_succ ((Nat.log2_lt hn.ne').mpr hfit)
    have hblock : f.nearest n 1 / 2 ^ f.fraction - 1 = n.log2 + f.scale - f.fraction := by
      rw [f.nearest_natural hscale hn.ne' hfit, Nat.add_comm, Nat.add_mul_div_right _ _
        (Nat.two_pow_pos _)]
      have hone : n * 2 ^ (f.fraction - n.log2) / 2 ^ f.fraction = 1 := by
        apply Nat.div_eq_of_lt_le
        · rwa [Nat.one_mul]
        · rwa [Nat.succ_mul, Nat.one_mul, ← Nat.two_mul, ← Nat.pow_succ']
      omega
    simp only [Format.units, Nat.pow_eq, hblock]
    rw [f.nearest_natural hscale hn.ne' hfit, Nat.add_sub_cancel_left, Nat.mul_assoc, ← Nat.pow_add]
    congr 2
    omega

/-- A fraction is rounded to a rank in its block, or to the first one after it. -/
theorem Format.nearest_le (num den : Nat) :
    f.nearest num den ≤ ((num * 2 ^ f.scale / den).log2 - f.fraction) * 2 ^ f.fraction
      + 2 ^ (f.fraction + 1) := by
  generalize hdoublings : (num * 2 ^ f.scale / den).log2 - f.fraction = doublings
  have hbelow : num * 2 ^ f.scale / (den * 2 ^ doublings) < 2 ^ (f.fraction + 1) := by
    rw [← Nat.div_div_eq_div_mul, ← hdoublings]
    exact (significand_quotient f.fraction _).1
  simp only [Format.nearest, Nat.pow_eq, hdoublings]
  refine Nat.add_le_add_left ?_ _
  split
  · exact Nat.le_of_lt hbelow
  · split
    · exact hbelow
    · omega

/-- Natural numbers have a finite double, up to far beyond any count. -/
theorem nearest_lt_magnitudes {bits : Nat} (hbits : bits ≤ 1023) (h : n < 2 ^ bits) :
    binary64.nearest n 1 < magnitudes := by
  have hlog : (n * 2 ^ binary64.scale / 1).log2 < 1023 + binary64.scale := by
    rw [Nat.div_one]
    rcases Nat.eq_zero_or_pos n with rfl | hn
    · rw [Nat.zero_mul]
      decide
    · have hpos : n * 2 ^ binary64.scale ≠ 0 := Nat.mul_ne_zero hn.ne' (Nat.two_pow_pos _).ne'
      have hlt : (n * 2 ^ binary64.scale).log2 < bits + binary64.scale := by
        rw [Nat.log2_lt hpos, Nat.pow_add]
        exact Nat.mul_lt_mul_of_pos_right h (Nat.two_pow_pos _)
      omega
  have hblocks : (n * 2 ^ binary64.scale / 1).log2 - binary64.fraction ≤ 2044 := by
    change _ - 52 ≤ _
    change _ < 1023 + 1074 at hlog
    omega
  calc binary64.nearest n 1 ≤ _ := binary64.nearest_le n 1
    _ ≤ 2044 * 2 ^ binary64.fraction + 2 ^ (binary64.fraction + 1) :=
      Nat.add_le_add_right (Nat.mul_le_mul_right _ hblocks) _
    _ < magnitudes := by decide

theorem isFinite_ofNat {bits : Nat} (hbits : bits ≤ 1023) (h : n < 2 ^ bits) :
    (ofNat n).isFinite = true := by
  rw [ofNat, ofRatio, ofRank, dif_pos (nearest_lt_magnitudes hbits h)]
  rfl

/-- Natural numbers that fit the significand stay apart as doubles. -/
theorem ofNat_injective {m : Nat} (hm : m < 2 ^ 53) (hn : n < 2 ^ 53)
    (h : ofNat m = ofNat n) : m = n := by
  have hbits : 53 ≤ 1023 := by decide
  rw [ofNat, ofNat, ofRatio, ofRatio, ofRank, ofRank,
    dif_pos (nearest_lt_magnitudes hbits hm),
    dif_pos (nearest_lt_magnitudes hbits hn)] at h
  have hrank : binary64.nearest m 1 = binary64.nearest n 1 :=
    congrArg Fin.val (Double.finite.inj h).2
  have hunits := congrArg binary64.units hrank
  rw [binary64.units_nearest (by decide) hm, binary64.units_nearest (by decide) hn] at hunits
  exact Nat.eq_of_mul_eq_mul_right (Nat.two_pow_pos _) hunits

end Reql.Double
