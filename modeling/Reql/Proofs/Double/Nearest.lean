/-
# `Reql.Proofs.Double.Nearest` — rounding goes to the nearest double

Magnitudes grow with their ranks.  A fraction that is rounded lies between the magnitudes of two
neighbouring ranks (`Format.exists_neighbours`), so no rank is nearer than the nearer of these two
(`Format.nearest_least`).  The sign of an integer does not matter, because a double of the other
sign is farther away than zero is (`isNearest_ofInt`).
-/
import Mathlib.Order.Monotone.Basic
import Reql.Proofs.Double.Rounding

namespace Reql.Double

variable (f : Format)

/-! ## Magnitudes grow -/

/-- The magnitude of a rank by its block, of which the first rank of the next block is the last. -/
theorem Format.units_block {d m : Nat} (hlead : d = 0 ∨ 2 ^ f.fraction ≤ m)
    (hfit : m ≤ 2 ^ (f.fraction + 1)) : f.units (d * 2 ^ f.fraction + m) = m * 2 ^ d := by
  have hpos : 0 < 2 ^ f.fraction := Nat.two_pow_pos _
  have hquotient : (d * 2 ^ f.fraction + m) / 2 ^ f.fraction = d + m / 2 ^ f.fraction := by
    rw [Nat.add_comm, Nat.add_mul_div_right _ _ hpos, Nat.add_comm]
  rw [Nat.pow_succ'] at hfit
  simp only [Format.units, Nat.pow_eq, hquotient]
  rcases Nat.lt_or_ge m (2 ^ f.fraction) with hsmall | hlarge
  · obtain rfl := hlead.resolve_right (Nat.not_le.mpr hsmall)
    simp [Nat.div_eq_of_lt hsmall]
  · rcases Nat.lt_or_eq_of_le hfit with hinner | rfl
    · have hone : m / 2 ^ f.fraction = 1 := by
        rw [Nat.div_eq_iff hpos]
        omega
      rw [hone, Nat.add_sub_cancel, Nat.add_sub_cancel_left]
    · have hlast : d * 2 ^ f.fraction + 2 * 2 ^ f.fraction - (d + 1) * 2 ^ f.fraction =
          2 ^ f.fraction := by
        rw [Nat.add_mul, Nat.one_mul]
        omega
      rw [Nat.mul_div_cancel _ hpos, Nat.add_succ_sub_one, hlast, Nat.pow_succ', ← Nat.mul_assoc,
        Nat.mul_comm _ 2]

theorem Format.units_strictMono : StrictMono f.units := by
  refine strictMono_nat_of_lt_succ ?_
  intro i
  obtain ⟨d, m, hi, hunits, hfit, hlead⟩ := f.exists_block i
  have hnext : d = 0 ∨ 2 ^ f.fraction ≤ m + 1 := hlead.imp_right Nat.le_succ_of_le
  rw [hunits, hi, Nat.add_assoc, f.units_block hnext hfit]
  exact Nat.mul_lt_mul_of_pos_right (Nat.lt_succ_self m) (Nat.two_pow_pos d)

/-! ## Neighbours -/

/-- A fraction is a rank's magnitude and less than the step to the next one, and it is rounded to
one of the two. -/
theorem Format.exists_neighbours (hfraction : 0 < f.fraction) (num : Nat) {den : Nat}
    (hden : 0 < den) : ∃ i excess step, num * 2 ^ f.scale = f.units i * den + excess ∧
      excess < step ∧ f.units (i + 1) * den = f.units i * den + step ∧
      f.nearest num den =
        if 2 * excess < step then i else if step < 2 * excess then i + 1 else i + i % 2 := by
  generalize hd : (num * 2 ^ f.scale / den).log2 - f.fraction = d
  generalize hm : num * 2 ^ f.scale / (den * 2 ^ d) = m
  obtain ⟨hfit, hlead⟩ : m < 2 ^ (f.fraction + 1) ∧ (d = 0 ∨ 2 ^ f.fraction ≤ m) := by
    rw [← hm, ← hd, ← Nat.div_div_eq_div_mul]
    exact significand_quotient _ _
  have hstep : 0 < den * 2 ^ d := Nat.mul_pos hden (Nat.two_pow_pos d)
  have hnext : d = 0 ∨ 2 ^ f.fraction ≤ m + 1 := hlead.imp_right Nat.le_succ_of_le
  have hlow : f.units (d * 2 ^ f.fraction + m) * den = m * (den * 2 ^ d) := by
    rw [f.units_block hlead (Nat.le_of_lt hfit)]
    ac_rfl
  have hhigh : f.units (d * 2 ^ f.fraction + m + 1) * den = (m + 1) * (den * 2 ^ d) := by
    rw [Nat.add_assoc, f.units_block hnext hfit]
    ac_rfl
  have hparity : (d * 2 ^ f.fraction + m) % 2 = m % 2 := by
    obtain ⟨k, hk⟩ := Nat.exists_eq_succ_of_ne_zero hfraction.ne'
    rw [hk, Nat.pow_succ, ← Nat.mul_assoc, Nat.add_comm, Nat.add_mul_mod_self_right]
  refine ⟨d * 2 ^ f.fraction + m, num * 2 ^ f.scale % (den * 2 ^ d), den * 2 ^ d, ?_, ?_, ?_, ?_⟩
  · rw [hlow, ← hm, Nat.div_add_mod']
  · exact Nat.mod_lt _ hstep
  · rw [hhigh, hlow, Nat.succ_mul]
  · simp only [Format.nearest, Nat.pow_eq, hd, hm, hparity]
    split
    · rfl
    · split
      · rw [Nat.add_assoc]
      · rw [Nat.add_assoc]

/-- How far a magnitude is from a fraction. -/
def Format.distance (num den i : Nat) : Nat :=
  ((f.units i * den : Nat) - (num * 2 ^ f.scale : Nat) : Int).natAbs

/-- No rank is nearer than the one that is rounded to, and if another is equally near, the one that
is rounded to is even. -/
theorem Format.nearest_least (hfraction : 0 < f.fraction) (num : Nat) {den : Nat} (hden : 0 < den)
    (j : Nat) : f.distance num den (f.nearest num den) ≤ f.distance num den j ∧
      (f.distance num den j = f.distance num den (f.nearest num den) →
        j = f.nearest num den ∨ f.nearest num den % 2 = 0) := by
  obtain ⟨i, excess, step, hnum, hexcess, hnext, hnearest⟩ :=
    f.exists_neighbours hfraction num hden
  have hmono : StrictMono fun i => f.units i * den :=
    fun a b hab => Nat.mul_lt_mul_of_pos_right (f.units_strictMono hab) hden
  -- a rank is one of the neighbours or beyond one of them
  have hplace : (j < i ∧ f.units j * den < f.units i * den) ∨
      (j = i ∧ f.units j * den = f.units i * den) ∨
      (j = i + 1 ∧ f.units j * den = f.units i * den + step) ∨
      f.units i * den + step < f.units j * den := by
    rcases Nat.lt_trichotomy j i with hlt | rfl | hgt
    · exact .inl ⟨hlt, hmono hlt⟩
    · exact .inr (.inl ⟨rfl, rfl⟩)
    · rcases Nat.lt_or_eq_of_le hgt with hgt | rfl
      · exact .inr (.inr (.inr (hnext ▸ hmono hgt)))
      · exact .inr (.inr (.inl ⟨rfl, hnext⟩))
  unfold Format.distance
  split at hnearest
  · rw [hnearest, hnum]
    omega
  · split at hnearest
    · rw [hnearest, hnum]
      omega
    · rcases Nat.mod_two_eq_zero_or_one i with hparity | hparity
      · rw [hparity, Nat.add_zero] at hnearest
        rw [hnearest, hnum]
        omega
      · rw [hparity] at hnearest
        rw [hnearest, hnum]
        omega

/-! ## Integers -/

/-- The value of a finite double in units of 2^-1074. -/
def value : Double → Int
  | .finite negative rank => if negative then -(units rank.val : Int) else units rank.val
  | _ => 0

/-- A finite double of even rank, and so of even significand. -/
def IsEven : Double → Prop
  | .finite _ rank => rank.val % 2 = 0
  | _ => False

/-- How far a double is from an integer, in units of 2^-1074. -/
def distance (n : Int) (x : Double) : Nat := (x.value - n * (2 ^ binary64.scale : Nat)).natAbs

/-- No finite double is nearer to the integer, and if one of another value is just as near, this one
is even. -/
structure IsNearest (n : Int) (x : Double) : Prop where
  finite : x.isFinite = true
  least : ∀ y : Double, y.isFinite = true → distance n x ≤ distance n y
  even : ∀ y : Double, y.isFinite = true → distance n y = distance n x →
    y.value = x.value ∨ x.IsEven

theorem exists_finite {x : Double} (h : x.isFinite = true) :
    ∃ negative rank, x = .finite negative rank := by
  cases x with
  | finite negative rank => exact ⟨negative, rank, rfl⟩
  | nan | infinity _ => exact nomatch h

theorem mul_scale_eq (n : Int) : n * (2 ^ binary64.scale : Nat) =
    if n < 0 then -((n.natAbs * 2 ^ binary64.scale : Nat) : Int)
    else (n.natAbs * 2 ^ binary64.scale : Nat) := by
  rw [Int.natCast_mul, ← Int.neg_mul]
  split
  · next hneg => rw [Int.ofNat_natAbs_of_nonpos (Int.le_of_lt hneg), Int.neg_neg]
  · next hnonneg => rw [Int.natAbs_of_nonneg (Int.not_lt.mp hnonneg)]

/-- Among the doubles of its own sign an integer is as far away as its magnitude is. -/
theorem distance_of_sign {n : Int} (rank : Fin magnitudes) :
    distance n (.finite (n < 0) rank) = binary64.distance n.natAbs 1 rank.val := by
  simp only [distance, value, Format.distance, mul_scale_eq, Nat.mul_one, units]
  by_cases hneg : n < 0
  · simp only [hneg, decide_true, if_true]
    omega
  · simp only [hneg, decide_false, Bool.false_eq_true, if_false]

/-- A double of the other sign is farther away than zero is. -/
theorem distance_of_other_sign {n : Int} {negative : Bool} (h : negative ≠ decide (n < 0))
    (rank : Fin magnitudes) : distance n (.finite negative rank) =
      units rank.val + binary64.distance n.natAbs 1 0 := by
  have hzero : binary64.units 0 = 0 := by simp [Format.units]
  simp only [distance, value, Format.distance, mul_scale_eq, Nat.mul_one, hzero]
  by_cases hneg : n < 0
  · obtain rfl : negative = false := by simpa [hneg] using h
    simp only [hneg, Bool.false_eq_true, if_true, if_false, units]
    omega
  · obtain rfl : negative = true := by simpa [hneg] using h
    simp only [hneg, if_true, if_false, units]
    omega

/-- The double of an integer is the nearest one, if it is finite at all. -/
theorem isNearest_ofInt {n : Int} (h : (ofInt n).isFinite = true) : IsNearest n (ofInt n) := by
  obtain ⟨negative, rank, hx⟩ := exists_finite h
  obtain ⟨rfl, hrank⟩ : negative = decide (n < 0) ∧ rank.val = binary64.nearest n.natAbs 1 := by
    rw [ofInt, ofRatio, ofRank] at hx
    split at hx
    · obtain ⟨rfl, rfl⟩ := Double.finite.inj hx
      exact ⟨rfl, rfl⟩
    · cases hx
  have hleast := binary64.nearest_least (by decide) n.natAbs Nat.one_pos
  rw [← hrank] at hleast
  rw [hx]
  refine ⟨rfl, ?_, ?_⟩
  · intro y hy
    obtain ⟨negative, other, rfl⟩ := exists_finite hy
    rw [distance_of_sign]
    by_cases hsign : negative = decide (n < 0)
    · rw [hsign, distance_of_sign]
      exact (hleast other.val).1
    · rw [distance_of_other_sign hsign]
      exact Nat.le_add_left_of_le (hleast 0).1
  · intro y hy heq
    obtain ⟨negative, other, rfl⟩ := exists_finite hy
    rw [distance_of_sign] at heq
    by_cases hsign : negative = decide (n < 0)
    · rw [hsign, distance_of_sign] at heq
      rw [hsign]
      exact ((hleast other.val).2 heq).imp_left fun hsame => by rw [Fin.ext hsame]
    · rw [distance_of_other_sign hsign] at heq
      have hzero := hleast 0
      refine .inr ?_
      rcases hzero.2 (by omega) with hrankZero | heven
      · simp [IsEven, ← hrankZero]
      · exact heven

end Reql.Double
