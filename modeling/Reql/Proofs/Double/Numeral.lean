/-
# `Reql.Proofs.Double.Numeral` — what numerals can mean

A numeral that begins with a digit or a point is a decimal one, and a decimal numeral
always means a number.  Runs of digits are read as the numbers that they write.
-/
import Mathlib.Algebra.Order.Ring.Nat
import Mathlib.Data.List.TakeDrop
import Reql.Double.Numeral

namespace Reql.Double

theorem Format.ofDecimal_ne_nan (f : Format) (negative : Bool) (significand : Nat)
    (exponent : Int) : f.ofDecimal negative significand exponent ≠ .nan := by
  unfold Format.ofDecimal ofRatio ofRank zero
  intro h
  split at h
  · cases h
  split at h
  · cases h
  split at h
  · cases h
  simp only at h
  split at h
  · split at h <;> cases h
  · cases h

/-- A run of characters of one kind ends at the first other character. -/
theorem span_append {p : Char → Bool} {run rest : List Char} (hrun : ∀ c ∈ run, p c = true)
    (hrest : ∀ c ∈ rest.head?, p c = false) : (run ++ rest).span p = (run, rest) := by
  rw [List.span_eq_takeWhile_dropWhile, List.takeWhile_append_of_pos hrun,
    List.dropWhile_append_of_pos hrun]
  cases rest with
  | nil => rw [List.takeWhile_nil, List.dropWhile_nil, List.append_nil]
  | cons c rest =>
      have hc : ¬ p c = true := by simp [hrest c rfl]
      rw [List.takeWhile_cons_of_neg hc, List.dropWhile_cons_of_neg hc, List.append_nil]

namespace Numeral

/-! ## Runs of digits -/

theorem natOfDigits_eq_ofDigitChars (digits : List Char) :
    natOfDigits digits = Nat.ofDigitChars 10 digits 0 := rfl

@[simp] theorem natOfDigits_toDigits (n : Nat) : natOfDigits (Nat.toDigits 10 n) = n :=
  Nat.ofDigitChars_ten_toDigits

/-- Zeros in front do not count. -/
theorem natOfDigits_zeros_append (k : Nat) (digits : List Char) :
    natOfDigits (List.replicate k '0' ++ digits) = natOfDigits digits := by
  rw [natOfDigits_eq_ofDigitChars, Nat.ofDigitChars_append, Nat.ofDigitChars_replicate_zero,
    Nat.mul_zero]
  rfl

/-- Each zero at the end multiplies by ten. -/
theorem natOfDigits_append_zeros (digits : List Char) (k : Nat) :
    natOfDigits (digits ++ List.replicate k '0') = natOfDigits digits * 10 ^ k := by
  rw [natOfDigits_eq_ofDigitChars, Nat.ofDigitChars_append, Nat.ofDigitChars_replicate_zero,
    Nat.mul_comm]
  rfl

/-! ## Numerals -/

theorem toLower_of_isDigit {c : Char} (h : c.isDigit = true) : c.toLower = c := by
  have hnine : c.val.toNat ≤ 57 := by
    simp only [Char.isDigit, Bool.and_eq_true, decide_eq_true_eq] at h
    exact UInt32.le_iff_toNat_le.mp h.2
  have hupper : ¬ ('A'.val ≤ c.val ∧ c.val ≤ 'Z'.val) := by
    rintro ⟨hletter, -⟩
    have hletter : 65 ≤ c.val.toNat := UInt32.le_iff_toNat_le.mp hletter
    omega
  exact dif_neg hupper

/-- A numeral that begins with a digit or a point is a decimal one. -/
theorem readUnsigned?_cons {c : Char} {rest : List Char} (hc : c.isDigit = true ∨ c = '.') :
    readUnsigned? (c :: rest) = readDecimal? (c :: rest) := by
  have hlower : c.toLower = c := by
    rcases hc with hc | rfl
    · exact toLower_of_isDigit hc
    · rfl
  have hi : c ≠ 'i' := by
    rintro rfl
    exact absurd hc (by decide)
  have hn : c ≠ 'n' := by
    rintro rfl
    exact absurd hc (by decide)
  simp [readUnsigned?, hlower, hi, hn]

theorem readDecimal?_eq_some {cs : List Char} {numeral : Numeral}
    (h : readDecimal? cs = some numeral) :
    ∃ significand exponent, numeral = .decimal significand exponent := by
  unfold readDecimal? at h
  simp only at h
  split at h
  · exact nomatch h
  · obtain ⟨e, -, rfl⟩ := Option.map_eq_some_iff.mp h
    exact ⟨_, _, rfl⟩

/-- After its sign such a numeral begins with a digit or a point. -/
theorem round_decimal_ne_nan (f : Format) {negative : Bool} {c : Char} {rest : List Char}
    (hc : c.isDigit = true ∨ c = '.') {x : Double}
    (h : (readUnsigned? (c :: rest)).map (round f negative) = some x) : x ≠ .nan := by
  obtain ⟨numeral, hnumeral, rfl⟩ := Option.map_eq_some_iff.mp h
  rw [readUnsigned?_cons hc] at hnumeral
  obtain ⟨significand, exponent, rfl⟩ := readDecimal?_eq_some hnumeral
  exact f.ofDecimal_ne_nan negative significand exponent

end Numeral

theorem Format.read?_eq (f : Format) (text : String) :
    f.read? text = (Numeral.readUnsigned? (Numeral.splitSign text.toList).2).map
      (Numeral.round f (Numeral.splitSign text.toList).1) := rfl

end Reql.Double
