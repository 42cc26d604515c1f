/-
# `Reql.Proofs.Double.Plain` — numbers read back from the page

The plain text of a finite number is its sign, then digits, with at most one point and no
exponent.  Read as a numeral it stands for the shortest decimal, up to zeros that moved between
the digits and the exponent, so it reads back as the number (`ofText?_plain`).  No two finite
numbers share a text, the two zeros included.
-/
import Reql.Proofs.Double.Wire

namespace Reql.Double

open Numeral

/-! ## Magnitudes -/

/-- A run of digits is a numeral for the number that it writes. -/
theorem readDecimal?_digits {ds : List Char} (hne : ds ≠ [])
    (hdigits : ∀ c ∈ ds, c.isDigit = true) :
    readDecimal? ds = some (.decimal (natOfDigits ds) 0) := by
  have hend : ∀ c ∈ ([] : List Char).head?, c.isDigit = false := nofun
  have hspan := span_append hdigits hend
  rw [List.append_nil] at hspan
  have hempty : ds.isEmpty = false := List.isEmpty_eq_false_iff.mpr hne
  simp only [readDecimal?, hspan]
  simp [splitFraction, hempty, readExponent?]

/-- The characters of magnitudes. -/
def isMagnitudeChar (c : Char) : Bool := c.isDigit || c == '.'

theorem isMagnitudeChar_of_digits {ds : List Char} (h : ∀ c ∈ ds, c.isDigit = true) :
    ∀ c ∈ ds, isMagnitudeChar c = true :=
  fun c hc => by simp [isMagnitudeChar, h c hc]

/-- A text of digits and points that begins with a digit and is a numeral for a rank. -/
structure Writes (cs : List Char) (rank : Nat) : Prop where
  begins : ∃ c rest, c.isDigit = true ∧ cs = c :: rest
  chars : ∀ c ∈ cs, isMagnitudeChar c = true
  reads : ∃ d : Decimal, readDecimal? cs = some (.decimal d.digits d.exponent) ∧ d.rank = rank

theorem writes_layout {l : Layout} {rank : Nat} {cs : List Char} (hrank : l.decimal.rank = rank)
    (hl : l.chars = cs) (hchars : ∀ c ∈ cs, isMagnitudeChar c = true) : Writes cs rank := by
  refine ⟨hl ▸ l.chars_eq_cons, hchars, l.decimal, ?_, hrank⟩
  rw [← hl]
  exact l.readDecimal?_chars

section Digits

variable {ds : List Char} {e : Int} {k : Nat} (hdigits : ∀ c ∈ ds, c.isDigit = true)

include hdigits

theorem writes_fraction (hpos : 0 < k) (hlt : k < ds.length) (hk : e = k - ds.length) :
    Writes (ds.take k ++ '.' :: ds.drop k) (Decimal.rank ⟨natOfDigits ds, e⟩) := by
  obtain ⟨l, hrank, hl⟩ := exists_layout_fraction hdigits hpos hlt hk
  have hbefore : ∀ c ∈ ds.take k, c.isDigit = true :=
    fun c hc => hdigits c (List.mem_of_mem_take hc)
  have hafter : ∀ c ∈ ds.drop k, c.isDigit = true :=
    fun c hc => hdigits c (List.mem_of_mem_drop hc)
  refine writes_layout hrank hl (List.forall_mem_append.mpr ⟨isMagnitudeChar_of_digits hbefore, ?_⟩)
  exact List.forall_mem_cons.mpr ⟨rfl, isMagnitudeChar_of_digits hafter⟩

variable (hne : ds ≠ [])

include hne

theorem writes_small (hk : ds.length + e = -k) :
    Writes ('0' :: '.' :: (List.replicate k '0' ++ ds)) (Decimal.rank ⟨natOfDigits ds, e⟩) := by
  obtain ⟨l, hrank, hl⟩ := exists_layout_small hne hdigits hk
  have hfraction : ∀ c ∈ List.replicate k '0' ++ ds, c.isDigit = true :=
    List.forall_mem_append.mpr ⟨isDigit_of_mem_zeros, hdigits⟩
  refine writes_layout hrank hl (List.forall_mem_cons.mpr ⟨rfl, ?_⟩)
  exact List.forall_mem_cons.mpr ⟨rfl, isMagnitudeChar_of_digits hfraction⟩

theorem writes_whole (hk : e = k) :
    Writes (ds ++ List.replicate k '0') (Decimal.rank ⟨natOfDigits ds, e⟩) := by
  have hall : ∀ c ∈ ds ++ List.replicate k '0', c.isDigit = true :=
    List.forall_mem_append.mpr ⟨hdigits, isDigit_of_mem_zeros⟩
  have hsome : ds ++ List.replicate k '0' ≠ [] := List.append_ne_nil_of_left_ne_nil hne _
  refine ⟨?_, isMagnitudeChar_of_digits hall, ⟨natOfDigits (ds ++ List.replicate k '0'), 0⟩,
    readDecimal?_digits hsome hall, ?_⟩
  · obtain ⟨c, rest, rfl⟩ := List.exists_cons_of_ne_nil hne
    exact ⟨c, _, hdigits c List.mem_cons_self, rfl⟩
  · rw [natOfDigits_append_zeros, Decimal.rank_mul_ten_pow, Int.zero_add, hk]

end Digits

/-- The plain text of a decimal is a numeral for it. -/
theorem writes_plainMagnitude (d : Decimal) : Writes (plainMagnitude d).toList d.rank := by
  obtain ⟨n, e⟩ := d
  have hne : Nat.toDigits 10 n ≠ [] := Nat.toDigits_ne_nil
  have hdigits : ∀ c ∈ Nat.toDigits 10 n, c.isDigit = true := toDigits_isDigit
  have hvalue : natOfDigits (Nat.toDigits 10 n) = n := natOfDigits_toDigits n
  simp only [plainMagnitude]
  generalize Nat.toDigits 10 n = ds at hne hdigits hvalue
  subst hvalue
  rw [positional_toList]
  split
  next hsmall => exact writes_small hdigits hne (by omega)
  next hlarge =>
    split
    next hwhole =>
      rw [String.toList_empty, List.append_nil]
      exact writes_whole hdigits hne (by omega)
    next hfraction => exact writes_fraction hdigits (by omega) (by omega) (by omega)

/-! ## Numbers -/

/-- The text of a finite number is its sign and a numeral for its rank. -/
theorem exists_writes {x : Double} (h : x.isFinite = true) : ∃ (negative : Bool) (cs : List Char)
    (rank : Nat), x.plain.toList = (signText negative).toList ++ cs ∧ Writes cs rank ∧
      ofRank negative rank = x := by
  cases x with
  | nan => exact nomatch h
  | infinity negative => exact nomatch h
  | finite negative rank =>
      have hwrites := writes_plainMagnitude (shortest .up rank.val)
      rw [rank_shortest] at hwrites
      exact ⟨negative, _, rank.val, String.toList_append, hwrites, ofRank_val negative rank⟩

/-- What is written plainly reads back. -/
theorem ofText?_plain {x : Double} (h : x.isFinite = true) : ofText? x.plain = some x := by
  obtain ⟨negative, cs, rank, htext, ⟨⟨c, rest, hc, rfl⟩, -, d, hread, rfl⟩, rfl⟩ := exists_writes h
  rw [ofText?, Format.read?_eq, htext, splitSign_signText negative hc, readUnsigned?_cons (.inl hc),
    hread, Option.map_some, Numeral.round, Decimal.ofRank_rank]

/-- No two finite numbers have the same plain text. -/
theorem plain_injective {x y : Double} (hx : x.isFinite = true) (hy : y.isFinite = true)
    (h : x.plain = y.plain) : x = y := by
  have hread := ofText?_plain hx
  rw [h, ofText?_plain hy] at hread
  exact (Option.some.inj hread).symm

/-! ## Numbers in a text -/

/-- The characters of plain numbers. -/
def isPlainChar (c : Char) : Bool := c.isDigit || c == '.' || c == '-'

theorem isPlainChar_of_mem {x : Double} (h : x.isFinite = true) :
    ∀ c ∈ x.plain.toList, isPlainChar c = true := by
  obtain ⟨negative, cs, rank, htext, hwrites, -⟩ := exists_writes h
  rw [htext]
  refine List.forall_mem_append.mpr ⟨?_, ?_⟩
  · cases negative with
    | true => exact List.forall_mem_singleton.mpr rfl
    | false => exact List.forall_mem_nil _
  · intro c hc
    have hchar := hwrites.chars c hc
    rw [isMagnitudeChar] at hchar
    rw [isPlainChar, hchar, Bool.true_or]

/-- No number has a newline, the ones that are not finite included. -/
theorem newline_not_mem_plain (x : Double) : '\n' ∉ x.plain.toList := by
  cases hx : x.isFinite with
  | true => exact fun h => absurd (isPlainChar_of_mem hx '\n' h) (by decide)
  | false =>
      cases x with
      | nan => decide
      | infinity negative => cases negative <;> decide
      | finite negative rank => exact nomatch hx

/-- A number begins with a digit or a minus. -/
theorem exists_plain_head {x : Double} (h : x.isFinite = true) :
    ∃ c rest, x.plain.toList = c :: rest ∧ (c.isDigit = true ∨ c = '-') := by
  obtain ⟨negative, cs, rank, htext, ⟨⟨c, rest, hc, rfl⟩, -, -⟩, -⟩ := exists_writes h
  cases negative with
  | true => exact ⟨'-', c :: rest, htext, .inr rfl⟩
  | false => exact ⟨c, rest, htext, .inl hc⟩

/-- A number and what follows it can be told from the text. -/
theorem plain_append_injective {x y : Double} {u v : List Char} (hx : x.isFinite = true)
    (hy : y.isFinite = true) (hu : ∀ c ∈ u.head?, isPlainChar c = false)
    (hv : ∀ c ∈ v.head?, isPlainChar c = false)
    (h : x.plain.toList ++ u = y.plain.toList ++ v) : x = y ∧ u = v := by
  have hspan := congrArg (List.span isPlainChar) h
  rw [span_append (isPlainChar_of_mem hx) hu, span_append (isPlainChar_of_mem hy) hv] at hspan
  obtain ⟨htext, hrest⟩ := Prod.mk.inj hspan
  exact ⟨plain_injective hx hy (String.toList_inj.mp htext), hrest⟩

end Reql.Double
