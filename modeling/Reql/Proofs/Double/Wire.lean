/-
# `Reql.Proofs.Double.Wire` — numbers read back from the wire

The wire text of a finite magnitude is digits, and after them a point with more digits, an
exponent, or both (`exists_layout`).  Read as a numeral it stands for the shortest decimal, up
to zeros that moved between the digits and the exponent, and that decimal rounds to the number
(`ofText?_of_wire?`).  So no two finite numbers share a text.
-/
import Reql.Double.Layout
import Reql.Proofs.Double.Numeral
import Reql.Proofs.Double.Shortest

namespace Reql.Double

open Numeral

/-! ## Layouts -/

/-- The point and the digits after it, if there are any. -/
def fractionChars : List Char → List Char
  | [] => []
  | digits => '.' :: digits

theorem fractionChars_of_ne_nil {digits : List Char} (h : digits ≠ []) :
    fractionChars digits = '.' :: digits := by
  cases digits with
  | nil => exact absurd rfl h
  | cons d digits => rfl

/-- An exponent with its sign. -/
def exponentChars : Option Int → List Char
  | none => []
  | some e => 'e' :: (if e < 0 then '-' else '+') :: Nat.toDigits 10 e.natAbs

/-- The parts of a number without its sign.  It has a point or an exponent. -/
structure Layout where
  whole : List Char
  fraction : List Char
  exponent : Option Int
  whole_ne_nil : whole ≠ []
  whole_digits : ∀ c ∈ whole, c.isDigit = true
  fraction_digits : ∀ c ∈ fraction, c.isDigit = true
  marked : fraction ≠ [] ∨ exponent ≠ none

namespace Layout

def chars (l : Layout) : List Char :=
  l.whole ++ (fractionChars l.fraction ++ exponentChars l.exponent)

/-- What the parts stand for. -/
def decimal (l : Layout) : Decimal :=
  ⟨natOfDigits (l.whole ++ l.fraction), l.exponent.getD 0 - l.fraction.length⟩

/-- A number begins with a digit. -/
theorem chars_eq_cons (l : Layout) : ∃ c rest, c.isDigit = true ∧ l.chars = c :: rest := by
  obtain ⟨c, rest, hwhole⟩ := List.exists_cons_of_ne_nil l.whole_ne_nil
  refine ⟨c, rest ++ (fractionChars l.fraction ++ exponentChars l.exponent), ?_, ?_⟩
  · exact l.whole_digits c (hwhole ▸ List.mem_cons_self)
  · rw [chars, hwhole, List.cons_append]

end Layout

/-- The characters that numbers are written with. -/
def isNumberChar (c : Char) : Bool :=
  c.isDigit || c == '.' || c == '-' || c == '+' || c == 'e'

theorem isNumberChar_of_isDigit {c : Char} (h : c.isDigit = true) : isNumberChar c = true := by
  simp [isNumberChar, h]

/-! ## Reading the parts -/

theorem toDigits_isDigit {n : Nat} : ∀ c ∈ Nat.toDigits 10 n, c.isDigit = true :=
  fun _ hc => Nat.isDigit_of_mem_toDigits (by decide) (by decide) hc

theorem exponentChars_head (e? : Option Int) :
    ∀ c ∈ (exponentChars e?).head?, c.isDigit = false := by
  cases e? with
  | none => exact fun c hc => nomatch hc
  | some e =>
      intro c hc
      obtain rfl := Option.some.inj hc
      decide

theorem readExponent?_of_splitSign {rest digits : List Char} {negative : Bool}
    (hsign : splitSign rest = (negative, digits)) (hne : digits ≠ [])
    (hdigits : ∀ c ∈ digits, c.isDigit = true) : readExponent? ('e' :: rest) =
      some (if negative then -(natOfDigits digits : Int) else natOfDigits digits) := by
  have hempty : digits.isEmpty = false := List.isEmpty_eq_false_iff.mpr hne
  have hall : digits.all Char.isDigit = true := List.all_eq_true.mpr hdigits
  simp only [readExponent?, hsign, hempty, hall, true_or, if_true, Bool.not_true, Bool.or_self,
    Bool.false_eq_true, if_false]
  cases negative <;> rfl

theorem readExponent?_exponentChars (e? : Option Int) :
    readExponent? (exponentChars e?) = some (e?.getD 0) := by
  cases e? with
  | none => rfl
  | some e =>
      have hread (negative : Bool) (sign : Char)
          (hsign : splitSign (sign :: Nat.toDigits 10 e.natAbs) =
            (negative, Nat.toDigits 10 e.natAbs)) :
          readExponent? ('e' :: sign :: Nat.toDigits 10 e.natAbs) =
            some (if negative then -(e.natAbs : Int) else e.natAbs) := by
        rw [readExponent?_of_splitSign hsign Nat.toDigits_ne_nil toDigits_isDigit,
          natOfDigits_toDigits]
      rcases Int.lt_or_le e 0 with he | he
      · have habs : -(e.natAbs : Int) = e := by omega
        rw [exponentChars, if_pos he, hread true '-' rfl, if_pos rfl, habs, Option.getD_some]
      · have habs : (e.natAbs : Int) = e := by omega
        rw [exponentChars, if_neg (Int.not_lt.mpr he), hread false '+' rfl,
          if_neg Bool.false_ne_true, habs, Option.getD_some]

theorem splitFraction_fractionChars {digits rest : List Char}
    (hdigits : ∀ c ∈ digits, c.isDigit = true) (hrest : ∀ c ∈ rest.head?, c.isDigit = false)
    (hpoint : rest.head? ≠ some '.') : splitFraction (fractionChars digits ++ rest) = (digits, rest) := by
  cases digits with
  | nil =>
      cases rest with
      | nil => rfl
      | cons c rest =>
          rw [fractionChars, List.nil_append, splitFraction]
          intro tail htail
          obtain ⟨rfl, -⟩ := List.cons.inj htail
          exact hpoint rfl
  | cons d digits =>
      rw [fractionChars, List.cons_append, splitFraction]
      · exact span_append hdigits hrest
      · exact nofun

/-- A number is read as what its parts stand for. -/
theorem Layout.readDecimal?_chars (l : Layout) :
    readDecimal? l.chars = some (.decimal l.decimal.digits l.decimal.exponent) := by
  have hpoint : (exponentChars l.exponent).head? ≠ some '.' := by
    cases l.exponent with
    | none => exact nofun
    | some e => simp [exponentChars]
  have hrest : ∀ c ∈ (fractionChars l.fraction ++ exponentChars l.exponent).head?,
      c.isDigit = false := by
    cases l.fraction with
    | nil => exact exponentChars_head l.exponent
    | cons d digits =>
        intro c hc
        obtain rfl := Option.some.inj hc
        decide
  have hempty : l.whole.isEmpty = false := List.isEmpty_eq_false_iff.mpr l.whole_ne_nil
  simp only [readDecimal?, chars, span_append l.whole_digits hrest,
    splitFraction_fractionChars l.fraction_digits (exponentChars_head _) hpoint, hempty,
    Bool.false_and, readExponent?_exponentChars, Option.map_some]
  rfl

theorem Layout.isNumberChar_of_mem (l : Layout) : ∀ c ∈ l.chars, isNumberChar c = true := by
  have hwhole : ∀ c ∈ l.whole, isNumberChar c = true :=
    fun c hc => isNumberChar_of_isDigit (l.whole_digits c hc)
  have hfraction : ∀ c ∈ fractionChars l.fraction, isNumberChar c = true := by
    cases hdigits : l.fraction with
    | nil => exact List.forall_mem_nil _
    | cons d digits =>
        refine List.forall_mem_cons.mpr ⟨rfl, ?_⟩
        exact fun c hc => isNumberChar_of_isDigit (l.fraction_digits c (hdigits ▸ hc))
  have hexponent : ∀ c ∈ exponentChars l.exponent, isNumberChar c = true := by
    cases l.exponent with
    | none => exact List.forall_mem_nil _
    | some e =>
        refine List.forall_mem_cons.mpr ⟨rfl, List.forall_mem_cons.mpr ⟨?_, ?_⟩⟩
        · split <;> rfl
        · exact fun c hc => isNumberChar_of_isDigit (toDigits_isDigit c hc)
  exact List.forall_mem_append.mpr ⟨hwhole, List.forall_mem_append.mpr ⟨hfraction, hexponent⟩⟩

/-- The point or the exponent tells a number from a run of digits. -/
theorem Layout.exists_not_isDigit (l : Layout) : ∃ c ∈ l.chars, c.isDigit = false := by
  rcases l.marked with hfraction | hexponent
  · refine ⟨'.', ?_, rfl⟩
    rw [chars, fractionChars_of_ne_nil hfraction]
    exact List.mem_append_right _ (List.mem_append_left _ List.mem_cons_self)
  · obtain ⟨e, he⟩ := Option.ne_none_iff_exists'.mp hexponent
    refine ⟨'e', ?_, rfl⟩
    rw [chars, he]
    exact List.mem_append_right _ (List.mem_append_right _ List.mem_cons_self)

/-! ## The layouts of a decimal -/

theorem isDigit_of_mem_zeros {k : Nat} : ∀ c ∈ List.replicate k '0', c.isDigit = true := by
  intro c hc
  rw [List.eq_of_mem_replicate hc]
  rfl

section Digits

variable {ds : List Char} {e : Int} (hne : ds ≠ []) (hdigits : ∀ c ∈ ds, c.isDigit = true)

include hdigits

/-- The point stands between the digits. -/
theorem exists_layout_fraction {k : Nat} (hpos : 0 < k) (hlt : k < ds.length)
    (hk : e = k - ds.length) :
    ∃ l : Layout, l.decimal.rank = Decimal.rank ⟨natOfDigits ds, e⟩ ∧
      l.chars = ds.take k ++ '.' :: ds.drop k := by
  have hwhole : ds.take k ≠ [] := by
    rw [← List.length_pos_iff, List.length_take]
    omega
  have hfraction : ds.drop k ≠ [] := by
    rw [← List.length_pos_iff, List.length_drop]
    omega
  refine ⟨⟨ds.take k, ds.drop k, none, hwhole, fun c hc => hdigits c (List.mem_of_mem_take hc),
    fun c hc => hdigits c (List.mem_of_mem_drop hc), .inl hfraction⟩, ?_, ?_⟩
  · have hexponent : (0 : Int) - (ds.drop k).length = e := by
      rw [List.length_drop]
      omega
    simp only [Layout.decimal, List.take_append_drop, Option.getD_none, hexponent]
  · simp only [Layout.chars, fractionChars_of_ne_nil hfraction, exponentChars, List.append_nil]

include hne

/-- The point stands in front of the digits. -/
theorem exists_layout_small {k : Nat} (hk : ds.length + e = -k) :
    ∃ l : Layout, l.decimal.rank = Decimal.rank ⟨natOfDigits ds, e⟩ ∧
      l.chars = '0' :: '.' :: (List.replicate k '0' ++ ds) := by
  have hfraction : List.replicate k '0' ++ ds ≠ [] := List.append_ne_nil_of_right_ne_nil _ hne
  refine ⟨⟨['0'], List.replicate k '0' ++ ds, none, List.cons_ne_nil _ _,
    List.forall_mem_singleton.mpr rfl,
    List.forall_mem_append.mpr ⟨isDigit_of_mem_zeros, hdigits⟩, .inl hfraction⟩, ?_, ?_⟩
  · have hvalue : natOfDigits ('0' :: (List.replicate k '0' ++ ds)) = natOfDigits ds :=
      natOfDigits_zeros_append (k + 1) ds
    have hexponent : (0 : Int) - (List.replicate k '0' ++ ds).length = e := by
      rw [List.length_append, List.length_replicate]
      omega
    simp only [Layout.decimal, List.singleton_append, hvalue, Option.getD_none, hexponent]
  · simp only [Layout.chars, fractionChars_of_ne_nil hfraction, exponentChars, List.append_nil,
      List.singleton_append]

/-- The point stands behind the digits. -/
theorem exists_layout_whole {k : Nat} (hk : e = k) :
    ∃ l : Layout, l.decimal.rank = Decimal.rank ⟨natOfDigits ds, e⟩ ∧
      l.chars = ds ++ (List.replicate k '0' ++ ['.', '0']) := by
  refine ⟨⟨ds ++ List.replicate k '0', ['0'], none, List.append_ne_nil_of_left_ne_nil hne _,
    List.forall_mem_append.mpr ⟨hdigits, isDigit_of_mem_zeros⟩,
    List.forall_mem_singleton.mpr rfl, .inl (List.cons_ne_nil _ _)⟩, ?_, ?_⟩
  · have hvalue : natOfDigits (ds ++ List.replicate k '0' ++ ['0']) =
        natOfDigits ds * 10 ^ (k + 1) := by
      rw [List.append_assoc, ← List.replicate_succ', natOfDigits_append_zeros]
    have hexponent : (0 : Int) - (1 : Nat) + (k + 1 : Nat) = e := by omega
    simp only [Layout.decimal, hvalue, Option.getD_none, List.length_singleton,
      Decimal.rank_mul_ten_pow, hexponent]
  · simp only [Layout.chars, fractionChars, exponentChars, List.append_nil, List.append_assoc]

/-- The point stands behind the first digit, and an exponent follows. -/
theorem exists_layout_scientific {x : Int} (hx : x = ds.length + e - 1) :
    ∃ l : Layout, l.decimal.rank = Decimal.rank ⟨natOfDigits ds, e⟩ ∧
      l.chars = ds.take 1 ++ (fractionChars (ds.drop 1) ++ exponentChars (some x)) := by
  have hlength : 0 < ds.length := List.length_pos_iff.mpr hne
  have hwhole : ds.take 1 ≠ [] := by
    rw [← List.length_pos_iff, List.length_take]
    omega
  refine ⟨⟨ds.take 1, ds.drop 1, some x, hwhole, fun c hc => hdigits c (List.mem_of_mem_take hc),
    fun c hc => hdigits c (List.mem_of_mem_drop hc), .inr (Option.some_ne_none x)⟩, ?_, rfl⟩
  have hexponent : x - (ds.drop 1).length = e := by
    rw [List.length_drop]
    omega
  simp only [Layout.decimal, List.take_append_drop, Option.getD_some, hexponent]

end Digits

theorem positional_toList (ds : List Char) (before : Int) (whole : String) :
    (positional ds before whole).toList =
      if before ≤ 0 then '0' :: '.' :: (List.replicate (-before).toNat '0' ++ ds)
      else if ds.length ≤ before.toNat then
        ds ++ (List.replicate (before.toNat - ds.length) '0' ++ whole.toList)
      else ds.take before.toNat ++ '.' :: ds.drop before.toNat := by
  rw [positional]
  split
  next => simp [zeros]
  next =>
    split
    next => simp [zeros]
    next => simp

theorem scientific_toList (ds : List Char) (x : Int) : (scientific ds x).toList =
    ds.take 1 ++ (fractionChars (ds.drop 1) ++ exponentChars (some x)) := by
  have hfraction : (if (ds.drop 1).isEmpty then "" else "." ++ String.ofList (ds.drop 1)).toList =
      fractionChars (ds.drop 1) := by
    cases ds.drop 1 with
    | nil => rfl
    | cons d digits => simp [fractionChars]
  have hexponent : ((if x < 0 then "e-" else "e+") ++ digitText x.natAbs).toList =
      exponentChars (some x) := by
    rw [exponentChars, digitText]
    split
    next => simp
    next => simp
  simp only [scientific, String.toList_append, String.toList_ofList, hfraction, List.append_assoc,
    ← hexponent]

/-- The wire text of a decimal is a numeral for it. -/
theorem exists_layout (d : Decimal) :
    ∃ l : Layout, l.decimal.rank = d.rank ∧ l.chars = (wireMagnitude d).toList := by
  obtain ⟨n, e⟩ := d
  have hne : Nat.toDigits 10 n ≠ [] := Nat.toDigits_ne_nil
  have hdigits : ∀ c ∈ Nat.toDigits 10 n, c.isDigit = true := toDigits_isDigit
  have hvalue : natOfDigits (Nat.toDigits 10 n) = n := natOfDigits_toDigits n
  simp only [wireMagnitude]
  generalize Nat.toDigits 10 n = ds at hne hdigits hvalue
  subst hvalue
  split
  next =>
    rw [positional_toList]
    split
    next hsmall => exact exists_layout_small hne hdigits (by omega)
    next hlarge =>
      split
      next hwhole => exact exists_layout_whole hne hdigits (by omega)
      next hfraction => exact exists_layout_fraction hdigits (by omega) (by omega) (by omega)
  next =>
    rw [scientific_toList]
    exact exists_layout_scientific hne hdigits rfl

/-! ## The numbers of the wire -/

theorem splitSign_signText (negative : Bool) {c : Char} {rest : List Char} (hc : c.isDigit = true) :
    splitSign ((signText negative).toList ++ c :: rest) = (negative, c :: rest) := by
  cases negative with
  | true => rfl
  | false =>
      have hsign : splitSign (c :: rest) = (false, c :: rest) := by
        rw [splitSign]
        · rintro tail htail
          obtain ⟨rfl, -⟩ := List.cons.inj htail
          exact absurd hc (by decide)
        · rintro tail htail
          obtain ⟨rfl, -⟩ := List.cons.inj htail
          exact absurd hc (by decide)
      exact hsign

/-- The text of a number is its sign and a numeral that rounds to it. -/
theorem exists_layout_of_wire? {x : Double} {text : String} (h : x.wire? = some text) :
    ∃ (negative : Bool) (l : Layout), text.toList = (signText negative).toList ++ l.chars ∧
      ofRank negative l.decimal.rank = x := by
  cases x with
  | nan => exact nomatch h
  | infinity negative => exact nomatch h
  | finite negative rank =>
      obtain rfl := Option.some.inj h
      obtain ⟨l, hrank, hchars⟩ := exists_layout (shortest .even rank.val)
      refine ⟨negative, l, ?_, ?_⟩
      · rw [String.toList_append, hchars]
      · rw [hrank, rank_shortest, ofRank_val]

/-- What is written on the wire reads back. -/
theorem ofText?_of_wire? {x : Double} {text : String} (h : x.wire? = some text) :
    ofText? text = some x := by
  obtain ⟨negative, l, htext, rfl⟩ := exists_layout_of_wire? h
  obtain ⟨c, rest, hc, hcons⟩ := l.chars_eq_cons
  rw [ofText?, Format.read?_eq, htext, hcons, splitSign_signText negative hc,
    readUnsigned?_cons (.inl hc), ← hcons, l.readDecimal?_chars, Option.map_some, Numeral.round,
    Decimal.ofRank_rank]

/-- No two finite numbers have the same text on the wire. -/
theorem wire?_injective {x y : Double} {text : String} (hx : x.wire? = some text)
    (hy : y.wire? = some text) : x = y :=
  Option.some.inj ((ofText?_of_wire? hx).symm.trans (ofText?_of_wire? hy))

end Reql.Double
