/-
# `Reql.Proofs.Double.Decimal` — which texts are decimals

A decimal is an optional sign, a mantissa and an optional exponent, each said as a grammar of
its own.  The reader splits a text from the left, and each of its steps is settled by one part
of the grammar: what follows a run of digits is no digit, and what follows a mantissa is the end
or an `e`.  So a text without a sign is read as a decimal exactly if it is one
(`isSome_readDecimal?_iff`).
-/
import Reql.Proofs.Double.Numeral

namespace Reql.Double.Numeral

/-! ## The grammar -/

/-- Only digits, perhaps none. -/
def AllDigits (cs : List Char) : Prop := ∀ c ∈ cs, c.isDigit = true

/-- A sign or nothing. -/
inductive IsSign : List Char → Prop where
  | none : IsSign []
  | minus : IsSign ['-']
  | plus : IsSign ['+']

/-- Digits with a point behind, in front or among them, or without a point. -/
inductive IsMantissa : List Char → Prop where
  | whole {ds : List Char} : ds ≠ [] → AllDigits ds → IsMantissa ds
  | point {ds fs : List Char} : ds ≠ [] → AllDigits ds → AllDigits fs → IsMantissa (ds ++ '.' :: fs)
  | fraction {fs : List Char} : fs ≠ [] → AllDigits fs → IsMantissa ('.' :: fs)

/-- An exponent or nothing. -/
inductive IsExponent : List Char → Prop where
  | none : IsExponent []
  | some {e : Char} {sign ds : List Char} : (e = 'e' ∨ e = 'E') → IsSign sign → ds ≠ [] →
      AllDigits ds → IsExponent (e :: (sign ++ ds))

/-- A decimal without a sign. -/
def IsUnsigned (cs : List Char) : Prop :=
  ∃ mantissa exponent, IsMantissa mantissa ∧ IsExponent exponent ∧ cs = mantissa ++ exponent

/-- A decimal. -/
def IsDecimal (cs : List Char) : Prop :=
  ∃ sign unsigned, IsSign sign ∧ IsUnsigned unsigned ∧ cs = sign ++ unsigned

/-! ## Digits -/

theorem allDigits_takeWhile (cs : List Char) : AllDigits (cs.takeWhile Char.isDigit) :=
  List.all_eq_true.mp List.all_takeWhile

theorem AllDigits.head {ds : List Char} (h : AllDigits ds) :
    ∀ c ∈ ds.head?, c.isDigit = true :=
  fun c hc => h c (List.mem_of_mem_head? hc)

/-! ## Signs and exponents -/

/-- A sign is taken off from in front of anything that does not begin with another one. -/
theorem splitSign_append {sign cs : List Char} (hsign : IsSign sign)
    (hcs : ∀ c ∈ cs.head?, c ≠ '-' ∧ c ≠ '+') : (splitSign (sign ++ cs)).2 = cs := by
  cases hsign with
  | minus => rfl
  | plus => rfl
  | none =>
      rw [List.nil_append]
      unfold splitSign
      split
      next => exact absurd rfl (hcs '-' rfl).1
      next => exact absurd rfl (hcs '+' rfl).2
      next => rfl

theorem exists_sign (cs : List Char) : ∃ sign, IsSign sign ∧ cs = sign ++ (splitSign cs).2 := by
  unfold splitSign
  split
  next rest => exact ⟨['-'], .minus, rfl⟩
  next rest => exact ⟨['+'], .plus, rfl⟩
  next => exact ⟨[], .none, rfl⟩

theorem not_sign_of_isDigit {c : Char} (h : c.isDigit = true) : c ≠ '-' ∧ c ≠ '+' := by
  constructor
  all_goals
    rintro rfl
    exact absurd h (by decide)

theorem isSome_readExponent?_cons (e : Char) (rest : List Char) :
    (readExponent? (e :: rest)).isSome = true ↔
      (e = 'e' ∨ e = 'E') ∧ (splitSign rest).2 ≠ [] ∧ AllDigits (splitSign rest).2 := by
  have hdigits : ((splitSign rest).2.isEmpty || !(splitSign rest).2.all Char.isDigit) = false ↔
      (splitSign rest).2 ≠ [] ∧ AllDigits (splitSign rest).2 := by
    simp [AllDigits]
  rw [← hdigits]
  simp only [readExponent?]
  split
  next he =>
    split
    next h => simp [h]
    next h =>
      rw [Bool.not_eq_true] at h
      split <;> simp [he, h]
  next he => simp [he]

theorem isSome_readExponent?_iff {cs : List Char} :
    (readExponent? cs).isSome = true ↔ IsExponent cs := by
  cases cs with
  | nil => exact ⟨fun _ => .none, fun _ => rfl⟩
  | cons e rest =>
      rw [isSome_readExponent?_cons]
      constructor
      · rintro ⟨he, hne, hdigits⟩
        obtain ⟨sign, hsign, hrest⟩ := exists_sign rest
        rw [hrest]
        exact .some he hsign hne hdigits
      · intro h
        cases h with
        | @some _ sign ds he hsign hne hdigits =>
            have hsplit : (splitSign (sign ++ ds)).2 = ds :=
              splitSign_append hsign fun c hc => not_sign_of_isDigit (hdigits.head c hc)
            rw [hsplit]
            exact ⟨he, hne, hdigits⟩

theorem IsExponent.head {cs : List Char} (h : IsExponent cs) :
    ∀ c ∈ cs.head?, c.isDigit = false ∧ c ≠ '.' := by
  cases h with
  | none => exact nofun
  | some he =>
      intro c hc
      obtain rfl := Option.some.inj hc
      rcases he with rfl | rfl
      · decide
      · decide

/-! ## Mantissas -/

theorem splitFraction_of_head {cs : List Char} (h : ∀ c ∈ cs.head?, c ≠ '.') :
    splitFraction cs = ([], cs) := by
  unfold splitFraction
  split
  next => exact absurd rfl (h '.' rfl)
  next => rfl

/-- A fraction is a point and the digits after it. -/
theorem splitFraction_cases (cs : List Char) : splitFraction cs = ([], cs) ∨
    ∃ fs rest, AllDigits fs ∧ cs = '.' :: (fs ++ rest) ∧ splitFraction cs = (fs, rest) := by
  unfold splitFraction
  split
  next after =>
    refine .inr ⟨after.takeWhile Char.isDigit, after.dropWhile Char.isDigit,
      allDigits_takeWhile after, ?_, List.span_eq_takeWhile_dropWhile ..⟩
    rw [List.takeWhile_append_dropWhile]
  next => exact .inl rfl

/-- Of a text that begins with digits the reader takes the digits, the digits after a point if
there is one, and the rest as the exponent. -/
theorem readDecimal?_eq (cs : List Char) : readDecimal? cs =
    if (cs.takeWhile Char.isDigit).isEmpty &&
        (splitFraction (cs.dropWhile Char.isDigit)).1.isEmpty then none
    else (readExponent? (splitFraction (cs.dropWhile Char.isDigit)).2).map fun e =>
      .decimal (natOfDigits (cs.takeWhile Char.isDigit
        ++ (splitFraction (cs.dropWhile Char.isDigit)).1))
        (e - (splitFraction (cs.dropWhile Char.isDigit)).1.length) := by
  rw [readDecimal?, List.span_eq_takeWhile_dropWhile]

theorem isSome_readDecimal?_eq (cs : List Char) : (readDecimal? cs).isSome = true ↔
    (cs.takeWhile Char.isDigit ≠ [] ∨ (splitFraction (cs.dropWhile Char.isDigit)).1 ≠ []) ∧
      IsExponent (splitFraction (cs.dropWhile Char.isDigit)).2 := by
  rw [readDecimal?_eq, ← isSome_readExponent?_iff]
  split
  next h =>
    rw [Bool.and_eq_true, List.isEmpty_iff, List.isEmpty_iff] at h
    simp [h.1, h.2]
  next h =>
    rw [Bool.and_eq_true, List.isEmpty_iff, List.isEmpty_iff, not_and_or] at h
    rw [Option.isSome_map]
    exact (and_iff_right h).symm

/-- How the reader splits a text into digits and the rest. -/
theorem split_digits {ds rest : List Char} (hds : AllDigits ds)
    (hrest : ∀ c ∈ rest.head?, c.isDigit = false) :
    (ds ++ rest).takeWhile Char.isDigit = ds ∧ (ds ++ rest).dropWhile Char.isDigit = rest := by
  have hspan := span_append hds hrest
  rw [List.span_eq_takeWhile_dropWhile] at hspan
  exact Prod.mk.inj hspan

/-- A text without a sign is read as a decimal exactly if it is one. -/
theorem isSome_readDecimal?_iff {cs : List Char} :
    (readDecimal? cs).isSome = true ↔ IsUnsigned cs := by
  rw [isSome_readDecimal?_eq]
  constructor
  · rintro ⟨hsome, hexponent⟩
    have hwhole := allDigits_takeWhile cs
    have hcs : cs = cs.takeWhile Char.isDigit ++ cs.dropWhile Char.isDigit :=
      (List.takeWhile_append_dropWhile).symm
    generalize cs.takeWhile Char.isDigit = ds at hsome hwhole hcs
    generalize cs.dropWhile Char.isDigit = rest at hsome hexponent hcs
    subst hcs
    rcases splitFraction_cases rest with hsplit | ⟨fs, exponent, hfs, rfl, hsplit⟩
    · rw [hsplit] at hsome hexponent
      exact ⟨ds, rest, .whole (hsome.resolve_right (absurd rfl)) hwhole, hexponent, rfl⟩
    · rw [hsplit] at hsome hexponent
      refine ⟨ds ++ '.' :: fs, exponent, ?_, hexponent, by simp⟩
      cases ds with
      | nil => exact .fraction (hsome.resolve_left (absurd rfl)) hfs
      | cons d ds => exact .point (List.cons_ne_nil d ds) hwhole hfs
  · rintro ⟨mantissa, exponent, hmantissa, hexponent, rfl⟩
    have hdigit : ∀ c ∈ exponent.head?, c.isDigit = false := fun c hc => (hexponent.head c hc).1
    -- a point follows the digits, and digits the point
    have hpoint {ds fs : List Char} (hds : AllDigits ds) (hfs : AllDigits fs) :
        (ds ++ '.' :: fs ++ exponent).takeWhile Char.isDigit = ds ∧
          splitFraction ((ds ++ '.' :: fs ++ exponent).dropWhile Char.isDigit) =
            (fs, exponent) := by
      rw [List.append_assoc, List.cons_append]
      have hpoint : ∀ c ∈ ('.' :: (fs ++ exponent)).head?, c.isDigit = false := by simp
      obtain ⟨htake, hdrop⟩ := split_digits hds hpoint
      rw [htake, hdrop]
      exact ⟨rfl, span_append hfs hdigit⟩
    cases hmantissa with
    | whole hne hds =>
        obtain ⟨htake, hdrop⟩ := split_digits hds hdigit
        rw [htake, hdrop, splitFraction_of_head fun c hc => (hexponent.head c hc).2]
        exact ⟨.inl hne, hexponent⟩
    | point hne hds hfs =>
        obtain ⟨htake, hsplit⟩ := hpoint hds hfs
        rw [htake, hsplit]
        exact ⟨.inl hne, hexponent⟩
    | fraction hne hfs =>
        have hnone : AllDigits [] := List.forall_mem_nil _
        obtain ⟨htake, hsplit⟩ := hpoint hnone hfs
        rw [List.nil_append] at htake hsplit
        rw [htake, hsplit]
        exact ⟨.inr hne, hexponent⟩

/-! ## How decimals begin -/

/-- A decimal without a sign begins with a digit, or with a point and a digit. -/
theorem IsUnsigned.begins {cs : List Char} (h : IsUnsigned cs) :
    (∃ d rest, d.isDigit = true ∧ cs = d :: rest) ∨
      ∃ d rest, d.isDigit = true ∧ cs = '.' :: d :: rest := by
  obtain ⟨mantissa, exponent, hmantissa, -, rfl⟩ := h
  have hdigits {ds : List Char} (hne : ds ≠ []) (hds : AllDigits ds) :
      ∃ d rest, d.isDigit = true ∧ ds = d :: rest := by
    obtain ⟨d, rest, rfl⟩ := List.exists_cons_of_ne_nil hne
    exact ⟨d, rest, hds d List.mem_cons_self, rfl⟩
  cases hmantissa with
  | whole hne hds =>
      obtain ⟨d, rest, hd, rfl⟩ := hdigits hne hds
      exact .inl ⟨d, _, hd, rfl⟩
  | point hne hds _ =>
      obtain ⟨d, rest, hd, rfl⟩ := hdigits hne hds
      exact .inl ⟨d, _, hd, rfl⟩
  | fraction hne hfs =>
      obtain ⟨d, rest, hd, rfl⟩ := hdigits hne hfs
      exact .inr ⟨d, _, hd, rfl⟩

/-- A text is read as a decimal, sign and all, exactly if it is one. -/
theorem isDecimal_iff {cs : List Char} :
    IsDecimal cs ↔ (readDecimal? (splitSign cs).2).isSome = true := by
  rw [isSome_readDecimal?_iff]
  constructor
  · rintro ⟨sign, unsigned, hsign, hunsigned, rfl⟩
    rw [splitSign_append hsign]
    · exact hunsigned
    · intro c hc
      rcases hunsigned.begins with ⟨d, rest, hd, rfl⟩ | ⟨d, rest, -, rfl⟩
      · obtain rfl := Option.some.inj hc
        exact not_sign_of_isDigit hd
      · obtain rfl := Option.some.inj hc
        decide
  · intro h
    obtain ⟨sign, hsign, hcs⟩ := exists_sign cs
    exact ⟨sign, _, hsign, h, hcs⟩

end Reql.Double.Numeral
