/-
# `Reql.Proofs.Expr.Numbers` — which words are numbers

A word is taken for a number by its first two characters, and only then read as one.  The two
steps agree with the grammar of decimals except in one place: where a point comes right after
the sign.  So a word is a number exactly if it is a decimal and has no point after a sign
(`readsNumber_iff`).  A decimal with a point after its sign is a symbol, although the same
decimal is a number without the sign, and with a zero in front of the point.
-/
import Reql.Proofs.Double.Decimal
import Reql.Proofs.Expr.Layout

namespace Reql

open Double (ofText?)
open Double.Numeral

/-! ## Texts of one word -/

/-- A word on its own is one token, or at fault. -/
theorem tokenize_word {w : List Char} (h : Token.IsWord w) : tokenize (String.ofList w) =
    match Token.ofWord w with
    | .ok token => .ok [⟨0, token⟩]
    | .error cause => .error ⟨0, cause⟩ := by
  obtain ⟨c, rest, rfl⟩ := List.exists_cons_of_ne_nil h.1
  obtain ⟨hc, hrest⟩ := List.forall_mem_cons.mp h.2
  have hbegin : Lexer.step 0 c .between = .ok ([], .word 0 [c]) := by
    rw [Lexer.step, Lexer.begin_of_not_delimiter hc]
  have hletters := Lexer.run_letters hrest (0 + c.utf8Size) 0 [c] []
  rw [List.append_nil] at hletters
  have hword : (rest.reverse ++ [c]).reverse = c :: rest := by simp
  rw [tokenize, String.toList_ofList, Lexer.run_silent hbegin, hletters, Lexer.run, Lexer.finish,
    Lexer.wordToken, hword]
  cases Token.ofWord (c :: rest) <;> rfl

theorem tokenize_word_eq_ok_iff {w : List Char} (h : Token.IsWord w) {token : Token} :
    tokenize (String.ofList w) = .ok [⟨0, token⟩] ↔ Token.Spelled token w := by
  rw [tokenize_word h, ← Token.ofWord_eq_ok_iff h]
  cases Token.ofWord w <;> simp

namespace Token

/-- A word on its own is read as a number. -/
def ReadsNumber (w : List Char) : Prop :=
  ∃ x, tokenize (String.ofList w) = .ok [⟨0, .number x⟩]

/-- A sign and right after it a point. -/
def SignedPoint (w : List Char) : Prop := ∃ sign ∈ ['-', '+'], ∃ rest, w = sign :: '.' :: rest

theorem signedPoint_cons_iff {sign : Char} (hsign : sign ∈ ['-', '+']) {w : List Char} :
    SignedPoint (sign :: w) ↔ w.head? = some '.' := by
  rw [List.head?_eq_some_iff]
  constructor
  · rintro ⟨_, -, rest, heq⟩
    exact ⟨rest, (List.cons.inj heq).2⟩
  · rintro ⟨rest, rfl⟩
    exact ⟨sign, hsign, rest, rfl⟩

theorem isSign_of_mem {sign : Char} (h : sign ∈ ['-', '+']) : IsSign [sign] := by
  simp only [List.mem_cons, List.not_mem_nil, or_false] at h
  rcases h with rfl | rfl
  · exact .minus
  · exact .plus

theorem IsWord.sign {sign : Char} (hsign : sign ∈ ['-', '+']) {w : List Char} (h : IsWord w) :
    IsWord (sign :: w) := by
  refine ⟨List.cons_ne_nil sign w, List.forall_mem_cons.mpr ⟨?_, h.2⟩⟩
  cases isSign_of_mem hsign with
  | minus => rfl
  | plus => rfl

theorem readsNumber_iff_ofText? {w : List Char} (h : IsWord w) :
    ReadsNumber w ↔ beginsNumber w = true ∧ (ofText? (String.ofList w)).isSome = true := by
  simp only [ReadsNumber, tokenize_word_eq_ok_iff h, Option.isSome_iff_exists]
  constructor
  · rintro ⟨x, hx⟩
    cases hx with
    | number _ hbegins hvalue => exact ⟨hbegins, x, hvalue⟩
  · rintro ⟨hbegins, x, hx⟩
    exact ⟨x, .number h hbegins hx⟩

/-! ## What begins like a number -/

theorem beginsNumber_iff {w : List Char} : beginsNumber w = true ↔
    (∃ d rest, d.isDigit = true ∧ w = d :: rest) ∨
      ∃ c ∈ ['-', '+', '.'], ∃ d rest, d.isDigit = true ∧ w = c :: d :: rest := by
  cases w with
  | nil => simp [beginsNumber]
  | cons c rest =>
      cases rest with
      | nil => simp [beginsNumber]
      | cons d rest =>
          simp [beginsNumber]
          grind

/-- Once it begins like a number, a word is a number if it is a decimal. -/
theorem isSome_ofText?_iff {w : List Char} (h : beginsNumber w = true) :
    (ofText? (String.ofList w)).isSome = true ↔ IsDecimal w := by
  have hbegins : ∃ c rest, (c.isDigit = true ∨ c = '.') ∧ (splitSign w).2 = c :: rest := by
    rcases beginsNumber_iff.mp h with ⟨d, rest, hd, rfl⟩ | ⟨c, hc, d, rest, hd, rfl⟩
    · refine ⟨d, rest, .inl hd, splitSign_append .none ?_⟩
      intro c hc
      obtain rfl := Option.some.inj hc
      exact not_sign_of_isDigit hd
    · simp only [List.mem_cons, List.not_mem_nil, or_false] at hc
      rcases hc with rfl | rfl | rfl
      · exact ⟨d, rest, .inl hd, rfl⟩
      · exact ⟨d, rest, .inl hd, rfl⟩
      · exact ⟨'.', d :: rest, .inr rfl, rfl⟩
  obtain ⟨c, rest, hc, hsplit⟩ := hbegins
  rw [isDecimal_iff, ofText?, Double.Format.read?_eq, String.toList_ofList, hsplit,
    readUnsigned?_cons hc, Option.isSome_map]

/-- A decimal begins like a number unless its point comes right after its sign. -/
theorem beginsNumber_of_isDecimal {w : List Char} (h : IsDecimal w) :
    beginsNumber w = true ↔ ¬ SignedPoint w := by
  rw [beginsNumber_iff]
  constructor
  · rintro hbegins ⟨sign, hsign, rest, rfl⟩
    simp only [List.mem_cons, List.not_mem_nil, or_false] at hsign
    rcases hbegins with ⟨d, _, hd, heq⟩ | ⟨_, -, d, _, hd, heq⟩
    · obtain rfl := (List.cons.inj heq).1
      rcases hsign with rfl | rfl
      · exact absurd hd (by decide)
      · exact absurd hd (by decide)
    · obtain rfl := (List.cons.inj (List.cons.inj heq).2).1
      exact absurd hd (by decide)
  · intro hpoint
    obtain ⟨sign, unsigned, hsign, hunsigned, rfl⟩ := h
    rcases hunsigned.begins with ⟨d, rest, hd, rfl⟩ | ⟨d, rest, hd, rfl⟩
    · cases hsign with
      | none => exact .inl ⟨d, rest, hd, rfl⟩
      | minus => exact .inr ⟨'-', by simp, d, rest, hd, rfl⟩
      | plus => exact .inr ⟨'+', by simp, d, rest, hd, rfl⟩
    · cases hsign with
      | none => exact .inr ⟨'.', by simp, d, rest, hd, rfl⟩
      | minus => exact absurd ⟨'-', by simp, d :: rest, rfl⟩ hpoint
      | plus => exact absurd ⟨'+', by simp, d :: rest, rfl⟩ hpoint

/-- A word with a point right after its sign is a symbol. -/
theorem isName_of_signedPoint {w : List Char} (h : IsWord w) (hpoint : SignedPoint w) :
    IsName (String.ofList w) := by
  obtain ⟨sign, hsign, rest, rfl⟩ := hpoint
  simp only [List.mem_cons, List.not_mem_nil, or_false] at hsign
  refine ⟨?_, ?_, ?_, ?_⟩
  · rwa [String.toList_ofList]
  · rw [String.toList_ofList]
    rcases hsign with rfl | rfl
    · exact nofun
    · exact nofun
  · intro hconstant
    simp only [constants, List.mem_cons, List.not_mem_nil, or_false] at hconstant
    rcases hconstant with hword | hword | hword | hword
    all_goals
      obtain ⟨rfl, -⟩ := List.cons.inj (toList_of_ofList_eq hword)
      exact absurd hsign (by decide)
  · rw [String.toList_ofList]
    rcases hsign with rfl | rfl
    · rfl
    · rfl

end Token

open Token

/-! ## Numbers -/

/-- A word is a number exactly if it is a decimal without a point right after its sign; so words
without a digit are none.  With such a point it is a symbol.  To a decimal without a sign, which
is a number, a sign can be added unless it begins with a point. -/
theorem readsNumber_iff {w : List Char} (h : IsWord w) :
    (ReadsNumber w ↔ IsDecimal w ∧ ¬ SignedPoint w) ∧
      (ReadsNumber w → ∃ c ∈ w, c.isDigit = true) ∧
      (SignedPoint w → tokenize (String.ofList w) = .ok [⟨0, .symbol (String.ofList w)⟩]) ∧
      (IsUnsigned w → ReadsNumber w ∧
        ∀ sign ∈ ['-', '+'], ReadsNumber (sign :: w) ↔ w.head? ≠ some '.') := by
  have hiff {w : List Char} (h : IsWord w) : ReadsNumber w ↔ IsDecimal w ∧ ¬ SignedPoint w := by
    rw [readsNumber_iff_ofText? h]
    constructor
    · rintro ⟨hbegins, hvalue⟩
      have hdecimal := (isSome_ofText?_iff hbegins).mp hvalue
      exact ⟨hdecimal, (beginsNumber_of_isDecimal hdecimal).mp hbegins⟩
    · rintro ⟨hdecimal, hpoint⟩
      have hbegins := (beginsNumber_of_isDecimal hdecimal).mpr hpoint
      exact ⟨hbegins, (isSome_ofText?_iff hbegins).mpr hdecimal⟩
  refine ⟨hiff h, ?_, ?_, ?_⟩
  · intro hnumber
    have hbegins := ((readsNumber_iff_ofText? h).mp hnumber).1
    rcases beginsNumber_iff.mp hbegins with ⟨d, rest, hd, rfl⟩ | ⟨c, -, d, rest, hd, rfl⟩
    · exact ⟨d, by simp, hd⟩
    · exact ⟨d, by simp, hd⟩
  · intro hpoint
    have hspelled := Spelled.symbol (isName_of_signedPoint h hpoint)
    rw [String.toList_ofList] at hspelled
    exact (tokenize_word_eq_ok_iff h).mpr hspelled
  · intro hunsigned
    have hpoint : ¬ SignedPoint w := by
      rintro ⟨sign, hsign, rest, rfl⟩
      rcases hunsigned.begins with ⟨d, _, hd, heq⟩ | ⟨d, _, -, heq⟩
      · obtain ⟨rfl, -⟩ := List.cons.inj heq
        have hne := not_sign_of_isDigit hd
        simp [hne] at hsign
      · obtain ⟨rfl, -⟩ := List.cons.inj heq
        exact absurd hsign (by decide)
    refine ⟨(hiff h).mpr ⟨⟨[], w, .none, hunsigned, rfl⟩, hpoint⟩, ?_⟩
    intro sign hsign
    have hdecimal : IsDecimal (sign :: w) := ⟨[sign], w, isSign_of_mem hsign, hunsigned, rfl⟩
    rw [hiff (h.sign hsign), signedPoint_cons_iff hsign]
    exact and_iff_right hdecimal

/-- Fifty with a point in front, where a sign may not stand, and with one inside, where it may. -/
theorem readsNumber_iff_fifty :
    IsWord ".5E+2".toList ∧ ReadsNumber ".5E+2".toList ∧
      tokenize "-.5E+2" = .ok [⟨0, .symbol "-.5E+2"⟩] ∧
      IsWord "5.0e1".toList ∧ ReadsNumber ("-5.0e1".toList) ∧ ReadsNumber ("+5.0e1".toList) ∧
      IsWord "infinity".toList ∧ ¬ ReadsNumber "infinity".toList := by
  have hdigit {d : Char} (hd : d.isDigit = true) : [d] ≠ [] ∧ AllDigits [d] :=
    ⟨nofun, List.forall_mem_singleton.mpr hd⟩
  obtain ⟨-, h0⟩ := hdigit (show '0'.isDigit = true from rfl)
  obtain ⟨hne1, h1⟩ := hdigit (show '1'.isDigit = true from rfl)
  obtain ⟨hne2, h2⟩ := hdigit (show '2'.isDigit = true from rfl)
  obtain ⟨hne5, h5⟩ := hdigit (show '5'.isDigit = true from rfl)
  have hfraction : IsUnsigned ".5E+2".toList :=
    ⟨_, _, .fraction hne5 h5, .some (.inr rfl) .plus hne2 h2, rfl⟩
  have hpoint : IsUnsigned "5.0e1".toList :=
    ⟨_, _, .point hne5 h5 h0, .some (.inl rfl) .none hne1 h1, rfl⟩
  have hsigned : IsWord "-.5E+2".toList := by decide
  have hfifty := (readsNumber_iff (by decide)).2.2.2 hpoint
  refine ⟨by decide, ((readsNumber_iff (by decide)).2.2.2 hfraction).1, ?_, by decide,
    (hfifty.2 '-' (by simp)).mpr (by decide), (hfifty.2 '+' (by simp)).mpr (by decide),
    by decide, ?_⟩
  · exact (readsNumber_iff hsigned).2.2.1 ⟨'-', by simp, _, rfl⟩
  · intro hnumber
    obtain ⟨c, hc, hdigit⟩ := (readsNumber_iff (by decide)).2.1 hnumber
    have hletters : ("infinity".toList.all fun c => !c.isDigit) = true := rfl
    have hletter := List.all_eq_true.mp hletters c hc
    rw [hdigit] at hletter
    exact nomatch hletter

/-- Not every decimal is a number. -/
theorem not_readsNumber_of_isDecimal :
    ¬ ∀ w, IsWord w → (ReadsNumber w ↔ IsDecimal w) := by
  intro hall
  have hdecimal : IsDecimal "-.5".toList :=
    ⟨['-'], ['.', '5'], .minus, ⟨['.', '5'], [], .fraction nofun (by simp [AllDigits]), .none, rfl⟩,
      rfl⟩
  obtain ⟨x, hx⟩ := (hall _ (by decide)).mpr hdecimal
  have hsymbol : tokenize (String.ofList "-.5".toList) = .ok [⟨0, .symbol "-.5"⟩] := rfl
  rw [hsymbol] at hx
  cases hx

end Reql
