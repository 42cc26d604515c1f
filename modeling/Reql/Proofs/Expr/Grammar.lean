/-
# `Reql.Proofs.Expr.Grammar` — well-formed expressions and the tokens that write them

`WellFormed` says which expressions can be written at all.  It does not look at tokens.

`Phrase e ts` says that the placed tokens `ts` write the expression `e`.  An expression is
written in more than one way: a key is a string or a keyword, options stand anywhere
among the arguments, and their names may have dashes for underscores.  Otherwise every
token is determined, and the offsets in the expression are those of its names.
-/
import Reql.Proofs.Expr.Layout
import Reql.Proofs.Expr.Moves
import Reql.Proofs.Hygiene.Place

namespace Reql.Expr

/-! ## Well-formed expressions -/

/-- Whether an expression has brackets around it. -/
def isBracket : Expr → Bool
  | .vector _ => true
  | .map _ => true
  | .call _ _ _ _ => true
  | .fn _ _ => true
  | _ => false

mutual

/-- How many brackets are around the innermost part. -/
def nesting : Expr → Nat
  | .null => 0
  | .bool _ => 0
  | .number _ => 0
  | .string _ => 0
  | .symbol _ _ => 0
  | .vector items => itemNesting items + 1
  | .map entries => entryNesting entries + 1
  | .call _ _ args options => max (itemNesting args) (entryNesting options) + 1
  | .fn _ body => nesting body + 1

def itemNesting : List Expr → Nat
  | [] => 0
  | e :: rest => max (nesting e) (itemNesting rest)

def entryNesting : List (String × Expr) → Nat
  | [] => 0
  | (_, e) :: rest => max (nesting e) (entryNesting rest)

end

/-- The name of an option, with underscores for dashes. -/
def IsOptionName (name : String) : Prop := Token.IsWord name.toList ∧ '-' ∉ name.toList

/-- The words of an expression itself can be written. -/
def Spellable : Expr → Prop
  | .number value => value ≠ .nan
  | .symbol name _ => Token.IsName name
  | .call head _ _ options =>
    Token.IsName head ∧ ∀ name ∈ options.map Prod.fst, IsOptionName name
  | .fn params _ => ∀ name ∈ params, Token.IsName name
  | _ => True

/-- The names of an expression itself are distinct, and no invocation reads as a function. -/
def Regular : Expr → Prop
  | .map entries => (entries.map Prod.fst).Nodup
  | .call head _ _ _ => head ≠ "fn"
  | .fn params _ => params.Nodup
  | _ => True

/-- An expression that can be written. -/
structure WellFormed (e : Expr) : Prop where
  nesting_le : e.nesting ≤ 128
  regular : e.Everywhere Regular
  spellable : e.Everywhere Spellable

/-! ## Phrases -/

/-- An entry of a map with its key as a token and the tokens of its value. -/
structure Entry where
  key : Placed Token
  name : String
  isKey : key.value.IsKey name
  value : Expr
  tokens : List (Placed Token)

def Entry.entry (p : Entry) : String × Expr := (p.name, p.value)

def Entry.written (p : Entry) : List (Placed Token) := p.key :: p.tokens

/-- What an invocation is given in one place: an argument, or an option after its keyword. -/
structure Operand where
  keyword : Option (Placed String)
  value : Expr
  tokens : List (Placed Token)

def Operand.arg? (p : Operand) : Option Expr :=
  match p.keyword with
  | none => some p.value
  | some _ => none

def Operand.option? (p : Operand) : Option (String × Expr) :=
  p.keyword.map fun keyword => (Text.replaceChar '-' '_' keyword.value, p.value)

def Operand.written (p : Operand) : List (Placed Token) :=
  (p.keyword.map fun keyword => ⟨keyword.offset, .keyword keyword.value⟩).toList ++ p.tokens

/-- Names as symbols. -/
def symbols (names : List (Placed String)) : List (Placed Token) :=
  names.map fun name => ⟨name.offset, .symbol name.value⟩

/-- Tokens write an expression. -/
inductive Phrase : Expr → List (Placed Token) → Prop where
  | leaf {token : Placed Token} {e : Expr} : token.leaf? = some e → Phrase e [token]
  | vector {opened closed : Nat} {parts : List (Expr × List (Placed Token))} :
      (∀ p ∈ parts, Phrase p.1 p.2) →
      Phrase (.vector (parts.map Prod.fst))
        (⟨opened, .openVector⟩ :: (parts.flatMap Prod.snd ++ [⟨closed, .closeVector⟩]))
  | map {opened closed : Nat} {parts : List Entry} : (∀ p ∈ parts, Phrase p.value p.tokens) →
      Phrase (.map (parts.map Entry.entry))
        (⟨opened, .openMap⟩ :: (parts.flatMap Entry.written ++ [⟨closed, .closeMap⟩]))
  | call {opened closed : Nat} {head : Placed String} {parts : List Operand} :
      (∀ p ∈ parts, Phrase p.value p.tokens) →
      Phrase (.call head.value head.offset (parts.filterMap Operand.arg?)
          (parts.filterMap Operand.option?))
        (⟨opened, .openList⟩ :: ⟨head.offset, .symbol head.value⟩ ::
          (parts.flatMap Operand.written ++ [⟨closed, .closeList⟩]))
  | fn {opened word openedVector closedVector closed : Nat} {params : List (Placed String)}
      {body : Expr} {ts : List (Placed Token)} : Phrase body ts →
      Phrase (.fn (params.map Placed.value) body)
        (⟨opened, .openList⟩ :: ⟨word, .symbol "fn"⟩ :: ⟨openedVector, .openVector⟩ ::
          (symbols params ++ ⟨closedVector, .closeVector⟩ :: (ts ++ [⟨closed, .closeList⟩])))

/-! ## Nesting -/

theorem itemNesting_le_iff {items : List Expr} {room : Nat} :
    itemNesting items ≤ room ↔ ∀ e ∈ items, e.nesting ≤ room := by
  induction items with
  | nil => simp [itemNesting]
  | cons e rest ih => rw [itemNesting, Nat.max_le, ih, List.forall_mem_cons]

theorem entryNesting_eq (entries : List (String × Expr)) :
    entryNesting entries = itemNesting (entries.map Prod.snd) := by
  induction entries with
  | nil => rfl
  | cons entry rest ih => rw [entryNesting, ih, List.map_cons, itemNesting]

theorem nesting_le_succ_iff {e : Expr} (h : e.isBracket = true) {room : Nat} :
    e.nesting ≤ room + 1 ↔ ∀ c ∈ e.children, c.nesting ≤ room := by
  cases e with
  | vector items => simp [nesting, children, itemNesting_le_iff]
  | map entries => simp only [nesting, children, entryNesting_eq, Nat.add_le_add_iff_right,
      itemNesting_le_iff]
  | call head offset args options =>
      simp only [nesting, children, entryNesting_eq, Nat.add_le_add_iff_right, Nat.max_le,
        itemNesting_le_iff, List.mem_append, or_imp, forall_and]
  | fn params body => simp [nesting, children]
  | _ => exact nomatch h

theorem nesting_pos {e : Expr} (h : e.isBracket = true) : 0 < e.nesting := by
  cases e with
  | vector _ | map _ | call _ _ _ _ | fn _ _ => exact Nat.succ_pos _
  | _ => exact nomatch h

/-- What the reader checks of an expression with room for some brackets. -/
structure Fits (room : Nat) (e : Expr) : Prop where
  nesting_le : e.nesting ≤ room
  regular : e.Everywhere Regular

theorem fits_bracket_iff {e : Expr} (h : e.isBracket = true) {room : Nat} :
    Fits (room + 1) e ↔ e.Regular ∧ ∀ c ∈ e.children, Fits room c := by
  constructor
  · rintro ⟨hnesting, hregular⟩
    obtain ⟨hown, hchildren⟩ := everywhere_iff.mp hregular
    exact ⟨hown, fun c hc => ⟨(nesting_le_succ_iff h).mp hnesting c hc, hchildren c hc⟩⟩
  · rintro ⟨hown, hchildren⟩
    exact ⟨(nesting_le_succ_iff h).mpr fun c hc => (hchildren c hc).nesting_le,
      everywhere_iff.mpr ⟨hown, fun c hc => (hchildren c hc).regular⟩⟩

/-- Brackets need room. -/
theorem Fits.exists_room {e : Expr} {room : Nat} (hfits : Fits room e) (h : e.isBracket = true) :
    ∃ inner, room = inner + 1 :=
  Nat.exists_eq_add_one.mpr (Nat.lt_of_lt_of_le (nesting_pos h) hfits.nesting_le)

theorem fits_of_leaf? {token : Placed Token} {e : Expr} (h : token.leaf? = some e) (room : Nat) :
    Fits room e := by
  obtain ⟨offset, value⟩ := token
  cases value with
  | null | bool _ | number _ | string _ | symbol _ =>
      obtain rfl := Option.some.inj h
      exact ⟨Nat.zero_le _, everywhere_of_leaf rfl trivial⟩
  | _ => exact nomatch h

/-! ## The words of a phrase -/

section

variable {parts : List Operand}

/-- The operands of an invocation are its arguments and the values of its options. -/
theorem mem_operands {c : Expr} :
    c ∈ parts.filterMap Operand.arg? ++ (parts.filterMap Operand.option?).map Prod.snd ↔
      ∃ p ∈ parts, p.value = c := by
  simp only [List.mem_append, List.mem_filterMap, List.mem_map]
  constructor
  · rintro (⟨p, hp, hc⟩ | ⟨_, ⟨p, hp, hoption⟩, rfl⟩)
    · unfold Operand.arg? at hc
      split at hc
      · exact ⟨p, hp, Option.some.inj hc⟩
      · exact nomatch hc
    · obtain ⟨keyword, -, rfl⟩ := Option.map_eq_some_iff.mp hoption
      exact ⟨p, hp, rfl⟩
  · rintro ⟨p, hp, rfl⟩
    cases hkeyword : p.keyword with
    | none => exact .inl ⟨p, hp, by rw [Operand.arg?, hkeyword]⟩
    | some keyword => exact .inr ⟨_, ⟨p, hp, by rw [Operand.option?, hkeyword]; rfl⟩, rfl⟩

end

theorem spellable_of_leaf? {token : Placed Token} {e : Expr} (h : token.leaf? = some e)
    (hproper : token.value.Proper) : e.Everywhere Spellable := by
  obtain ⟨offset, value⟩ := token
  cases value with
  | null | bool _ | string _ =>
      obtain rfl := Option.some.inj h
      exact everywhere_of_leaf rfl trivial
  | number _ | symbol _ =>
      obtain rfl := Option.some.inj h
      exact everywhere_of_leaf rfl hproper
  | _ => exact nomatch h

/-- A keyword with its dashes folded names an option. -/
theorem isOptionName_of_keyword {keyword : String} (h : Token.IsWord keyword.toList) :
    IsOptionName (Text.replaceChar '-' '_' keyword) := by
  obtain ⟨hne, hletters⟩ := h
  unfold IsOptionName Text.replaceChar
  rw [String.toList_ofList]
  refine ⟨⟨by simpa using hne, ?_⟩, ?_⟩
  · intro c hc
    obtain ⟨d, hd, rfl⟩ := List.mem_map.mp hc
    split
    · rfl
    · exact hletters d hd
  · intro hdash
    obtain ⟨d, -, hd⟩ := List.mem_map.mp hdash
    split at hd
    · exact absurd hd (by decide)
    · next hne => exact hne hd

/-- An expression of proper tokens is spellable. -/
theorem Phrase.spellable {e : Expr} {ts : List (Placed Token)} (h : Phrase e ts)
    (hproper : ∀ t ∈ ts, t.value.Proper) : e.Everywhere Spellable := by
  induction h with
  | leaf hleaf => exact spellable_of_leaf? hleaf (hproper _ (.head _))
  | @vector opened closed parts _ ih =>
      refine everywhere_iff.mpr ⟨trivial, ?_⟩
      intro c hc
      obtain ⟨p, hp, rfl⟩ := List.mem_map.mp hc
      refine ih p hp fun t ht => hproper t (.tail _ ?_)
      exact List.mem_append_left _ (List.mem_flatMap.mpr ⟨p, hp, ht⟩)
  | @map opened closed parts _ ih =>
      refine everywhere_iff.mpr ⟨trivial, ?_⟩
      intro c hc
      rw [children, List.map_map] at hc
      obtain ⟨p, hp, rfl⟩ := List.mem_map.mp hc
      refine ih p hp fun t ht => hproper t (.tail _ ?_)
      exact List.mem_append_left _ (List.mem_flatMap.mpr ⟨p, hp, .tail _ ht⟩)
  | @call opened closed head parts _ ih =>
      have hparts {p : Operand} (hp : p ∈ parts) {t : Placed Token} (ht : t ∈ p.written) :
          t.value.Proper :=
        hproper t (.tail _ (.tail _ (List.mem_append_left _ (List.mem_flatMap.mpr ⟨p, hp, ht⟩))))
      refine everywhere_iff.mpr ⟨⟨hproper _ (.tail _ (.head _)), ?_⟩, ?_⟩
      · intro name hname
        obtain ⟨option, hoption, rfl⟩ := List.mem_map.mp hname
        obtain ⟨p, hp, hoption⟩ := List.mem_filterMap.mp hoption
        obtain ⟨keyword, hkeyword, rfl⟩ := Option.map_eq_some_iff.mp hoption
        have hword : Token.Proper (.keyword keyword.value) :=
          hparts hp (t := ⟨keyword.offset, .keyword keyword.value⟩)
            (by simp [Operand.written, hkeyword])
        exact isOptionName_of_keyword hword
      · intro c hc
        obtain ⟨p, hp, rfl⟩ := mem_operands.mp hc
        exact ih p hp fun t ht => hparts hp (List.mem_append_right _ ht)
  | @fn opened word openedVector closedVector closed params body ts _ ih =>
      refine everywhere_iff.mpr ⟨?_, ?_⟩
      · intro name hname
        obtain ⟨param, hparam, rfl⟩ := List.mem_map.mp hname
        refine hproper ⟨param.offset, .symbol param.value⟩ (.tail _ (.tail _ (.tail _ ?_)))
        exact List.mem_append_left _ (List.mem_map_of_mem hparam)
      · intro c hc
        obtain rfl := List.mem_singleton.mp hc
        refine ih fun t ht => hproper t (.tail _ (.tail _ (.tail _ ?_)))
        exact List.mem_append_right _ (.tail _ (List.mem_append_left _ ht))

end Reql.Expr
