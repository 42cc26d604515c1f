/-
# `Reql.Proofs.Expr.Written` — a written expression reads back

However a well-formed expression is written, the reader gives it back, up to the offsets of
its names (`parse_complete`).  The offsets are new, as they are those of the text, so the
phrase of the expression is moved to where the tokens of the text stand (`Phrase.moved`).
-/
import Reql.Proofs.Expr.Reading

namespace Reql.Expr

/-! ## Without offsets -/

mutual

/-- An expression without the offsets of its names. -/
def unplaced : Expr → Expr
  | .null => .null
  | .bool value => .bool value
  | .number value => .number value
  | .string value => .string value
  | .symbol name _ => .symbol name 0
  | .vector items => .vector (unplacedItems items)
  | .map entries => .map (unplacedEntries entries)
  | .call head _ args options => .call head 0 (unplacedItems args) (unplacedEntries options)
  | .fn params body => .fn params (unplaced body)

def unplacedItems : List Expr → List Expr
  | [] => []
  | e :: rest => unplaced e :: unplacedItems rest

def unplacedEntries : List (String × Expr) → List (String × Expr)
  | [] => []
  | (name, e) :: rest => (name, unplaced e) :: unplacedEntries rest

end

theorem unplacedItems_eq (items : List Expr) : unplacedItems items = items.map unplaced := by
  induction items with
  | nil => rfl
  | cons e rest ih => rw [unplacedItems, ih, List.map_cons]

theorem unplacedEntries_eq (entries : List (String × Expr)) :
    unplacedEntries entries = entries.map (Prod.map id unplaced) := by
  induction entries with
  | nil => rfl
  | cons entry rest ih =>
      rw [unplacedEntries, ih, List.map_cons]
      rfl

theorem children_unplaced (e : Expr) : e.unplaced.children = e.children.map unplaced := by
  cases e with
  | vector items => simp [unplaced, children, unplacedItems_eq]
  | map entries => simp [unplaced, children, unplacedEntries_eq, Function.comp_def]
  | call head offset args options =>
      simp [unplaced, children, unplacedItems_eq, unplacedEntries_eq, Function.comp_def]
  | _ => simp [unplaced, children]

theorem at?_unplaced (e : Expr) (q : List Nat) : e.unplaced.at? q = (e.at? q).map unplaced := by
  induction q generalizing e with
  | nil => rfl
  | cons i q ih =>
      rw [at?_cons, at?_cons, children_unplaced, List.getElem?_map]
      cases e.children[i]? with
      | none => rfl
      | some c => exact ih c

theorem regular_unplaced (e : Expr) : e.unplaced.Regular ↔ e.Regular := by
  cases e with
  | map entries => simp [unplaced, Regular, unplacedEntries_eq, Function.comp_def]
  | _ => simp [unplaced, Regular]

theorem everywhere_regular_unplaced (e : Expr) :
    e.unplaced.Everywhere Regular ↔ e.Everywhere Regular := by
  constructor
  · intro h q d hd
    exact (regular_unplaced d).mp (h q _ (by rw [at?_unplaced, hd]; rfl))
  · intro h q d hd
    rw [at?_unplaced] at hd
    obtain ⟨c, hc, rfl⟩ := Option.map_eq_some_iff.mp hd
    exact (regular_unplaced c).mpr (h q c hc)

mutual

theorem nesting_unplaced : ∀ e : Expr, e.unplaced.nesting = e.nesting
  | .null => rfl
  | .bool _ => rfl
  | .number _ => rfl
  | .string _ => rfl
  | .symbol _ _ => rfl
  | .vector items => by rw [unplaced, nesting, nesting, itemNesting_unplaced items]
  | .map entries => by rw [unplaced, nesting, nesting, entryNesting_unplaced entries]
  | .call _ _ args options => by
      rw [unplaced, nesting, nesting, itemNesting_unplaced args, entryNesting_unplaced options]
  | .fn _ body => by rw [unplaced, nesting, nesting, nesting_unplaced body]

theorem itemNesting_unplaced : ∀ items : List Expr,
    itemNesting (unplacedItems items) = itemNesting items
  | [] => rfl
  | e :: rest => by
      rw [unplacedItems, itemNesting, itemNesting, nesting_unplaced e, itemNesting_unplaced rest]

theorem entryNesting_unplaced : ∀ entries : List (String × Expr),
    entryNesting (unplacedEntries entries) = entryNesting entries
  | [] => rfl
  | (_, e) :: rest => by
      rw [unplacedEntries, entryNesting, entryNesting, nesting_unplaced e,
        entryNesting_unplaced rest]

end

/-- Offsets do not matter for what fits. -/
theorem Fits.of_unplaced_eq {d e : Expr} {room : Nat} (h : Fits room e)
    (heq : d.unplaced = e.unplaced) : Fits room d where
  nesting_le := by
    rw [← nesting_unplaced, heq, nesting_unplaced]
    exact h.nesting_le
  regular := by
    rw [← everywhere_regular_unplaced, heq, everywhere_regular_unplaced]
    exact h.regular

/-! ## Moving a phrase -/

/-- The same tokens, wherever they stand. -/
def SameTokens (ts us : List (Placed Token)) : Prop := ts.map Placed.value = us.map Placed.value

theorem sameTokens_append_iff {ts us vs : List (Placed Token)} :
    SameTokens ts (us ++ vs) ↔
      ∃ us' vs', ts = us' ++ vs' ∧ SameTokens us' us ∧ SameTokens vs' vs := by
  unfold SameTokens
  rw [List.map_append, List.map_eq_append_iff]

theorem sameTokens_cons_iff {ts us : List (Placed Token)} {offset : Nat} {token : Token} :
    SameTokens ts (⟨offset, token⟩ :: us) ↔
      ∃ place us', ts = ⟨place, token⟩ :: us' ∧ SameTokens us' us := by
  unfold SameTokens
  rw [List.map_cons, List.map_eq_cons_iff]
  constructor
  · rintro ⟨⟨place, _⟩, us', rfl, rfl, h⟩
    exact ⟨place, us', rfl, h⟩
  · rintro ⟨place, us', rfl, h⟩
    exact ⟨_, us', rfl, rfl, h⟩

theorem sameTokens_nil_iff {ts : List (Placed Token)} : SameTokens ts [] ↔ ts = [] :=
  List.map_eq_nil_iff

theorem sameTokens_snoc_iff {ts us : List (Placed Token)} {offset : Nat} {token : Token} :
    SameTokens ts (us ++ [⟨offset, token⟩]) ↔
      ∃ us' place, ts = us' ++ [⟨place, token⟩] ∧ SameTokens us' us := by
  rw [sameTokens_append_iff]
  constructor
  · rintro ⟨us', last, rfl, hus, hlast⟩
    obtain ⟨place, rest, rfl, hrest⟩ := sameTokens_cons_iff.mp hlast
    obtain rfl := sameTokens_nil_iff.mp hrest
    exact ⟨us', place, rfl, hus⟩
  · rintro ⟨us', place, rfl, hus⟩
    exact ⟨us', _, rfl, hus, rfl⟩

/-- Parts one after another move when each of them does.  What stays of each is its `core`. -/
theorem exists_moved_parts {α β : Type} {written : α → List (Placed Token)} {good : α → Prop}
    {core : α → β} {parts : List α}
    (h : ∀ p ∈ parts, ∀ ts, SameTokens ts (written p) →
      ∃ p', good p' ∧ written p' = ts ∧ core p' = core p)
    {ts : List (Placed Token)} (hts : SameTokens ts (parts.flatMap written)) :
    ∃ parts' : List α, (∀ p ∈ parts', good p) ∧ parts'.flatMap written = ts ∧
      parts'.map core = parts.map core := by
  induction parts generalizing ts with
  | nil =>
      obtain rfl := sameTokens_nil_iff.mp hts
      exact ⟨[], List.forall_mem_nil _, rfl, rfl⟩
  | cons p parts ih =>
      obtain ⟨hp, hparts⟩ := List.forall_mem_cons.mp h
      obtain ⟨us, vs, rfl, hus, hvs⟩ := sameTokens_append_iff.mp hts
      obtain ⟨p', hgood, rfl, hcore⟩ := hp us hus
      obtain ⟨parts', hgoods, rfl, hcores⟩ := ih hparts hvs
      exact ⟨p' :: parts', List.forall_mem_cons.mpr ⟨hgood, hgoods⟩, rfl,
        by rw [List.map_cons, List.map_cons, hcore, hcores]⟩

/-- What an operand is, without offsets. -/
def Operand.core (p : Operand) : Option String × Expr :=
  (p.keyword.map Placed.value, p.value.unplaced)

theorem unplaced_args (parts : List Operand) :
    (parts.filterMap Operand.arg?).map unplaced =
      (parts.map Operand.core).filterMap fun (keyword, value) =>
        if keyword.isNone then some value else none := by
  rw [List.map_filterMap, List.filterMap_map]
  congr 1
  funext ⟨keyword, value, tokens⟩
  cases keyword with
  | none => rfl
  | some _ => rfl

theorem unplaced_options (parts : List Operand) :
    (parts.filterMap Operand.option?).map (Prod.map id unplaced) =
      (parts.map Operand.core).filterMap fun (keyword, value) =>
        keyword.map fun name => (Text.replaceChar '-' '_' name, value) := by
  rw [List.map_filterMap, List.filterMap_map]
  congr 1
  funext ⟨keyword, value, tokens⟩
  cases keyword with
  | none => rfl
  | some _ => rfl

theorem exists_moved_params {params : List (Placed String)} {ts : List (Placed Token)}
    (h : SameTokens ts (symbols params)) :
    ∃ params' : List (Placed String), symbols params' = ts ∧
      params'.map Placed.value = params.map Placed.value := by
  unfold symbols at h
  rw [List.map_eq_flatMap] at h
  obtain ⟨params', -, rfl, hparams⟩ := @exists_moved_parts _ _ _ (fun _ => True) Placed.value params
    (fun p _ us hus => by
      obtain ⟨place, us', rfl, hus'⟩ := sameTokens_cons_iff.mp hus
      obtain rfl := sameTokens_nil_iff.mp hus'
      exact ⟨⟨place, p.value⟩, trivial, rfl, rfl⟩) ts h
  exact ⟨params', List.map_eq_flatMap, hparams⟩

theorem exists_moved_entry {p : Entry}
    (h : ∀ us, SameTokens us p.tokens → ∃ d, Phrase d us ∧ d.unplaced = p.value.unplaced)
    {ts : List (Placed Token)} (hts : SameTokens ts p.written) :
    ∃ p' : Entry, Phrase p'.value p'.tokens ∧ p'.written = ts ∧
      Prod.map id unplaced p'.entry = Prod.map id unplaced p.entry := by
  obtain ⟨⟨offset, token⟩, name, hkey, value, tokens⟩ := p
  obtain ⟨place, us, rfl, hus⟩ := sameTokens_cons_iff.mp hts
  obtain ⟨d, hd, heq⟩ := h us hus
  exact ⟨⟨⟨place, token⟩, name, hkey, d, us⟩, hd, rfl, congrArg (Prod.mk name) heq⟩

theorem exists_moved_operand {p : Operand}
    (h : ∀ us, SameTokens us p.tokens → ∃ d, Phrase d us ∧ d.unplaced = p.value.unplaced)
    {ts : List (Placed Token)} (hts : SameTokens ts p.written) :
    ∃ p' : Operand, Phrase p'.value p'.tokens ∧ p'.written = ts ∧ p'.core = p.core := by
  obtain ⟨keyword, value, tokens⟩ := p
  cases keyword with
  | none =>
      obtain ⟨d, hd, heq⟩ := h ts hts
      exact ⟨⟨none, d, ts⟩, hd, rfl, congrArg (Prod.mk none) heq⟩
  | some keyword =>
      obtain ⟨place, us, rfl, hus⟩ := sameTokens_cons_iff.mp hts
      obtain ⟨d, hd, heq⟩ := h us hus
      exact ⟨⟨some ⟨place, keyword.value⟩, d, us⟩, hd, rfl,
        congrArg (Prod.mk (some keyword.value)) heq⟩

theorem exists_moved_leaf {token : Placed Token} {e : Expr} (h : token.leaf? = some e)
    (place : Nat) : ∃ d, Placed.leaf? ⟨place, token.value⟩ = some d ∧ d.unplaced = e.unplaced := by
  obtain ⟨offset, value⟩ := token
  cases value with
  | null | bool _ | number _ | string _ | symbol _ =>
      obtain rfl := Option.some.inj h
      exact ⟨_, rfl, rfl⟩
  | _ => exact nomatch h

/-- The tokens of a phrase write the same expression anywhere else. -/
theorem Phrase.moved {e : Expr} {us ts : List (Placed Token)} (h : Phrase e us)
    (hts : SameTokens ts us) : ∃ d, Phrase d ts ∧ d.unplaced = e.unplaced := by
  induction h generalizing ts with
  | @leaf token e hleaf =>
      obtain ⟨place, us', rfl, hus⟩ := sameTokens_cons_iff.mp hts
      obtain rfl := sameTokens_nil_iff.mp hus
      obtain ⟨d, hd, heq⟩ := exists_moved_leaf hleaf place
      exact ⟨d, .leaf hd, heq⟩
  | @vector opened closed parts _ ih =>
      obtain ⟨opened', rest, rfl, hrest⟩ := sameTokens_cons_iff.mp hts
      obtain ⟨us, closed', rfl, hus⟩ := sameTokens_snoc_iff.mp hrest
      obtain ⟨parts', hparts, rfl, hcore⟩ := @exists_moved_parts _ _ _ (fun p => Phrase p.1 p.2)
        (fun p : Expr × List (Placed Token) => p.1.unplaced) parts
        (fun p hp vs hvs => by
          obtain ⟨d, hd, heq⟩ := ih p hp hvs
          exact ⟨(d, vs), hd, rfl, heq⟩) us hus
      refine ⟨_, .vector hparts, ?_⟩
      rw [unplaced, unplaced, unplacedItems_eq, unplacedItems_eq, List.map_map, List.map_map]
      exact congrArg Expr.vector hcore
  | @map opened closed parts _ ih =>
      obtain ⟨opened', rest, rfl, hrest⟩ := sameTokens_cons_iff.mp hts
      obtain ⟨us, closed', rfl, hus⟩ := sameTokens_snoc_iff.mp hrest
      obtain ⟨parts', hparts, rfl, hcore⟩ := @exists_moved_parts _ _ _
        (fun p : Entry => Phrase p.value p.tokens)
        (fun p : Entry => Prod.map id unplaced p.entry) parts
        (fun p hp vs hvs => exists_moved_entry (fun us hus => ih p hp hus) hvs) us hus
      refine ⟨_, .map hparts, ?_⟩
      rw [unplaced, unplaced, unplacedEntries_eq, unplacedEntries_eq, List.map_map, List.map_map]
      exact congrArg Expr.map hcore
  | @call opened closed head parts _ ih =>
      obtain ⟨opened', rest, rfl, hrest⟩ := sameTokens_cons_iff.mp hts
      obtain ⟨place, rest, rfl, hrest'⟩ := sameTokens_cons_iff.mp hrest
      obtain ⟨us, closed', rfl, hus⟩ := sameTokens_snoc_iff.mp hrest'
      obtain ⟨parts', hparts, rfl, hcore⟩ := @exists_moved_parts _ _ _
        (fun p : Operand => Phrase p.value p.tokens) Operand.core parts
        (fun p hp vs hvs => exists_moved_operand (fun us hus => ih p hp hus) hvs) us hus
      let head' : Placed String := ⟨place, head.value⟩
      refine ⟨_, @Phrase.call opened' closed' head' parts' hparts, ?_⟩
      rw [unplaced, unplaced, unplacedItems_eq, unplacedItems_eq, unplacedEntries_eq,
        unplacedEntries_eq, unplaced_args, unplaced_args, unplaced_options, unplaced_options, hcore]
  | @fn opened word openedVector closedVector closed params body us _ ih =>
      obtain ⟨opened', rest₁, rfl, hrest₁⟩ := sameTokens_cons_iff.mp hts
      obtain ⟨word', rest₂, rfl, hrest₂⟩ := sameTokens_cons_iff.mp hrest₁
      obtain ⟨openedVector', rest₃, rfl, hrest₃⟩ := sameTokens_cons_iff.mp hrest₂
      obtain ⟨names, rest₄, rfl, hnames, hrest₄⟩ := sameTokens_append_iff.mp hrest₃
      obtain ⟨closedVector', rest₅, rfl, hrest₅⟩ := sameTokens_cons_iff.mp hrest₄
      obtain ⟨vs, closed', rfl, hvs⟩ := sameTokens_snoc_iff.mp hrest₅
      obtain ⟨params', rfl, hparams⟩ := exists_moved_params hnames
      obtain ⟨d, hd, heq⟩ := ih hvs
      refine ⟨_, .fn hd, ?_⟩
      rw [unplaced, unplaced, heq, hparams]

/-! ## Reading back -/

/-- Tokens, without their offsets, write an expression. -/
def Words (e : Expr) (words : List Token) : Prop := ∃ us, Phrase e us ∧ us.map Placed.value = words

theorem Words.exists_phrase {e : Expr} {ts : List (Placed Token)}
    (h : e.Words (ts.map Placed.value)) : ∃ d, Phrase d ts ∧ d.unplaced = e.unplaced := by
  obtain ⟨us, hus, hsame⟩ := h
  exact hus.moved hsame.symm

/-- However a well-formed expression is written, the text reads as that expression, with the
offsets that its names have in the text. -/
theorem parse_complete {e : Expr} {ts : List (Placed Token)} {text : String} (hwell : e.WellFormed)
    (hlayout : Token.Layout 0 ts text.toList) (hwords : e.Words (ts.map Placed.value)) :
    ∃ d, Expr.parse text = .ok d ∧ d.unplaced = e.unplaced ∧ Phrase d ts := by
  obtain ⟨us, hus, hsame⟩ := hwords
  obtain ⟨d, hd, heq⟩ := hus.moved hsame.symm
  have hfits : Fits Reader.maxNesting e := ⟨hwell.nesting_le, hwell.regular⟩
  refine ⟨d, ?_, heq, hd⟩
  exact parse_eq_ok_iff.mpr ⟨ts, tokenize_eq_ok_iff.mpr hlayout, hd, hfits.of_unplaced_eq heq⟩

/-- An option among the arguments, with a dash in its name, and an escape in a string. -/
theorem parse_complete_get :
    let e : Expr := .call "get" 0 [.string "a\"", .symbol "x" 0] [("read_mode", .null)]
    ∃ d, Expr.parse "(get, \"a\\\"\" :read-mode nil x) ; all" = .ok d ∧
      d.unplaced = e.unplaced := by
  intro e
  have hget : Token.IsName "get" := ⟨by decide, by decide, by decide, rfl⟩
  have hx : Token.IsName "x" := ⟨by decide, by decide, by decide, rfl⟩
  have hoption : IsOptionName "read_mode" := ⟨by decide, by decide⟩
  have hparts {P : Expr → Prop} (hstring : P (.string "a\"")) (hsymbol : P (.symbol "x" 0))
      (hnull : P .null) : ∀ c ∈ e.children, c.Everywhere P := by
    refine List.forall_mem_cons.mpr ⟨everywhere_of_leaf rfl hstring, ?_⟩
    refine List.forall_mem_cons.mpr ⟨everywhere_of_leaf rfl hsymbol, ?_⟩
    exact List.forall_mem_singleton.mpr (everywhere_of_leaf rfl hnull)
  have hwell : e.WellFormed := by
    refine ⟨by decide, everywhere_iff.mpr ⟨?_, hparts trivial trivial trivial⟩,
      everywhere_iff.mpr ⟨⟨hget, ?_⟩, hparts trivial hx trivial⟩⟩
    · exact (by decide : "get" ≠ "fn")
    · exact List.forall_mem_singleton.mpr hoption
  let parts : List Operand := [⟨none, .string "a\"", [⟨6, .string "a\""⟩]⟩,
    ⟨some ⟨12, "read-mode"⟩, .null, [⟨23, .null⟩]⟩, ⟨none, .symbol "x" 0, [⟨0, .symbol "x"⟩]⟩]
  have hphrases : ∀ p ∈ parts, Phrase p.value p.tokens := by
    refine List.forall_mem_cons.mpr ⟨.leaf rfl, List.forall_mem_cons.mpr ⟨.leaf rfl, ?_⟩⟩
    exact List.forall_mem_singleton.mpr (.leaf rfl)
  have hphrase := @Phrase.call 0 0 ⟨0, "get"⟩ parts hphrases
  have htokens : tokenize "(get, \"a\\\"\" :read-mode nil x) ; all" =
      .ok [⟨0, .openList⟩, ⟨1, .symbol "get"⟩, ⟨6, .string "a\""⟩, ⟨12, .keyword "read-mode"⟩,
        ⟨23, .null⟩, ⟨27, .symbol "x"⟩, ⟨28, .closeList⟩] := rfl
  obtain ⟨d, hd, heq, -⟩ :=
    parse_complete hwell (tokenize_eq_ok_iff.mp htokens) ⟨_, hphrase, rfl⟩
  exact ⟨d, hd, heq⟩

end Reql.Expr
