/-
# `Reql.Proofs.Hygiene.Binding` — the names in reach in a place

Functions around a place bring their parameters in reach, inner ones before outer ones.
A name found in the scope of a place is the parameter of the innermost function around
it that has one of that name (`binder_of_lookup`).  A name that no function around a
symbol has is out of reach where the symbol is looked up (`mention_of_symbolAt`).
-/
import Reql.Proofs.Hygiene.Numbers

namespace Reql.Expr

/-- The scope of the part in a place. -/
def scopeAt : Expr → Scope → Nat → List Nat → Scope
  | _, scope, _, [] => scope
  | e, scope, start, i :: q =>
    match e.children[i]? with
    | some c => c.scopeAt (e.innerScope scope start) (e.childStart start i) q
    | none => scope

variable {e c : Expr} {scope : Scope} {start i : Nat} {q : List Nat} {name : String}

theorem scopeAt_cons (hc : e.children[i]? = some c) (scope : Scope) (start : Nat) (q : List Nat) :
    e.scopeAt scope start (i :: q) =
      c.scopeAt (e.innerScope scope start) (e.childStart start i) q := by
  rw [scopeAt, hc]

theorem not_inside_root (q₁ : List Nat) : ¬ Inside [] q₁ := by
  rintro ⟨i, rest, h⟩
  exact absurd h (by simp)

/-! ## Names that are found -/

theorem lookup_parameters {params : List String} {id : Nat}
    (h : (params.zip (List.range' start params.length) ++ scope).lookup name = some id) :
    (∃ i, params[i]? = some name ∧ id = start + i) ∨
      name ∉ params ∧ scope.lookup name = some id := by
  induction params generalizing start with
  | nil => exact .inr ⟨List.not_mem_nil, h⟩
  | cons param rest ih =>
      rw [List.length_cons, List.range'_succ, List.zip_cons_cons, List.cons_append] at h
      by_cases hname : name = param
      · subst hname
        rw [List.lookup_cons_self] at h
        exact .inl ⟨0, rfl, (Option.some.inj h).symm⟩
      · rw [List.lookup_cons, beq_false_of_ne hname] at h
        rcases ih h with ⟨i, hi, rfl⟩ | ⟨hrest, hscope⟩
        · exact .inl ⟨i + 1, hi, by omega⟩
        · exact .inr ⟨List.not_mem_cons_of_ne_of_not_mem hname hrest, hscope⟩

/-- A name in reach of the parts is a parameter of the whole, or was in reach before. -/
theorem lookup_innerScope {id : Nat} (h : (e.innerScope scope start).lookup name = some id) :
    (∃ params body i, e = .fn params body ∧ params[i]? = some name ∧ id = start + i) ∨
      (∀ params, e.FunctionAt [] params → name ∉ params) ∧ scope.lookup name = some id := by
  cases e with
  | fn params body =>
      rcases lookup_parameters h with ⟨i, hi, rfl⟩ | ⟨hparams, hscope⟩
      · exact .inl ⟨params, body, i, rfl, hi, rfl⟩
      · refine .inr ⟨?_, hscope⟩
        intro params' hfunction
        obtain ⟨body', hbody⟩ := hfunction
        obtain ⟨rfl, rfl⟩ := Expr.fn.inj (Option.some.inj hbody)
        exact hparams
  | _ =>
      refine .inr ⟨?_, h⟩
      intro params hfunction
      obtain ⟨body, hbody⟩ := hfunction
      exact nomatch hbody

/-- A name in the scope of a place is a parameter of the innermost function around the
place that has one of that name, or was in reach before. -/
theorem binder_of_lookup {d : Expr} {id : Nat} (hq : e.at? q = some d)
    (h : (e.scopeAt scope start q).lookup name = some id) :
    (∃ q₀ params i, e.Binder q name q₀ params ∧ params[i]? = some name ∧
        id = e.numberAt start q₀ + i) ∨
      (∀ q₁ params, e.FunctionAt q₁ params → Inside q q₁ → name ∉ params) ∧
        scope.lookup name = some id := by
  induction q generalizing e scope start with
  | nil => exact .inr ⟨fun q₁ params _ hinside => absurd hinside (not_inside_root q₁), h⟩
  | cons i q ih =>
      obtain ⟨c, hc, hq⟩ := at?_cons_eq_some_iff.mp hq
      rw [scopeAt_cons hc] at h
      rcases ih hq h with ⟨q₀, params, k, hbinder, hk, rfl⟩ | ⟨hnone, hinner⟩
      · exact .inl ⟨i :: q₀, params, k, hbinder.cons hc, hk, by rw [numberAt_cons hc]⟩
      -- functions within the part do not bind the name, so those of the rest count
      · rcases lookup_innerScope hinner with ⟨params, body, k, rfl, hk, rfl⟩ | ⟨hroot, hscope⟩
        · refine .inl ⟨[], params, k, ?_, hk, rfl⟩
          refine ⟨⟨body, rfl⟩, inside_root i q, List.mem_of_getElem? hk, ?_⟩
          intro q₁ params₁ hfunction hinside hname
          rcases inside_cases hinside with rfl | ⟨q₂, rfl, hinner⟩
          · exact Nat.le_refl _
          · exact absurd hname (hnone q₂ params₁ ((functionAt_cons hc).mp hfunction) hinner)
        · refine .inr ⟨?_, hscope⟩
          intro q₁ params₁ hfunction hinside
          rcases inside_cases hinside with rfl | ⟨q₂, rfl, hinner⟩
          · exact hroot params₁ hfunction
          · exact hnone q₂ params₁ ((functionAt_cons hc).mp hfunction) hinner

/-! ## Names that are not -/

/-- The names in reach of the parts of an expression. -/
def innerReach (reach : List String) : Expr → List String
  | .fn params _ => params ++ reach
  | _ => reach

theorem mem_itemMentions {reach : List String} {mention : Mention} {items : List Expr} :
    mention ∈ itemMentions reach items ↔ ∃ e ∈ items, mention ∈ e.mentions reach := by
  induction items with
  | nil => simp [itemMentions]
  | cons e rest ih => simp [itemMentions, ih]

theorem entryMentions_eq (reach : List String) (entries : List (String × Expr)) :
    entryMentions reach entries = itemMentions reach (entries.map Prod.snd) := by
  induction entries with
  | nil => rfl
  | cons entry rest ih => rw [entryMentions, List.map_cons, itemMentions, ih]

/-- The names of a part are looked up with the whole. -/
theorem mentions_child {reach : List String} {mention : Mention} (hc : c ∈ e.children)
    (h : mention ∈ c.mentions (e.innerReach reach)) : mention ∈ e.mentions reach := by
  cases e with
  | vector items => exact mem_itemMentions.mpr ⟨c, hc, h⟩
  | map entries =>
      rw [mentions, entryMentions_eq]
      exact mem_itemMentions.mpr ⟨c, hc, h⟩
  | call head offset args options =>
      rw [mentions, entryMentions_eq]
      refine List.mem_cons_of_mem _ (List.mem_append.mpr ?_)
      rcases List.mem_append.mp hc with hc | hc
      · exact .inl (mem_itemMentions.mpr ⟨c, hc, h⟩)
      · exact .inr (mem_itemMentions.mpr ⟨c, hc, h⟩)
  | fn params body =>
      obtain rfl := List.mem_singleton.mp hc
      exact h
  | _ => exact nomatch hc

theorem mem_innerReach {reach : List String} {name : String} (h : name ∈ e.innerReach reach) :
    name ∈ reach ∨ ∃ params, e.FunctionAt [] params ∧ name ∈ params := by
  cases e with
  | fn params body =>
      rcases List.mem_append.mp h with h | h
      · exact .inr ⟨params, ⟨body, rfl⟩, h⟩
      · exact .inl h
  | _ => exact .inl h

/-- Where a symbol is looked up, only parameters of functions around it are in reach. -/
theorem mention_of_symbolAt {offset : Nat} (h : e.at? q = some (.symbol name offset))
    (reach : List String) :
    ∃ reach', Mention.symbol name offset reach' ∈ e.mentions reach ∧
      ∀ other ∈ reach', other ∈ reach ∨
        ∃ q₁ params, e.FunctionAt q₁ params ∧ Inside q q₁ ∧ other ∈ params := by
  induction q generalizing e reach with
  | nil =>
      obtain rfl := Option.some.inj h
      exact ⟨reach, .head _, fun other hother => .inl hother⟩
  | cons i q ih =>
      obtain ⟨c, hc, hq⟩ := at?_cons_eq_some_iff.mp h
      obtain ⟨reach', hmention, hreach'⟩ := ih hq (e.innerReach reach)
      refine ⟨reach', mentions_child (List.mem_of_getElem? hc) hmention, ?_⟩
      intro other hother
      rcases hreach' other hother with hinner | ⟨q₁, params, hfunction, hinside, hmem⟩
      · rcases mem_innerReach hinner with hreach | ⟨params, hfunction, hmem⟩
        · exact .inl hreach
        · exact .inr ⟨[], params, hfunction, inside_root i q, hmem⟩
      · exact .inr ⟨i :: q₁, params, (functionAt_cons hc).mpr hfunction,
          inside_cons.mpr hinside, hmem⟩

end Reql.Expr
