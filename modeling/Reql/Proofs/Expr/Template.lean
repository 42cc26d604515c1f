/-
# `Reql.Proofs.Expr.Template` — one template for all runs

Building draws a number for every parameter, beginning at wherever the counter stands.  That
is the only use it makes of the counter.  A text has one `Template` with places for the first
number that is drawn, the second and so on, and to build the text is to fill in the numbers
(`build_uniform`).

Not every reference in a term need be such a place: there may be a command that makes `VAR`
nodes of what it is given.  `Plan.HasTemplate` keeps the two apart.  It follows the plan, and
a place for a number in the template comes from a symbol or a function of the plan.
-/
import Reql.Proofs.Command.Arrangement
import Reql.Proofs.Expr.Inversion
import Reql.Proofs.Expr.Numbering
import Reql.Proofs.Fields

namespace Reql

/-! ## Templates -/

/-- A term with places for numbers that are drawn, counted from 0. -/
inductive Template where
  | fixed (t : Term)
  | reference (k : Nat)
  | function (ks : List Nat) (body : Template)
  | node (op : Operation) (args : List Template) (options : List (String × Template))

namespace Template

mutual

/-- The term with the numbers filled in. -/
def fill (f : Nat → Nat) : Template → Term
  | .fixed t => t
  | .reference k => .var (f k)
  | .function ks body => .func (ks.map f) (body.fill f)
  | .node op args options => .apply op (fillArgs f args) (fillOptions f options)

def fillArgs (f : Nat → Nat) : List Template → List Term
  | [] => []
  | τ :: rest => τ.fill f :: fillArgs f rest

def fillOptions (f : Nat → Nat) : List (String × Template) → List (String × Term)
  | [] => []
  | (name, τ) :: rest => (name, τ.fill f) :: fillOptions f rest

end

theorem fillArgs_eq_map (f : Nat → Nat) : ∀ τs : List Template, fillArgs f τs = τs.map (fill f)
  | [] => rfl
  | τ :: rest => by rw [fillArgs, List.map_cons, fillArgs_eq_map f rest]

theorem fillOptions_eq_map (f : Nat → Nat) : ∀ τs : List (String × Template),
    fillOptions f τs = τs.map fun o => (o.1, o.2.fill f)
  | [] => rfl
  | (name, τ) :: rest => by rw [fillOptions, List.map_cons, fillOptions_eq_map f rest]

end Template

namespace Plan

/-! ## Plans with other numbers -/

mutual

/-- The plan with other numbers for its parameters. -/
def renumber (f : Nat → Nat) : Plan → Plan
  | .literal value => .literal value
  | .var id => .var (f id)
  | .array items => .array (renumberItems f items)
  | .object entries => .object (renumberEntries f entries)
  | .call c args options => .call c (renumberItems f args) (renumberEntries f options)
  | .func ids body => .func (ids.map f) (body.renumber f)

def renumberItems (f : Nat → Nat) : List Plan → List Plan
  | [] => []
  | p :: rest => p.renumber f :: renumberItems f rest

def renumberEntries (f : Nat → Nat) : List (String × Plan) → List (String × Plan)
  | [] => []
  | (name, p) :: rest => (name, p.renumber f) :: renumberEntries f rest

end

theorem renumberItems_eq_map (f : Nat → Nat) : ∀ ps : List Plan,
    renumberItems f ps = ps.map (renumber f)
  | [] => rfl
  | p :: rest => by rw [renumberItems, List.map_cons, renumberItems_eq_map f rest]

theorem renumberEntries_eq_map (f : Nat → Nat) : ∀ os : List (String × Plan),
    renumberEntries f os = os.map fun o => (o.1, o.2.renumber f)
  | [] => rfl
  | (name, p) :: rest => by rw [renumberEntries, List.map_cons, renumberEntries_eq_map f rest]

variable {allowed : Operation → Prop} {R : Nat → Nat → Prop}

mutual

/-- A plan that differs only in its numbers is the plan with those numbers. -/
theorem Renamed.eq_renumber {f : Nat → Nat} (hf : ∀ id id', R id id' → id' = f id) :
    ∀ {p q : Plan}, p.Renamed allowed R q → q = p.renumber f
  | .literal value, _, h => by
      cases h
      rfl
  | .var _, _, h => by
      cases h with
      | var hid => rw [renumber, hf _ _ hid]
  | .array _, _, h => by
      cases h with
      | array hps => rw [renumber, Renamed.eq_renumberItems hf hps]
  | .object _, _, h => by
      cases h with
      | object hos => rw [renumber, Renamed.eq_renumberEntries hf hos]
  | .call _ _ _, _, h => by
      cases h with
      | call _ hps hos =>
          rw [renumber, Renamed.eq_renumberItems hf hps, Renamed.eq_renumberEntries hf hos]
  | .func _ _, _, h => by
      cases h with
      | func hids hbody =>
          rw [renumber, Renamed.eq_renumber hf hbody, forall₂_eq_map_iff.mp (hids.imp hf)]

theorem Renamed.eq_renumberItems {f : Nat → Nat} (hf : ∀ id id', R id id' → id' = f id) :
    ∀ {ps qs : List Plan}, List.Forall₂ (Renamed allowed R) ps qs → qs = renumberItems f ps
  | [], _, .nil => rfl
  | _ :: _, _, .cons hp hps => by
      rw [renumberItems, Renamed.eq_renumber hf hp, Renamed.eq_renumberItems hf hps]

theorem Renamed.eq_renumberEntries {f : Nat → Nat} (hf : ∀ id id', R id id' → id' = f id) :
    ∀ {os os' : List (String × Plan)}, Named (Renamed allowed R) os os' →
      os' = renumberEntries f os
  | [], _, .nil => rfl
  | _ :: _, _, .cons name hp hos => by
      rw [renumberEntries, Renamed.eq_renumber hf hp, Renamed.eq_renumberEntries hf hos]

end

mutual

/-- With any numbers a plan is the same up to numbers. -/
theorem renamed_renumber (f g : Nat → Nat) : ∀ p : Plan,
    (p.renumber f).Renamed (fun _ => True) (fun _ _ => True) (p.renumber g)
  | .literal value => .literal value
  | .var _ => .var trivial
  | .array items => .array (renamed_renumberItems f g items)
  | .object entries => .object (renamed_renumberEntries f g entries)
  | .call _ args options =>
      .call trivial (renamed_renumberItems f g args) (renamed_renumberEntries f g options)
  | .func ids body => by
      refine .func ?_ (renamed_renumber f g body)
      rw [List.forall₂_map_left_iff, List.forall₂_map_right_iff]
      exact List.forall₂_same.mpr fun _ _ => trivial

theorem renamed_renumberItems (f g : Nat → Nat) : ∀ ps : List Plan,
    List.Forall₂ (Renamed (fun _ => True) (fun _ _ => True)) (renumberItems f ps)
      (renumberItems g ps)
  | [] => .nil
  | p :: rest => .cons (renamed_renumber f g p) (renamed_renumberItems f g rest)

theorem renamed_renumberEntries (f g : Nat → Nat) : ∀ os : List (String × Plan),
    Named (Renamed (fun _ => True) (fun _ _ => True)) (renumberEntries f os)
      (renumberEntries g os)
  | [] => .nil
  | (name, p) :: rest => .cons name (renamed_renumber f g p) (renamed_renumberEntries f g rest)

end

/-! ## The template of a plan -/

/-- Carrying out a plan and normalizing at a depth gives a term. -/
def TermAt (n : Normalizer) (depth : Nat) (p : Plan) (t : Term) : Prop :=
  ∃ v, p.realize n = .ok v ∧ Normalizer.normalizeAt depth v = .ok t

/-- The templates of a plan that has numbers below `drawn`.  References and functions of
the plan become places for their numbers.  All else comes from literals, arrays, objects and
commands. -/
inductive HasTemplate (drawn : Nat) : Plan → Template → Prop where
  | literal {value : Datum} {depth : Nat} {t : Term} :
      Normalizer.normalizeAt depth (Value.ofDatum value) = .ok t →
      HasTemplate drawn (.literal value) (.fixed t)
  | var {k : Nat} : k < drawn → HasTemplate drawn (.var k) (.reference k)
  | array {ps : List Plan} {τs : List Template} : List.Forall₂ (HasTemplate drawn) ps τs →
      HasTemplate drawn (.array ps) (.node .makeArray τs [])
  | object {os : List (String × Plan)} {τs : List (String × Template)} :
      Named (HasTemplate drawn) (Fields.ofList os) τs →
      HasTemplate drawn (.object os) (.node .makeObj [] τs)
  | call {c : Command} {ps : List Plan} {os : List (String × Plan)} (a : Command.Arrangement)
      {τs : List Template} {σs : List (String × Template)} :
      List.Forall₂ (HasTemplate drawn) (a.parts c ps os).args τs →
      Named (HasTemplate drawn) (a.parts c ps os).options σs →
      HasTemplate drawn (.call c ps os)
        (.node (a.parts c ps os).operation τs (Fields.ofList σs))
  | func {ks : List Nat} {p : Plan} {τ : Template} : (∀ k ∈ ks, k < drawn) →
      HasTemplate drawn p τ → HasTemplate drawn (.func ks p) (.function ks τ)

/-- If a plan has a term with any numbers, then it has a template for all of them. -/
def Templated (n : Normalizer) (drawn : Nat) (p : Plan) : Prop :=
  ∀ depth, (∀ f, ∃ t, (p.renumber f).TermAt n depth t) →
    ∃ τ, p.HasTemplate drawn τ ∧ ∀ f t, (p.renumber f).TermAt n depth t → t = τ.fill f

variable {n : Normalizer} {drawn depth : Nat} {t : Term}

/-! ### Terms of plans, form by form -/

theorem termAt_array {ps : List Plan} (h : (Plan.array ps).TermAt n depth t) :
    ∃ inner ts, depth = inner + 1 ∧ List.Forall₂ (TermAt n inner) ps ts ∧
      t = .apply .makeArray ts [] := by
  obtain ⟨v, hv, ht⟩ := h
  obtain ⟨vs, hvs, rfl⟩ := realize_array_eq_ok hv
  obtain ⟨inner, ts, hdepth, hts, rfl⟩ := Normalizer.normalizeAt_array_eq_ok_iff.mp ht
  have hts := Normalizer.normalizeItems_eq_ok_iff.mp hts
  exact ⟨inner, ts, hdepth, forall₂_comp_iff.mpr ⟨vs, hvs, hts⟩, rfl⟩

theorem termAt_object {os : List (String × Plan)} (h : (Plan.object os).TermAt n depth t) :
    ∃ inner us, depth = inner + 1 ∧ Named (TermAt n inner) (Fields.ofList os) us ∧
      t = .apply .makeObj [] us := by
  obtain ⟨v, hv, ht⟩ := h
  obtain ⟨fields, hfields, rfl⟩ := realize_object_eq_ok hv
  obtain ⟨inner, us, hdepth, hus, rfl⟩ := Normalizer.normalizeAt_object_eq_ok_iff.mp ht
  have hus := Normalizer.normalizeFields_eq_ok_iff.mp hus
  exact ⟨inner, us, hdepth, named_comp_iff.mpr ⟨_, hfields.ofList, hus⟩, rfl⟩

/-- The arrangement of what the arguments are carried out to arranges the plans. -/
theorem termAt_call {c : Command} {ps : List Plan} {os : List (String × Plan)}
    (h : (Plan.call c ps os).TermAt n depth t) :
    ∃ vs ts us, List.Forall₂ (fun p v => p.realize n = .ok v) ps vs ∧
      List.Forall₂ (TermAt n n.depth) ((c.arrangement vs).parts c ps os).args ts ∧
      Named (TermAt n n.depth) ((c.arrangement vs).parts c ps os).options us ∧
      t = .apply ((c.arrangement vs).parts c ps os).operation ts (Fields.ofList us) := by
  obtain ⟨v, hv, ht⟩ := h
  obtain ⟨vs, options, u, hvs, hoptions, hmade, rfl⟩ := realize_call_eq_ok_iff.mp hv
  rw [Normalizer.normalizeAt_term] at ht
  obtain rfl := Except.ok.inj ht
  have hnode := Command.createTerm_parts_of_construct hmade
  obtain ⟨ts, us, hts, hus, -, -, rfl⟩ := Normalizer.createTerm_eq_ok_iff.mp hnode
  obtain ⟨hargs, hnamed⟩ := (c.arrangement vs).parts_related c hvs hoptions
  refine ⟨vs, ts, us, hvs, forall₂_comp_iff.mpr ⟨_, hargs, hts⟩,
    named_comp_iff.mpr ⟨_, hnamed, hus⟩, ?_⟩
  rw [(c.arrangement vs).operation_parts c ps vs os options]

theorem termAt_func {ids : List Nat} {p : Plan} (h : (Plan.func ids p).TermAt n depth t) :
    ∃ u, p.TermAt n n.depth u ∧ t = .func ids u := by
  obtain ⟨v, hv, ht⟩ := h
  obtain ⟨w, u, hw, hu, rfl⟩ := realize_func_eq_ok hv
  rw [Normalizer.normalizeAt_term] at ht
  exact ⟨u, ⟨w, hw, hu⟩, (Except.ok.inj ht).symm⟩

theorem termAt_var {id : Nat} (h : (Plan.var id).TermAt n depth t) : t = .var id := by
  obtain ⟨v, hv, ht⟩ := h
  rw [realize] at hv
  obtain rfl := Except.ok.inj hv
  rw [Normalizer.normalizeAt_term] at ht
  exact (Except.ok.inj ht).symm

theorem termAt_literal {value : Datum} (h : (Plan.literal value).TermAt n depth t) :
    Normalizer.normalizeAt depth (Value.ofDatum value) = .ok t := by
  obtain ⟨v, hv, ht⟩ := h
  rw [realize] at hv
  obtain rfl := Except.ok.inj hv
  exact ht

/-- Other numbers do not make a command arrange its arguments in another way. -/
theorem arrangement_renumber {c : Command} {ps : List Plan} {f g : Nat → Nat} {vs ws : List Value}
    (hvs : List.Forall₂ (fun p v => p.realize n = .ok v) (renumberItems f ps) vs)
    (hws : List.Forall₂ (fun p v => p.realize n = .ok v) (renumberItems g ps) ws) :
    c.arrangement vs = c.arrangement ws := by
  have hagree := Renamed.realizeItems trivial trivial n (renamed_renumberItems f g ps)
  rw [realizeItems_eq_mapM, realizeItems_eq_mapM, mapM_eq_ok_iff.mpr hvs,
    mapM_eq_ok_iff.mpr hws] at hagree
  cases hagree with
  | ok h => exact Command.arrangement_eq (h.imp fun _ _ => Value.Renamed.alike)

/-! ### From the templates of the parts to that of the whole -/

theorem exists_templates {ps : List Plan} (hps : ∀ p ∈ ps, p.Templated n drawn)
    (h : ∀ f, ∃ ts, List.Forall₂ (fun p t => (p.renumber f).TermAt n depth t) ps ts) :
    ∃ τs, List.Forall₂ (HasTemplate drawn) ps τs ∧
      ∀ f ts, List.Forall₂ (fun p t => (p.renumber f).TermAt n depth t) ps ts →
        ts = τs.map (Template.fill f) := by
  induction ps with
  | nil => exact ⟨[], .nil, fun f ts hts => List.forall₂_nil_left_iff.mp hts⟩
  | cons p rest ih =>
      obtain ⟨hp, hrest⟩ := List.forall_mem_cons.mp hps
      have hfirst : ∀ f, ∃ t, (p.renumber f).TermAt n depth t := by
        intro f
        obtain ⟨ts, hts⟩ := h f
        obtain ⟨t, -, ht, -, -⟩ := List.forall₂_cons_left_iff.mp hts
        exact ⟨t, ht⟩
      have hlater : ∀ f, ∃ ts, List.Forall₂ (fun p t => (p.renumber f).TermAt n depth t) rest ts := by
        intro f
        obtain ⟨ts, hts⟩ := h f
        obtain ⟨-, us, -, hus, -⟩ := List.forall₂_cons_left_iff.mp hts
        exact ⟨us, hus⟩
      obtain ⟨τ, hτ, hfill⟩ := hp depth hfirst
      obtain ⟨τs, hτs, hfills⟩ := ih hrest hlater
      refine ⟨τ :: τs, .cons hτ hτs, ?_⟩
      intro f ts hts
      obtain ⟨t, us, ht, hus, rfl⟩ := List.forall₂_cons_left_iff.mp hts
      rw [List.map_cons, hfill f t ht, hfills f us hus]

theorem exists_namedTemplates {os : List (String × Plan)}
    (hos : ∀ o ∈ os, o.2.Templated n drawn)
    (h : ∀ f, ∃ us, Named (fun p t => (p.renumber f).TermAt n depth t) os us) :
    ∃ τs, Named (HasTemplate drawn) os τs ∧
      ∀ f us, Named (fun p t => (p.renumber f).TermAt n depth t) os us →
        us = τs.map fun τ => (τ.1, τ.2.fill f) := by
  induction os with
  | nil =>
      refine ⟨[], .nil, ?_⟩
      intro f us hus
      cases hus
      rfl
  | cons o rest ih =>
      obtain ⟨name, p⟩ := o
      obtain ⟨hp, hrest⟩ := List.forall_mem_cons.mp hos
      have hfirst : ∀ f, ∃ t, (p.renumber f).TermAt n depth t := by
        intro f
        obtain ⟨us, hus⟩ := h f
        cases hus with
        | cons _ ht _ => exact ⟨_, ht⟩
      have hlater : ∀ f, ∃ us, Named (fun p t => (p.renumber f).TermAt n depth t) rest us := by
        intro f
        obtain ⟨us, hus⟩ := h f
        cases hus with
        | cons _ _ hus => exact ⟨_, hus⟩
      obtain ⟨τ, hτ, hfill⟩ := hp depth hfirst
      obtain ⟨τs, hτs, hfills⟩ := ih hrest hlater
      refine ⟨(name, τ) :: τs, .cons name hτ hτs, ?_⟩
      intro f us hus
      cases hus with
      | cons _ ht hus => rw [List.map_cons, hfill f _ ht, hfills f _ hus]

theorem templated_array {ps : List Plan} (hps : ∀ p ∈ ps, p.Templated n drawn) :
    (Plan.array ps).Templated n drawn := by
  intro depth h
  obtain ⟨t, ht⟩ := h id
  obtain ⟨inner, -, rfl, -, -⟩ := termAt_array ht
  have hitems {f : Nat → Nat} {t : Term} (ht : ((Plan.array ps).renumber f).TermAt n (inner + 1) t) :
      ∃ ts, List.Forall₂ (fun p t => (p.renumber f).TermAt n inner t) ps ts ∧
        t = .apply .makeArray ts [] := by
    rw [renumber, renumberItems_eq_map] at ht
    obtain ⟨_, ts, hinner, hts, rfl⟩ := termAt_array ht
    obtain rfl := Nat.succ.inj hinner
    exact ⟨ts, List.forall₂_map_left_iff.mp hts, rfl⟩
  have hterms : ∀ f, ∃ ts, List.Forall₂ (fun p t => (p.renumber f).TermAt n inner t) ps ts := by
    intro f
    obtain ⟨t, ht⟩ := h f
    obtain ⟨ts, hts, -⟩ := hitems ht
    exact ⟨ts, hts⟩
  obtain ⟨τs, hτs, hfills⟩ := exists_templates hps hterms
  refine ⟨_, .array hτs, ?_⟩
  intro f t ht
  obtain ⟨ts, hts, rfl⟩ := hitems ht
  rw [Template.fill, Template.fillArgs_eq_map, hfills f ts hts, Template.fillOptions]

theorem templated_object {os : List (String × Plan)} (hos : ∀ o ∈ os, o.2.Templated n drawn) :
    (Plan.object os).Templated n drawn := by
  intro depth h
  obtain ⟨t, ht⟩ := h id
  obtain ⟨inner, -, rfl, -, -⟩ := termAt_object ht
  have hfields {f : Nat → Nat} {t : Term}
      (ht : ((Plan.object os).renumber f).TermAt n (inner + 1) t) :
      ∃ us, Named (fun p t => (p.renumber f).TermAt n inner t) (Fields.ofList os) us ∧
        t = .apply .makeObj [] us := by
    rw [renumber, renumberEntries_eq_map] at ht
    obtain ⟨_, us, hinner, hus, rfl⟩ := termAt_object ht
    obtain rfl := Nat.succ.inj hinner
    rw [ofList_map] at hus
    exact ⟨us, named_map_left_iff.mp hus, rfl⟩
  have hkept : ∀ o ∈ Fields.ofList os, o.2.Templated n drawn :=
    fun o ho => hos o (Fields.mem_of_mem_ofList ho)
  have hterms : ∀ f, ∃ us, Named (fun p t => (p.renumber f).TermAt n inner t)
      (Fields.ofList os) us := by
    intro f
    obtain ⟨t, ht⟩ := h f
    obtain ⟨us, hus, -⟩ := hfields ht
    exact ⟨us, hus⟩
  obtain ⟨τs, hτs, hfills⟩ := exists_namedTemplates hkept hterms
  refine ⟨_, .object hτs, ?_⟩
  intro f t ht
  obtain ⟨us, hus, rfl⟩ := hfields ht
  rw [Template.fill, Template.fillOptions_eq_map, hfills f us hus, Template.fillArgs]

theorem templated_call {c : Command} {ps : List Plan} {os : List (String × Plan)}
    (hps : ∀ p ∈ ps, p.Templated n drawn) (hos : ∀ o ∈ os, o.2.Templated n drawn) :
    (Plan.call c ps os).Templated n drawn := by
  intro depth h
  obtain ⟨t, ht⟩ := h id
  rw [renumber] at ht
  obtain ⟨ws, -, -, hws, -⟩ := termAt_call ht
  generalize ha : c.arrangement ws = a
  have hnode {f : Nat → Nat} {t : Term} (ht : ((Plan.call c ps os).renumber f).TermAt n depth t) :
      ∃ ts us, List.Forall₂ (fun p t => (p.renumber f).TermAt n n.depth t) (a.parts c ps os).args ts ∧
        Named (fun p t => (p.renumber f).TermAt n n.depth t) (a.parts c ps os).options us ∧
        t = .apply (a.parts c ps os).operation ts (Fields.ofList us) := by
    rw [renumber] at ht
    obtain ⟨vs, ts, us, hvs, hts, hus, rfl⟩ := termAt_call ht
    rw [arrangement_renumber hvs hws, ha] at hts hus ⊢
    obtain ⟨hargs, hoptions⟩ := a.parts_related c (R := fun p q => q = renumber f p)
      (forall₂_eq_map_iff.mpr (renumberItems_eq_map f ps))
      (named_eq_map_iff.mpr (renumberEntries_eq_map f os))
    rw [forall₂_eq_map_iff.mp hargs, List.forall₂_map_left_iff] at hts
    rw [named_eq_map_iff.mp hoptions, named_map_left_iff] at hus
    rw [a.operation_parts c _ ps _ os]
    exact ⟨ts, us, hts, hus, rfl⟩
  obtain ⟨hargs, hoptions⟩ := a.forall_parts c hps hos
  have hterms : ∀ f, ∃ ts,
      List.Forall₂ (fun p t => (p.renumber f).TermAt n n.depth t) (a.parts c ps os).args ts := by
    intro f
    obtain ⟨t, ht⟩ := h f
    obtain ⟨ts, -, hts, -⟩ := hnode ht
    exact ⟨ts, hts⟩
  have hterms' : ∀ f, ∃ us,
      Named (fun p t => (p.renumber f).TermAt n n.depth t) (a.parts c ps os).options us := by
    intro f
    obtain ⟨t, ht⟩ := h f
    obtain ⟨-, us, -, hus, -⟩ := hnode ht
    exact ⟨us, hus⟩
  obtain ⟨τs, hτs, hfills⟩ := exists_templates hargs hterms
  obtain ⟨σs, hσs, hfills'⟩ := exists_namedTemplates hoptions hterms'
  refine ⟨_, .call a hτs hσs, ?_⟩
  intro f t ht
  obtain ⟨ts, us, hts, hus, rfl⟩ := hnode ht
  rw [Template.fill, Template.fillArgs_eq_map, Template.fillOptions_eq_map, hfills f ts hts,
    hfills' f us hus, ofList_map]

theorem templated_func {ks : List Nat} {p : Plan} (hks : ∀ k ∈ ks, k < drawn)
    (hp : p.Templated n drawn) : (Plan.func ks p).Templated n drawn := by
  intro depth h
  have hbody {f : Nat → Nat} {t : Term} (ht : ((Plan.func ks p).renumber f).TermAt n depth t) :
      ∃ u, (p.renumber f).TermAt n n.depth u ∧ t = .func (ks.map f) u := by
    rw [renumber] at ht
    exact termAt_func ht
  obtain ⟨τ, hτ, hfill⟩ := hp n.depth fun f => by
    obtain ⟨t, ht⟩ := h f
    obtain ⟨u, hu, -⟩ := hbody ht
    exact ⟨u, hu⟩
  refine ⟨_, .func hks hτ, ?_⟩
  intro f t ht
  obtain ⟨u, hu, rfl⟩ := hbody ht
  rw [Template.fill, hfill f u hu]

mutual

/-- Every plan has a template, if it has terms. -/
theorem templated : ∀ {p q : Plan}, p.Renamed (fun _ => True) (fun k _ => k < drawn) q →
    p.Templated n drawn
  | .literal value, _, _ => by
      intro depth h
      obtain ⟨t, ht⟩ := h id
      have hliteral := termAt_literal ht
      refine ⟨_, .literal hliteral, ?_⟩
      intro f u hu
      exact Except.ok.inj ((termAt_literal hu).symm.trans hliteral)
  | .var k, _, h => by
      cases h with
      | var hk =>
          intro depth _
          refine ⟨_, .var hk, ?_⟩
          intro f t ht
          exact termAt_var ht
  | .array _, _, h => by
      cases h with
      | array hps => exact templated_array (templated_items hps)
  | .object _, _, h => by
      cases h with
      | object hos => exact templated_object (templated_entries hos)
  | .call _ _ _, _, h => by
      cases h with
      | call _ hps hos => exact templated_call (templated_items hps) (templated_entries hos)
  | .func _ _, _, h => by
      cases h with
      | func hks hbody =>
          refine templated_func ?_ (templated hbody)
          intro k hk
          obtain ⟨i, hi, rfl⟩ := List.getElem_of_mem hk
          exact hks.get hi (hks.length_eq ▸ hi)

theorem templated_items : ∀ {ps qs : List Plan},
    List.Forall₂ (Renamed (fun _ => True) (fun k _ => k < drawn)) ps qs →
      ∀ p ∈ ps, p.Templated n drawn
  | [], _, .nil => List.forall_mem_nil _
  | _ :: _, _, .cons hp hps => List.forall_mem_cons.mpr ⟨templated hp, templated_items hps⟩

theorem templated_entries : ∀ {os os' : List (String × Plan)},
    Named (Renamed (fun _ => True) (fun k _ => k < drawn)) os os' →
      ∀ o ∈ os, o.2.Templated n drawn
  | [], _, .nil => List.forall_mem_nil _
  | (_, _) :: _, _, .cons _ hp hos =>
      List.forall_mem_cons.mpr ⟨templated hp, templated_entries hos⟩

end

/-- With all numbers a plan fails in one way, or its template gives its terms. -/
theorem term_uniform {p q : Plan} (hp : p.Renamed (fun _ => True) (fun k _ => k < drawn) q)
    (n : Normalizer) :
    (∃ cause, ∀ f, (p.renumber f).term n = .error cause) ∨
      ∃ τ, p.HasTemplate drawn τ ∧ ∀ f, (p.renumber f).term n = .ok (τ.fill f) := by
  have hagree (f : Nat → Nat) :=
    (renamed_renumber id f p).term trivial trivial n
  cases hterm : (p.renumber id).term n with
  | error cause =>
      refine .inl ⟨cause, ?_⟩
      intro f
      have hf := hagree f
      rw [hterm] at hf
      generalize (p.renumber f).term n = x at hf
      cases hf with
      | error hcause => rw [hcause]
  | ok t =>
      have hterms : ∀ f, ∃ t, (p.renumber f).TermAt n n.depth t := by
        intro f
        obtain ⟨u, hu, -⟩ := (hagree f).ok_left hterm
        exact ⟨u, bind_eq_ok_iff.mp hu⟩
      obtain ⟨τ, hτ, hfill⟩ := templated hp n.depth hterms
      refine .inr ⟨τ, hτ, ?_⟩
      intro f
      obtain ⟨u, hu⟩ := hterms f
      rw [← hfill f u hu]
      exact bind_eq_ok_iff.mpr hu

end Plan

/-! ## Planning and building -/

/-- From every number planning fails in one way, or gives one plan with other numbers.  Either
way it draws equally many. -/
theorem Expr.plan_uniform (e : Expr) (r : Registry) :
    ∃ drawn, (∃ fault, ∀ start, (e.plan r []).runFrom start = (.error fault, start + drawn)) ∨
      ∃ (p : Plan) (q : Plan), p.Renamed (fun _ => True) (fun k _ => k < drawn) q ∧
        ∀ start, (e.plan r []).runFrom start = (.ok (p.renumber (start + ·)), start + drawn) := by
  have htracks (R : Nat → Nat → Prop) : Drawing.Tracks R e.paramCount
      (Plan.Renamed (fun _ => True) R) (e.plan r []) (e.plan r []) :=
    Expr.plan_tracks r (fun _ _ _ => trivial) e .nil
  have hfrom (start : Nat) := htracks (fun k id => id = start + k) 0 start fun k _ => by
    rw [Nat.zero_add]
  rcases hrun : (e.plan r []).runFrom 0 with ⟨x, next⟩
  cases x with
  | error fault =>
      refine ⟨next, .inl ⟨fault, ?_⟩⟩
      intro start
      rcases hfrom start with ⟨p, -, hp, -, -⟩ | ⟨other, drawn, he, he'⟩
      · exact nomatch hrun.symm.trans hp
      · obtain ⟨hfault, hnext⟩ := Prod.mk.inj (hrun.symm.trans he)
        rw [he', hnext, Nat.zero_add, Except.error.inj hfault]
  | ok p =>
      have hsame : ∃ q, p.Renamed (fun _ => True) (fun k _ => k < e.paramCount) q := by
        rcases htracks (fun k _ => k < e.paramCount) 0 0 (fun k hk => by rwa [Nat.zero_add]) with
          ⟨p', q, hp', -, hq⟩ | ⟨fault, drawn, he, -⟩
        · obtain ⟨hp, -⟩ := Prod.mk.inj (hrun.symm.trans hp')
          exact ⟨q, Except.ok.inj hp ▸ hq⟩
        · exact nomatch hrun.symm.trans he
      obtain ⟨q, hq⟩ := hsame
      refine ⟨e.paramCount, .inr ⟨p, q, hq, ?_⟩⟩
      intro start
      rcases hfrom start with ⟨p', q, hp', hq, hrenamed⟩ | ⟨fault, drawn, he, -⟩
      · obtain ⟨hp, -⟩ := Prod.mk.inj (hrun.symm.trans hp')
        obtain rfl := Except.ok.inj hp
        rw [hq, hrenamed.eq_renumber fun _ _ h => h]
      · exact nomatch hrun.symm.trans he

/-- Where the counter stands plays no part in building.  From every number a text fails in one
way, or its term is one template with the numbers filled in that were drawn, the first at 0.
It draws equally many from every number, also when it fails.  The places of the template are
those of the plan, which differs in its numbers only. -/
theorem Registry.build_uniform (r : Registry) (text : String) :
    ∃ drawn,
      (∃ fault, ∀ start, (r.build text).runFrom start = (.error fault, start + drawn)) ∨
      ∃ (e : Expr) (p : Plan) (τ : Template), Expr.parse text = .ok e ∧
        (∀ start, (e.plan r []).runFrom start = (.ok (p.renumber (start + ·)), start + drawn)) ∧
        p.HasTemplate drawn τ ∧
        ∀ start, (r.build text).runFrom start = (.ok (τ.fill (start + ·)), start + drawn) := by
  cases hparse : Expr.parse text with
  | error fault =>
      refine ⟨0, .inl ⟨.read fault.offset fault.value, ?_⟩⟩
      intro start
      rw [Registry.build, hparse]
      rfl
  | ok e =>
      obtain ⟨drawn, ⟨fault, hfault⟩ | ⟨p, q, hq, hplan⟩⟩ := e.plan_uniform r
      · refine ⟨drawn, .inl ⟨fault, ?_⟩⟩
        intro start
        rw [Registry.build_of_parse hparse, Expr.build, Drawing.runFrom_bind, hfault]
      · have hbuild (start : Nat) : (r.build text).runFrom start =
            (((p.renumber (start + ·)).term r.normalizer).mapError .argument, start + drawn) := by
          rw [Registry.build_of_parse hparse, Expr.build, Drawing.runFrom_bind, hplan]
          exact Drawing.runFrom_ofOutcome _ _ _
        rcases Plan.term_uniform hq r.normalizer with ⟨cause, hcause⟩ | ⟨τ, hτ, hfill⟩
        · refine ⟨drawn, .inl ⟨.argument cause, ?_⟩⟩
          intro start
          rw [hbuild, hcause, Except.mapError]
        · refine ⟨drawn, .inr ⟨e, p, τ, rfl, hplan, hτ, ?_⟩⟩
          intro start
          rw [hbuild, hfill, Except.mapError]

end Reql
