/-
# `Reql.Proofs.Validity` — no term is a literal and an operation at once

A literal answers to the operation `DATUM`, and nothing else may carry that operation.  The
type of terms gives a literal no parts, but it has room for a node with that operation.  That
there is none rests on every function that returns a term.  `Returned` has one constructor for
each of them.  What they return has only unmixed nodes if that was so of all the terms in what
they were given (`returned_unmixed`).

Nothing is assumed of commands.  One may be declared with the operation of literals, and then
the node that it ends in is refused (`createTerm_of_construct`, `Builder.build_eq_ok_iff`).
-/
import Reql.Proofs.Command.Makes
import Reql.Proofs.Hygiene.View
import Reql.Proofs.Term.Nodes

namespace Reql

/-! ## The terms in a value -/

namespace Value

mutual

/-- The terms in a value, from left to right. -/
def terms : Value → List Term
  | .null => []
  | .bool _ => []
  | .number _ => []
  | .string _ => []
  | .array items => itemTerms items
  | .object fields => fieldTerms fields
  | .term t => [t]

def itemTerms : List Value → List Term
  | [] => []
  | item :: rest => item.terms ++ itemTerms rest

def fieldTerms : List (String × Value) → List Term
  | [] => []
  | (_, value) :: rest => value.terms ++ fieldTerms rest

end

/-- All terms in a value have a property. -/
def AllTerms (P : Term → Prop) (v : Value) : Prop := ∀ t ∈ v.terms, P t

variable {P : Term → Prop}

@[simp] theorem allTerms_term {t : Term} : (term t).AllTerms P ↔ P t := by
  simp [AllTerms, terms]

theorem allTerms_itemTerms : ∀ {items : List Value},
    (∀ t ∈ itemTerms items, P t) ↔ ∀ v ∈ items, v.AllTerms P
  | [] => by simp [itemTerms]
  | v :: rest => by
      rw [itemTerms, List.forall_mem_append, allTerms_itemTerms, List.forall_mem_cons]
      rfl

theorem allTerms_fieldTerms : ∀ {fields : List (String × Value)},
    (∀ t ∈ fieldTerms fields, P t) ↔ ∀ field ∈ fields, field.2.AllTerms P
  | [] => by simp [fieldTerms]
  | (name, v) :: rest => by
      rw [fieldTerms, List.forall_mem_append, allTerms_fieldTerms, List.forall_mem_cons]
      rfl

@[simp] theorem allTerms_array {items : List Value} :
    (array items).AllTerms P ↔ ∀ v ∈ items, v.AllTerms P := by
  rw [AllTerms, terms, allTerms_itemTerms]

@[simp] theorem allTerms_object {fields : List (String × Value)} :
    (object fields).AllTerms P ↔ ∀ field ∈ fields, field.2.AllTerms P := by
  rw [AllTerms, terms, allTerms_fieldTerms]

mutual

/-- A literal as raw values has no terms in it. -/
theorem terms_ofDatum : ∀ value : Datum, (ofDatum value).terms = []
  | .null | .bool _ | .number _ | .string _ => rfl
  | .array items => by rw [ofDatum, terms, itemTerms_ofItems]
  | .object fields => by rw [ofDatum, terms, fieldTerms_ofFields]

theorem itemTerms_ofItems : ∀ items : List Datum, itemTerms (ofItems items) = []
  | [] => rfl
  | item :: rest => by
      rw [ofItems, itemTerms, terms_ofDatum, itemTerms_ofItems, List.append_nil]

theorem fieldTerms_ofFields : ∀ fields : List (String × Datum), fieldTerms (ofFields fields) = []
  | [] => rfl
  | (key, value) :: rest => by
      rw [ofFields, fieldTerms, terms_ofDatum, fieldTerms_ofFields, List.append_nil]

end

end Value

open Reql.Term

/-! ## Making nodes -/

variable {t : Term}

theorem Term.Builder.valid_of_build {b : Builder} (hb : b.Holds Valid) (h : b.build = .ok t) :
    t.Valid := by
  obtain ⟨hop, -, rfl⟩ := build_eq_ok_iff.mp h
  refine valid_apply_iff.mpr ⟨hop, hb.args, ?_⟩
  intro u hu
  exact hb.options u (Fields.mem_of_mem_ofList hu)

namespace Normalizer

mutual

theorem valid_of_normalizeAt : ∀ {v : Value} {depth : Nat} {t : Term}, v.AllTerms Valid →
    normalizeAt depth v = .ok t → t.Valid
  | .null, _, _, _, h | .bool _, _, _, _, h | .string _, _, _, _, h => by
      rw [normalizeAt] at h
      obtain rfl := Except.ok.inj h
      exact valid_literal _
  | .number _, _, _, _, h => by
      obtain ⟨-, rfl⟩ := normalizeAt_number_eq_ok_iff.mp h
      exact valid_literal _
  | .array items, _, _, hv, h => by
      obtain ⟨inner, ts, rfl, hts, rfl⟩ := normalizeAt_array_eq_ok_iff.mp h
      have hitems := valid_of_normalizeItems (Value.allTerms_array.mp hv) hts
      exact valid_apply_iff.mpr ⟨nofun, hitems, List.forall_mem_nil _⟩
  | .object fields, _, _, hv, h => by
      obtain ⟨inner, us, rfl, hus, rfl⟩ := normalizeAt_object_eq_ok_iff.mp h
      have hfields := valid_of_normalizeFields (Value.allTerms_object.mp hv) hus
      exact valid_apply_iff.mpr ⟨nofun, List.forall_mem_nil _, hfields⟩
  | .term u, depth, _, hv, h => by
      rw [normalizeAt_term] at h
      obtain rfl := Except.ok.inj h
      exact Value.allTerms_term.mp hv

theorem valid_of_normalizeItems : ∀ {items : List Value} {depth : Nat} {ts : List Term},
    (∀ v ∈ items, v.AllTerms Valid) → normalizeItems depth items = .ok ts → ∀ t ∈ ts, t.Valid
  | [], _, _, _, h => by
      obtain rfl := Except.ok.inj h
      exact List.forall_mem_nil _
  | _ :: _, _, _, hitems, h => by
      obtain ⟨hitem, hrest⟩ := List.forall_mem_cons.mp hitems
      obtain ⟨t, ht, h⟩ := bind_eq_ok_iff.mp h
      obtain ⟨ts, hts, h⟩ := bind_eq_ok_iff.mp h
      obtain rfl := Except.ok.inj h
      exact List.forall_mem_cons.mpr
        ⟨valid_of_normalizeAt hitem ht, valid_of_normalizeItems hrest hts⟩

theorem valid_of_normalizeFields : ∀ {fields : List (String × Value)} {depth : Nat}
    {us : List (String × Term)}, (∀ field ∈ fields, field.2.AllTerms Valid) →
    normalizeFields depth fields = .ok us → ∀ u ∈ us, u.2.Valid
  | [], _, _, _, h => by
      obtain rfl := Except.ok.inj h
      exact List.forall_mem_nil _
  | (_, _) :: _, _, _, hfields, h => by
      obtain ⟨hfield, hrest⟩ := List.forall_mem_cons.mp hfields
      obtain ⟨t, ht, h⟩ := bind_eq_ok_iff.mp h
      obtain ⟨us, hus, h⟩ := bind_eq_ok_iff.mp h
      obtain rfl := Except.ok.inj h
      exact List.forall_mem_cons.mpr
        ⟨valid_of_normalizeAt hfield ht, valid_of_normalizeFields hrest hus⟩

end

variable {n : Normalizer} {args : List Value} {options : Options}

theorem valid_of_createTerm {op : Operation} (hargs : ∀ v ∈ args, v.AllTerms Valid)
    (hoptions : ∀ option ∈ options, option.2.AllTerms Valid)
    (h : n.createTerm op args options = .ok t) : t.Valid := by
  obtain ⟨ts, hts, h⟩ := bind_eq_ok_iff.mp h
  obtain ⟨us, hus, h⟩ := bind_eq_ok_iff.mp h
  exact Builder.valid_of_build
    ⟨valid_of_normalizeItems hargs hts, valid_of_normalizeFields hoptions hus⟩ h

end Normalizer

/-! ## Parameters, functions and times -/

theorem Term.valid_ofId (id : Nat) : (ofId id).Valid := valid_literal _

theorem Term.valid_var (id : Nat) : (var id).Valid :=
  valid_apply_iff.mpr
    ⟨nofun, List.forall_mem_singleton.mpr (valid_ofId id), List.forall_mem_nil _⟩

theorem Term.valid_func (ids : List Nat) {body : Term} (hbody : body.Valid) :
    (func ids body).Valid := by
  have hids : (apply .makeArray (ids.map ofId) []).Valid := by
    refine valid_apply_iff.mpr ⟨nofun, ?_, List.forall_mem_nil _⟩
    intro t ht
    obtain ⟨id, -, rfl⟩ := List.mem_map.mp ht
    exact valid_ofId id
  refine valid_apply_iff.mpr ⟨nofun, ?_, List.forall_mem_nil _⟩
  exact List.forall_mem_cons.mpr ⟨hids, List.forall_mem_singleton.mpr hbody⟩

theorem Value.allTerms_ofEpochMillis (millis : Int) : (ofEpochMillis millis).AllTerms Valid := by
  refine allTerms_term.mpr (valid_apply_iff.mpr ⟨nofun, ?_, List.forall_mem_nil _⟩)
  exact List.forall_mem_singleton.mpr (valid_literal _)

/-! ## Commands -/

theorem Command.valid_of_construct {c : Command} {n : Normalizer} {args : List Value}
    {options : Options} (hargs : ∀ v ∈ args, v.AllTerms Valid)
    (hoptions : ∀ option ∈ options, option.2.AllTerms Valid)
    (h : c.construct n args options = .ok t) : t.Valid := by
  obtain ⟨op, vs, os, hmade, hvs, hos⟩ := createTerm_of_construct h
  have hgiven : ∀ v ∈ args ++ options.map Prod.snd, v.AllTerms Valid :=
    List.forall_mem_append.mpr ⟨hargs, List.forall_mem_map.mpr hoptions⟩
  refine Normalizer.valid_of_createTerm ?_ ?_ hmade
  · intro v hv
    exact hargs v (hvs hv)
  · intro option hoption
    exact hgiven option.2 (hos (List.mem_map_of_mem hoption))

theorem Registry.valid_of_dispatch {r : Registry} {name : String} {args : List Value}
    {options : Options} (hargs : ∀ v ∈ args, v.AllTerms Valid)
    (hoptions : ∀ option ∈ options, option.2.AllTerms Valid)
    (h : r.dispatch name args options = .ok t) : t.Valid := by
  obtain ⟨c, -, h⟩ := bind_eq_ok_iff.mp h
  exact Command.valid_of_construct hargs hoptions (mapError_eq_ok_iff.mp h)

/-! ## Plans -/

namespace Plan

variable {n : Normalizer}

mutual

/-- Carrying out a plan puts no terms into a value but those that it makes. -/
theorem allTerms_of_realize : ∀ {p : Plan} {v : Value}, p.realize n = .ok v → v.AllTerms Valid
  | .literal value, _, h => by
      rw [realize] at h
      obtain rfl := Except.ok.inj h
      rw [Value.AllTerms, Value.terms_ofDatum]
      exact List.forall_mem_nil _
  | .var id, _, h => by
      rw [realize] at h
      obtain rfl := Except.ok.inj h
      exact Value.allTerms_term.mpr (valid_var id)
  | .array _, _, h => by
      obtain ⟨vs, hvs, rfl⟩ := realize_array_eq_ok h
      exact Value.allTerms_array.mpr (allTerms_of_realizeItems hvs)
  | .object _, _, h => by
      obtain ⟨fields, hfields, rfl⟩ := realize_object_eq_ok h
      refine Value.allTerms_object.mpr ?_
      intro field hfield
      exact allTerms_of_realizeEntries hfields field (Fields.mem_of_mem_ofList hfield)
  | .call _ _ _, _, h => by
      obtain ⟨vs, options, t, hvs, hoptions, ht, rfl⟩ := realize_call_eq_ok_iff.mp h
      exact Value.allTerms_term.mpr (Command.valid_of_construct (allTerms_of_realizeItems hvs)
        (allTerms_of_realizeEntries hoptions) ht)
  | .func ids _, _, h => by
      obtain ⟨w, u, hw, hu, rfl⟩ := realize_func_eq_ok h
      have hbody := Normalizer.valid_of_normalizeAt (allTerms_of_realize hw) hu
      exact Value.allTerms_term.mpr (valid_func ids hbody)

theorem allTerms_of_realizeItems : ∀ {ps : List Plan} {vs : List Value},
    List.Forall₂ (fun p v => p.realize n = .ok v) ps vs → ∀ v ∈ vs, v.AllTerms Valid
  | [], _, .nil => List.forall_mem_nil _
  | _ :: _, _, .cons hp hps =>
      List.forall_mem_cons.mpr ⟨allTerms_of_realize hp, allTerms_of_realizeItems hps⟩

theorem allTerms_of_realizeEntries : ∀ {os : List (String × Plan)} {fields : List (String × Value)},
    Named (fun p v => p.realize n = .ok v) os fields → ∀ field ∈ fields, field.2.AllTerms Valid
  | [], _, .nil => List.forall_mem_nil _
  | (_, _) :: _, _, .cons _ hp hos =>
      List.forall_mem_cons.mpr ⟨allTerms_of_realize hp, allTerms_of_realizeEntries hos⟩

end

end Plan

theorem Registry.valid_of_build {r : Registry} {text : String} {start : Nat}
    (h : ((r.build text).runFrom start).1 = .ok t) : t.Valid := by
  obtain ⟨e, -, p, _, v, _, -, hv, ht⟩ := made_of_build h
  exact Normalizer.valid_of_normalizeAt (Plan.allTerms_of_realize hv) ht

/-! ## All functions that return terms -/

/-- What a function returns, where all terms in what it is given have a property. -/
inductive Returned (P : Term → Prop) : Term → Prop where
  | literal (value : Datum) : Returned P (.literal value)
  | built {op : Operation} {steps : List Builder.Step} {t : Term} :
      (∀ s ∈ steps, ∀ u ∈ s.terms, P u) → ((Builder.new op).run steps).build = .ok t →
      Returned P t
  | normalized {n : Normalizer} {v : Value} {t : Term} : v.AllTerms P → n.normalize v = .ok t →
      Returned P t
  | created {n : Normalizer} {op : Operation} {args : List Value} {options : Options} {t : Term} :
      (∀ v ∈ args, v.AllTerms P) → (∀ option ∈ options, option.2.AllTerms P) →
      n.createTerm op args options = .ok t → Returned P t
  | option {n : Normalizer} {name : String} {v : Value} {u : String × Term} : v.AllTerms P →
      n.normalizeOption name v = .ok u → Returned P u.2
  | var (id : Nat) : Returned P (.var id)
  | func (ids : List Nat) {body : Term} : P body → Returned P (.func ids body)
  | time {millis : Int} {t : Term} : Value.ofEpochMillis millis = .term t → Returned P t
  | constructed {c : Command} {n : Normalizer} {args : List Value} {options : Options} {t : Term} :
      (∀ v ∈ args, v.AllTerms P) → (∀ option ∈ options, option.2.AllTerms P) →
      c.construct n args options = .ok t → Returned P t
  | dispatched {r : Registry} {name : String} {args : List Value} {options : Options} {t : Term} :
      (∀ v ∈ args, v.AllTerms P) → (∀ option ∈ options, option.2.AllTerms P) →
      r.dispatch name args options = .ok t → Returned P t
  | written {r : Registry} {text : String} {start : Nat} {t : Term} :
      ((r.build text).runFrom start).1 = .ok t → Returned P t

theorem valid_of_returned (h : Returned Valid t) : t.Valid := by
  cases h with
  | literal value => exact valid_literal value
  | built hsteps hbuilt =>
      exact Builder.valid_of_build ((Builder.holds_new Valid _).run hsteps) hbuilt
  | normalized hv ht => exact Normalizer.valid_of_normalizeAt hv ht
  | created hargs hoptions ht => exact Normalizer.valid_of_createTerm hargs hoptions ht
  | option hv hu =>
      obtain ⟨u, hnormalized, hu⟩ := bind_eq_ok_iff.mp hu
      obtain rfl := Except.ok.inj hu
      exact Normalizer.valid_of_normalizeAt hv hnormalized
  | var id => exact valid_var id
  | func ids hbody => exact valid_func ids hbody
  | @time millis _ ht => exact Value.allTerms_term.mp (ht ▸ Value.allTerms_ofEpochMillis millis)
  | constructed hargs hoptions ht => exact Command.valid_of_construct hargs hoptions ht
  | dispatched hargs hoptions ht => exact Registry.valid_of_dispatch hargs hoptions ht
  | written ht => exact Registry.valid_of_build ht

/-- In every term that is returned each node is a literal leaf or an operation node, if that
is so of all terms in what was given. -/
theorem returned_unmixed (h : Returned (Everywhere Unmixed) t) : t.Everywhere Unmixed := by
  have heq : Everywhere Unmixed = Valid := funext fun _ => propext valid_iff_everywhere.symm
  rw [heq] at h
  exact valid_iff_everywhere.mp (valid_of_returned h)

/-- A command given a term and a raw array.  Declared with the operation of literals it makes
nothing of them. -/
theorem returned_unmixed_eq :
    let eq : Command := { name := "eq", operation := .eq, rest := some .any }
    let given : List Value := [.term (.var 1), .array [.null]]
    let t : Term := .apply .eq [.var 1, .apply .makeArray [.literal .null] []] []
    eq.construct default given [] = .ok t ∧ t.Everywhere Unmixed ∧
      { eq with operation := .datum }.construct default given [] = .error .literalOperation := by
  intro eq given t
  have hmade : eq.construct default given [] = .ok t := rfl
  have hvar : (Term.var 1).Everywhere Unmixed := valid_iff_everywhere.mp (valid_var 1)
  have hgiven : ∀ v ∈ given, v.AllTerms (Everywhere Unmixed) := by
    simp [given, hvar, Value.AllTerms, Value.terms, Value.itemTerms]
  exact ⟨hmade, returned_unmixed (.constructed hgiven (List.forall_mem_nil _) hmade), rfl⟩

end Reql
