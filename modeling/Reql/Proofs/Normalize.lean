/-
# `Reql.Proofs.Normalize` — when a value has a term, and which

Normalizing a container spends one level of the limit and normalizes what is in
it, item by item; a term is left alone at every level.  Each form of value gets
one equation for success, so that proofs never open the definition.
-/
import Reql.Normalize
import Reql.Proofs.Builder
import Reql.Proofs.Fields
import Reql.Proofs.Outcome

namespace Reql.Normalizer

@[simp] theorem normalizeAt_term (depth : Nat) (t : Term) :
    normalizeAt depth (.term t) = .ok t := by
  rw [normalizeAt]

theorem normalizeAt_number_eq_ok_iff {depth : Nat} {x : Double} {t : Term} :
    normalizeAt depth (.number x) = .ok t ↔ x.isFinite ∧ t = .literal (.number x) := by
  rw [normalizeAt]
  split
  · next hfinite => exact ⟨fun h => ⟨hfinite, (Except.ok.inj h).symm⟩, fun h => by rw [h.2]⟩
  · next hfinite => exact ⟨fun h => (nomatch h), fun h => absurd h.1 hfinite⟩

theorem normalizeAt_array_eq_ok_iff {depth : Nat} {items : List Value} {t : Term} :
    normalizeAt depth (.array items) = .ok t ↔
      ∃ inner args, depth = inner + 1 ∧ normalizeItems inner items = .ok args ∧
        t = .apply .makeArray args [] := by
  cases depth with
  | zero => simp [normalizeAt]
  | succ inner =>
      rw [normalizeAt]
      constructor
      · intro h
        obtain ⟨args, hargs, h⟩ := bind_eq_ok_iff.mp h
        exact ⟨inner, args, rfl, hargs, (Except.ok.inj h).symm⟩
      · rintro ⟨_, args, hinner, hargs, rfl⟩
        obtain rfl := Nat.succ.inj hinner
        exact bind_eq_ok_iff.mpr ⟨args, hargs, rfl⟩

theorem normalizeAt_object_eq_ok_iff {depth : Nat} {fields : List (String × Value)} {t : Term} :
    normalizeAt depth (.object fields) = .ok t ↔
      ∃ inner options, depth = inner + 1 ∧ normalizeFields inner fields = .ok options ∧
        t = .apply .makeObj [] options := by
  cases depth with
  | zero => simp [normalizeAt]
  | succ inner =>
      rw [normalizeAt]
      constructor
      · intro h
        obtain ⟨options, hoptions, h⟩ := bind_eq_ok_iff.mp h
        exact ⟨inner, options, rfl, hoptions, (Except.ok.inj h).symm⟩
      · rintro ⟨_, options, hinner, hoptions, rfl⟩
        obtain rfl := Nat.succ.inj hinner
        exact bind_eq_ok_iff.mpr ⟨options, hoptions, rfl⟩

/-! ## Lists of values -/

theorem normalizeItems_eq_mapM (depth : Nat) :
    ∀ items : List Value, normalizeItems depth items = items.mapM (normalizeAt depth)
  | [] => rfl
  | item :: rest => by
      rw [normalizeItems, List.mapM_cons, normalizeItems_eq_mapM depth rest]

theorem normalizeFields_eq_mapM (depth : Nat) :
    ∀ fields : List (String × Value),
      normalizeFields depth fields = fields.mapM (onValue (normalizeAt depth))
  | [] => rfl
  | (name, value) :: rest => by
      rw [normalizeFields, List.mapM_cons, normalizeFields_eq_mapM depth rest]
      simp [onValue]

theorem normalizeItems_eq_ok_iff {depth : Nat} {items : List Value} {ts : List Term} :
    normalizeItems depth items = .ok ts ↔
      List.Forall₂ (fun v t => normalizeAt depth v = .ok t) items ts := by
  rw [normalizeItems_eq_mapM, mapM_eq_ok_iff]

theorem normalizeFields_eq_ok_iff {depth : Nat} {fields : List (String × Value)}
    {us : List (String × Term)} :
    normalizeFields depth fields = .ok us ↔
      Named (fun v t => normalizeAt depth v = .ok t) fields us := by
  rw [normalizeFields_eq_mapM, mapM_onValue_eq_ok_iff]

/-- Putting entries in order and making terms of them can change places. -/
theorem normalizeFields_ofList {depth : Nat} {fields : List (String × Value)}
    {us : List (String × Term)} (hnames : (fields.map Prod.fst).Nodup)
    (h : normalizeFields depth (Fields.ofList fields) = .ok us) :
    ∃ us', Named (fun v t => normalizeAt depth v = .ok t) fields us' ∧ us = Fields.ofList us' := by
  have hordered := normalizeFields_eq_ok_iff.mp h
  have hall : ∀ field ∈ fields, ∃ t, normalizeAt depth field.2 = .ok t := by
    intro field hfield
    exact exists_named_iff.mp ⟨us, hordered⟩ field (Fields.mem_ofList hnames hfield)
  obtain ⟨us', hus'⟩ : ∃ us', Named (fun v t => normalizeAt depth v = .ok t) fields us' :=
    exists_named_iff.mpr hall
  have hsame := normalizeFields_eq_ok_iff.mpr hus'.ofList
  exact ⟨us', hus', Except.ok.inj (h.symm.trans hsame)⟩

/-! ## Nodes -/

/-- A node is made when it is no literal, all its parts have terms and no option
is named twice. -/
theorem createTerm_eq_ok_iff {n : Normalizer} {op : Operation} {args : List Value}
    {options : Options} {t : Term} :
    n.createTerm op args options = .ok t ↔
      ∃ ts us, List.Forall₂ (fun v t => n.normalize v = .ok t) args ts ∧
        Named (fun v t => n.normalize v = .ok t) options us ∧
        op ≠ .datum ∧ (us.map Prod.fst).Nodup ∧ t = .apply op ts (Fields.ofList us) := by
  rw [createTerm]
  constructor
  · intro h
    obtain ⟨ts, hts, h⟩ := bind_eq_ok_iff.mp h
    obtain ⟨us, hus, h⟩ := bind_eq_ok_iff.mp h
    exact ⟨ts, us, normalizeItems_eq_ok_iff.mp hts, normalizeFields_eq_ok_iff.mp hus,
      Term.Builder.build_eq_ok_iff.mp h⟩
  · rintro ⟨ts, us, hts, hus, h⟩
    exact bind_eq_ok_iff.mpr ⟨ts, normalizeItems_eq_ok_iff.mpr hts,
      bind_eq_ok_iff.mpr ⟨us, normalizeFields_eq_ok_iff.mpr hus,
        Term.Builder.build_eq_ok_iff.mpr h⟩⟩

/-- It depends on each part alone whether there is a node. -/
theorem exists_createTerm_iff {n : Normalizer} {op : Operation} {args : List Value}
    {options : Options} :
    (∃ t, n.createTerm op args options = .ok t) ↔
      op ≠ .datum ∧ (options.map Prod.fst).Nodup ∧ (∀ v ∈ args, ∃ t, n.normalize v = .ok t) ∧
        ∀ option ∈ options, ∃ t, n.normalize option.2 = .ok t := by
  constructor
  · rintro ⟨t, h⟩
    obtain ⟨ts, us, hts, hus, hop, hnames, -⟩ := createTerm_eq_ok_iff.mp h
    rw [← hus.names_eq] at hnames
    exact ⟨hop, hnames, exists_forall₂_iff.mp ⟨ts, hts⟩, exists_named_iff.mp ⟨us, hus⟩⟩
  · rintro ⟨hop, hnames, hargs, hoptions⟩
    obtain ⟨ts, hts⟩ := exists_forall₂_iff.mpr hargs
    obtain ⟨us, hus⟩ : ∃ us, Named (fun v t => n.normalize v = .ok t) options us :=
      exists_named_iff.mpr hoptions
    rw [hus.names_eq] at hnames
    exact ⟨_, createTerm_eq_ok_iff.mpr ⟨ts, us, hts, hus, hop, hnames, rfl⟩⟩

/-- The node of an operation.  Its arguments are the terms of values in their order, and its
options are the terms of the named values, each under its name. -/
structure IsNode (n : Normalizer) (op : Operation) (args : List Value) (options : Options)
    (t : Term) : Prop where
  operation : t.operation = op
  args : List.Forall₂ (fun v u => n.normalize v = .ok u) args t.args
  options : ∃ us, Named (fun v u => n.normalize v = .ok u) options us ∧ t.options.Perm us

theorem isNode_of_createTerm {n : Normalizer} {op : Operation} {args : List Value}
    {options : Options} {t : Term} (h : n.createTerm op args options = .ok t) :
    n.IsNode op args options t := by
  obtain ⟨ts, us, hts, hus, -, hnames, rfl⟩ := createTerm_eq_ok_iff.mp h
  exact ⟨rfl, hts, us, hus, Fields.perm_ofList hnames⟩

end Reql.Normalizer
