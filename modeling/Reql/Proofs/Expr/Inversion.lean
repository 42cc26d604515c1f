/-
# `Reql.Proofs.Expr.Inversion` — what a successful plan has come to

For each form of expression what planning it has given, and for each form of plan what
carrying it out has given.  Proofs about built terms start from these and never open
the definitions.
-/
import Reql.Proofs.Expr.Resolution

namespace Reql

/-! ## Planning -/

namespace Expr

variable {r : Registry} {scope : Scope} {start next : Nat} {p : Plan}

theorem runFrom_pure_eq_ok {α : Type} {a b : α}
    (h : (pure a : Drawing α).runFrom start = (.ok b, next)) : b = a :=
  (Except.ok.inj (Prod.mk.inj h).1).symm

theorem plan_symbol_eq_ok {name : String} {offset : Nat}
    (h : ((Expr.symbol name offset).plan r scope).runFrom start = (.ok p, next)) :
    ∃ id, scope.lookup name = some id ∧ p = .var id := by
  rw [plan] at h
  cases hlookup : scope.lookup name with
  | none => simp [hlookup] at h
  | some id =>
      rw [hlookup] at h
      exact ⟨id, rfl, runFrom_pure_eq_ok h⟩

theorem plan_vector_eq_ok {items : List Expr}
    (h : ((Expr.vector items).plan r scope).runFrom start = (.ok p, next)) :
    ∃ ps, (planItems r scope items).runFrom start = (.ok ps, next) ∧ p = .array ps := by
  obtain ⟨ps, middle, hps, h⟩ := Drawing.runFrom_bind_eq_ok_iff.mp h
  obtain rfl : middle = next := (Prod.mk.inj h).2
  exact ⟨ps, hps, runFrom_pure_eq_ok h⟩

theorem plan_map_eq_ok {entries : List (String × Expr)}
    (h : ((Expr.map entries).plan r scope).runFrom start = (.ok p, next)) :
    ∃ os, (planEntries r scope entries).runFrom start = (.ok os, next) ∧ p = .object os := by
  obtain ⟨os, middle, hos, h⟩ := Drawing.runFrom_bind_eq_ok_iff.mp h
  obtain rfl : middle = next := (Prod.mk.inj h).2
  exact ⟨os, hos, runFrom_pure_eq_ok h⟩

theorem plan_call_eq_ok {head : String} {offset : Nat} {args : List Expr}
    {options : List (String × Expr)}
    (h : ((Expr.call head offset args options).plan r scope).runFrom start = (.ok p, next)) :
    ∃ c ps os, r.resolve head = .ok c ∧
      (planItems r scope args).runFrom start = (.ok ps, start + itemParamCount args) ∧
      (planEntries r scope options).runFrom (start + itemParamCount args) = (.ok os, next) ∧
      p = .call c ps os := by
  obtain ⟨c, _, hhead, h⟩ := Drawing.runFrom_bind_eq_ok_iff.mp h
  rw [Drawing.runFrom_ofOutcome] at hhead
  obtain ⟨hc, rfl⟩ := Prod.mk.inj hhead
  obtain ⟨ps, middle, hps, h⟩ := Drawing.runFrom_bind_eq_ok_iff.mp h
  obtain rfl := (planItems_settles r args scope).next_eq hps
  obtain ⟨os, last, hos, h⟩ := Drawing.runFrom_bind_eq_ok_iff.mp h
  obtain rfl : last = next := (Prod.mk.inj h).2
  exact ⟨c, ps, os, mapError_eq_ok_iff.mp hc, hps, hos, runFrom_pure_eq_ok h⟩

theorem plan_fn_eq_ok {params : List String} {body : Expr}
    (h : ((Expr.fn params body).plan r scope).runFrom start = (.ok p, next)) :
    ∃ q, (body.plan r (params.zip (List.range' start params.length) ++ scope)).runFrom
        (start + params.length) = (.ok q, next) ∧
      p = .func (List.range' start params.length) q := by
  obtain ⟨ids, _, hdrawn, h⟩ := Drawing.runFrom_bind_eq_ok_iff.mp h
  rw [Drawing.runFrom_fresh] at hdrawn
  obtain ⟨hids, rfl⟩ := Prod.mk.inj hdrawn
  obtain rfl := Except.ok.inj hids
  obtain ⟨q, last, hq, h⟩ := Drawing.runFrom_bind_eq_ok_iff.mp h
  obtain rfl : last = next := (Prod.mk.inj h).2
  exact ⟨q, hq, runFrom_pure_eq_ok h⟩

theorem planItems_nil_eq_ok {ps : List Plan}
    (h : (planItems r scope []).runFrom start = (.ok ps, next)) : ps = [] :=
  runFrom_pure_eq_ok h

/-- A part draws its numbers before those of the parts after it. -/
theorem planItems_cons_eq_ok {e : Expr} {rest : List Expr} {ps : List Plan}
    (h : (planItems r scope (e :: rest)).runFrom start = (.ok ps, next)) :
    ∃ p qs, (e.plan r scope).runFrom start = (.ok p, start + e.paramCount) ∧
      (planItems r scope rest).runFrom (start + e.paramCount) = (.ok qs, next) ∧
      ps = p :: qs := by
  obtain ⟨p, middle, hp, h⟩ := Drawing.runFrom_bind_eq_ok_iff.mp h
  obtain rfl := (plan_settles r e scope).next_eq hp
  obtain ⟨qs, last, hqs, h⟩ := Drawing.runFrom_bind_eq_ok_iff.mp h
  obtain rfl : last = next := (Prod.mk.inj h).2
  exact ⟨p, qs, hp, hqs, runFrom_pure_eq_ok h⟩

/-- Names play no part in planning what stands under them. -/
theorem planEntries_eq_ok {entries : List (String × Expr)} {os : List (String × Plan)}
    (h : (planEntries r scope entries).runFrom start = (.ok os, next)) :
    (planItems r scope (entries.map Prod.snd)).runFrom start = (.ok (os.map Prod.snd), next) ∧
      os.map Prod.fst = entries.map Prod.fst := by
  induction entries generalizing start os with
  | nil =>
      obtain rfl : start = next := (Prod.mk.inj h).2
      obtain rfl := runFrom_pure_eq_ok h
      exact ⟨rfl, rfl⟩
  | cons entry rest ih =>
      obtain ⟨name, e⟩ := entry
      obtain ⟨p, middle, hp, h⟩ := Drawing.runFrom_bind_eq_ok_iff.mp h
      obtain ⟨ps, last, hps, h⟩ := Drawing.runFrom_bind_eq_ok_iff.mp h
      obtain rfl : last = next := (Prod.mk.inj h).2
      obtain rfl := runFrom_pure_eq_ok h
      obtain ⟨hitems, hnames⟩ := ih hps
      refine ⟨?_, by rw [List.map_cons, List.map_cons, hnames]⟩
      exact Drawing.runFrom_bind_eq_ok_iff.mpr
        ⟨p, middle, hp, Drawing.runFrom_bind_eq_ok_iff.mpr ⟨_, last, hitems, rfl⟩⟩

end Expr

/-! ## Carrying out -/

namespace Plan

variable {n : Normalizer} {v : Value}

theorem realizeItems_eq_mapM (n : Normalizer) :
    ∀ ps : List Plan, realizeItems n ps = ps.mapM (realize n)
  | [] => rfl
  | p :: rest => by rw [realizeItems, List.mapM_cons, realizeItems_eq_mapM n rest]

theorem realizeEntries_eq_mapM (n : Normalizer) :
    ∀ os : List (String × Plan), realizeEntries n os = os.mapM (onValue (realize n))
  | [] => rfl
  | (name, p) :: rest => by
      rw [realizeEntries, List.mapM_cons, realizeEntries_eq_mapM n rest]
      simp [onValue]

theorem realize_array_eq_ok {ps : List Plan} (h : (Plan.array ps).realize n = .ok v) :
    ∃ vs, List.Forall₂ (fun p v => p.realize n = .ok v) ps vs ∧ v = .array vs := by
  rw [realize, realizeItems_eq_mapM] at h
  obtain ⟨vs, hvs, h⟩ := bind_eq_ok_iff.mp h
  exact ⟨vs, mapM_eq_ok_iff.mp hvs, (Except.ok.inj h).symm⟩

theorem realize_object_eq_ok {os : List (String × Plan)} (h : (Plan.object os).realize n = .ok v) :
    ∃ fields, Named (fun p v => p.realize n = .ok v) os fields ∧
      v = .object (Fields.ofList fields) := by
  rw [realize, realizeEntries_eq_mapM] at h
  obtain ⟨fields, hfields, h⟩ := bind_eq_ok_iff.mp h
  exact ⟨fields, mapM_onValue_eq_ok_iff.mp hfields, (Except.ok.inj h).symm⟩

theorem realize_call_eq_ok_iff {c : Command} {ps : List Plan} {os : List (String × Plan)} :
    (Plan.call c ps os).realize n = .ok v ↔
      ∃ vs options t, List.Forall₂ (fun p v => p.realize n = .ok v) ps vs ∧
        Named (fun p v => p.realize n = .ok v) os options ∧
        c.construct n vs options = .ok t ∧ v = .term t := by
  rw [realize, realizeItems_eq_mapM, realizeEntries_eq_mapM]
  constructor
  · intro h
    obtain ⟨vs, hvs, h⟩ := bind_eq_ok_iff.mp h
    obtain ⟨options, hoptions, h⟩ := bind_eq_ok_iff.mp h
    obtain ⟨t, ht, h⟩ := bind_eq_ok_iff.mp h
    exact ⟨vs, options, t, mapM_eq_ok_iff.mp hvs, mapM_onValue_eq_ok_iff.mp hoptions, ht,
      (Except.ok.inj h).symm⟩
  · rintro ⟨vs, options, t, hvs, hoptions, ht, rfl⟩
    refine bind_eq_ok_iff.mpr ⟨vs, mapM_eq_ok_iff.mpr hvs, ?_⟩
    refine bind_eq_ok_iff.mpr ⟨options, mapM_onValue_eq_ok_iff.mpr hoptions, ?_⟩
    exact bind_eq_ok_iff.mpr ⟨t, ht, rfl⟩

theorem realize_func_eq_ok {ids : List Nat} {p : Plan} (h : (Plan.func ids p).realize n = .ok v) :
    ∃ w t, p.realize n = .ok w ∧ n.normalize w = .ok t ∧ v = .term (.func ids t) := by
  rw [realize] at h
  obtain ⟨w, hw, h⟩ := bind_eq_ok_iff.mp h
  obtain ⟨t, ht, h⟩ := bind_eq_ok_iff.mp h
  exact ⟨w, t, hw, ht, (Except.ok.inj h).symm⟩

end Plan

end Reql
