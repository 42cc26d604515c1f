/-
# `Reql.Proofs.Builder` — when a node can be built

Building refuses the operation of literals and an option named twice, nothing
else, so a built node says everything about what it was built from.  Whatever the steps
before that were, a property of all terms that they add is one of all parts (`Holds.run`).
-/
import Reql.Term.Builder

namespace Reql

theorem Fields.firstRepeated?_go_eq_none_iff (seen names : List String) :
    Fields.firstRepeated?.go seen names = none ↔ names.Nodup ∧ ∀ name ∈ names, name ∉ seen := by
  induction names generalizing seen with
  | nil => simp [Fields.firstRepeated?.go]
  | cons name rest ih =>
      rw [Fields.firstRepeated?.go]
      split
      · next hseen => simp [hseen]
      · next hseen =>
          rw [ih, List.nodup_cons]
          simp only [List.mem_cons, not_or, forall_eq_or_imp]
          constructor
          · rintro ⟨hrest, hfresh⟩
            exact ⟨⟨fun hmem => (hfresh name hmem).1 rfl, hrest⟩, hseen,
              fun other hmem => (hfresh other hmem).2⟩
          · rintro ⟨⟨hname, hrest⟩, -, hfresh⟩
            exact ⟨hrest, fun other hmem => ⟨fun h => hname (h ▸ hmem), hfresh other hmem⟩⟩

theorem Fields.firstRepeated?_eq_none_iff (names : List String) :
    Fields.firstRepeated? names = none ↔ names.Nodup := by
  simp [Fields.firstRepeated?, Fields.firstRepeated?_go_eq_none_iff]

theorem Term.Builder.build_eq_ok_iff {op : Operation} {ts : List Term}
    {us : List (String × Term)} {t : Term} :
    Term.Builder.build ⟨op, ts, us⟩ = .ok t ↔
      op ≠ .datum ∧ (us.map Prod.fst).Nodup ∧ t = .apply op ts (Fields.ofList us) := by
  simp only [Term.Builder.build]
  split
  · next hop => simp [hop]
  · next hop =>
      rw [← Fields.firstRepeated?_eq_none_iff]
      cases Fields.firstRepeated? (us.map Prod.fst) with
      | some name => simp
      | none => simp [hop, eq_comm]

/-! ## Steps -/

namespace Term.Builder

/-- One call on a builder. -/
inductive Step where
  | arg (t : Term)
  | addArgs (ts : List Term)
  | option (name : String) (t : Term)

/-- The terms that a step adds. -/
def Step.terms : Step → List Term
  | .arg t => [t]
  | .addArgs ts => ts
  | .option _ t => [t]

/-- The builder after a call. -/
def step (b : Builder) : Step → Builder
  | .arg t => b.arg t
  | .addArgs ts => b.addArgs ts
  | .option name t => b.option name t

/-- The builder after calls in order. -/
def run (b : Builder) (steps : List Step) : Builder := steps.foldl step b

/-- A property that all parts of a builder have. -/
structure Holds (P : Term → Prop) (b : Builder) : Prop where
  args : ∀ t ∈ b.args, P t
  options : ∀ u ∈ b.options, P u.2

variable {P : Term → Prop} {b : Builder}

theorem holds_new (P : Term → Prop) (op : Operation) : (new op).Holds P :=
  ⟨List.forall_mem_nil _, List.forall_mem_nil _⟩

theorem Holds.step (hb : b.Holds P) {s : Step} (hs : ∀ t ∈ s.terms, P t) : (b.step s).Holds P := by
  obtain ⟨hargs, hoptions⟩ := hb
  cases s with
  | arg t => exact ⟨List.forall_mem_append.mpr ⟨hargs, hs⟩, hoptions⟩
  | addArgs ts => exact ⟨List.forall_mem_append.mpr ⟨hargs, hs⟩, hoptions⟩
  | option name t =>
      have ht : P t := hs t (.head _)
      exact ⟨hargs, List.forall_mem_append.mpr ⟨hoptions, List.forall_mem_singleton.mpr ht⟩⟩

theorem Holds.run (hb : b.Holds P) {steps : List Step}
    (hsteps : ∀ s ∈ steps, ∀ t ∈ s.terms, P t) : (b.run steps).Holds P := by
  induction steps generalizing b with
  | nil => exact hb
  | cons s rest ih =>
      obtain ⟨hs, hrest⟩ := List.forall_mem_cons.mp hsteps
      exact ih (hb.step hs) hrest

end Term.Builder

end Reql
