/-
# `Reql.Proofs.Hygiene.Numbers` — the numbers drawn in a place

Planning draws numbers in the order of places, a function before its body.  So functions
in different places draw different numbers (`numberAt_lt`).
-/
import Reql.Proofs.Hygiene.Parts

namespace Reql.Expr

/-- The number from which the part in a place is planned. -/
def numberAt : Expr → Nat → List Nat → Nat
  | _, start, [] => start
  | e, start, i :: q =>
    match e.children[i]? with
    | some c => c.numberAt (e.childStart start i) q
    | none => start

variable {e c d d' : Expr} {i j : Nat} {q q' : List Nat}

theorem numberAt_cons (hc : e.children[i]? = some c) (start : Nat) (q : List Nat) :
    e.numberAt start (i :: q) = c.numberAt (e.childStart start i) q := by
  rw [numberAt, hc]

/-! ## How many -/

/-- An expression draws numbers of its own, then those of its parts. -/
theorem paramCount_eq (e : Expr) : e.paramCount = e.ownCount + itemParamCount e.children := by
  cases e with
  | map entries =>
      rw [paramCount, entryParamCount_eq]
      exact (Nat.zero_add _).symm
  | call head offset args options =>
      rw [paramCount, entryParamCount_eq, children, itemParamCount_append]
      exact (Nat.zero_add _).symm
  | vector items => exact (Nat.zero_add _).symm
  | _ => rfl

theorem childStart_succ (hc : e.children[i]? = some c) (start : Nat) :
    e.childStart start (i + 1) = e.childStart start i + c.paramCount := by
  obtain ⟨hi, rfl⟩ := List.getElem?_eq_some_iff.mp hc
  rw [childStart, List.take_succ_eq_append_getElem hi, itemParamCount_append, ← Nat.add_assoc]
  rfl

theorem childStart_mono (e : Expr) (start : Nat) (h : i ≤ j) :
    e.childStart start i ≤ e.childStart start j := by
  have htake := itemParamCount_append ((e.children.take j).take i) ((e.children.take j).drop i)
  rw [List.take_append_drop, List.take_take, Nat.min_eq_left h] at htake
  rw [childStart, childStart]
  omega

/-! ## In what order -/

/-- The numbers of a part are among those of the whole. -/
theorem child_numbers (hc : e.children[i]? = some c) (start : Nat) :
    start + e.ownCount ≤ e.childStart start i ∧
      e.childStart start i + c.paramCount ≤ start + e.paramCount := by
  have htake := itemParamCount_append (e.children.take (i + 1)) (e.children.drop (i + 1))
  rw [List.take_append_drop] at htake
  rw [← childStart_succ hc, paramCount_eq, childStart, childStart]
  omega

theorem numberAt_bounds (hq : e.at? q = some d) (start : Nat) :
    start ≤ e.numberAt start q ∧
      e.numberAt start q + d.paramCount ≤ start + e.paramCount := by
  induction q generalizing e start with
  | nil =>
      obtain rfl := Option.some.inj hq
      exact ⟨Nat.le_refl _, Nat.le_refl _⟩
  | cons i q ih =>
      obtain ⟨c, hc, hq⟩ := at?_cons_eq_some_iff.mp hq
      obtain ⟨hlower, hupper⟩ := child_numbers hc start
      obtain ⟨hfrom, hto⟩ := ih hq (e.childStart start i)
      rw [numberAt_cons hc]
      omega

/-- What comes later gets later numbers than an expression's own. -/
theorem numberAt_lt (hq : e.at? q = some d) (hq' : e.at? q' = some d') (start : Nat)
    (h : q < q') : e.numberAt start q + d.ownCount ≤ e.numberAt start q' := by
  induction q generalizing e start q' with
  | nil =>
      obtain rfl := Option.some.inj hq
      cases q' with
      | nil => exact absurd h (List.lt_irrefl [])
      | cons j q' =>
          obtain ⟨c', hc', hq'⟩ := at?_cons_eq_some_iff.mp hq'
          rw [numberAt_cons hc']
          exact Nat.le_trans (child_numbers hc' start).1 (numberAt_bounds hq' _).1
  | cons i q ih =>
      cases q' with
      | nil => exact absurd h (List.not_lt_nil _)
      | cons j q' =>
          obtain ⟨c, hc, hq⟩ := at?_cons_eq_some_iff.mp hq
          obtain ⟨c', hc', hq'⟩ := at?_cons_eq_some_iff.mp hq'
          rw [numberAt_cons hc, numberAt_cons hc']
          rcases List.cons_lt_cons_iff.mp h with hij | ⟨rfl, hlater⟩
          · have hend := (numberAt_bounds hq (e.childStart start i)).2
            have hnext := childStart_mono e start (Nat.succ_le_of_lt hij)
            have hbegin := (numberAt_bounds hq' (e.childStart start j)).1
            rw [Nat.succ_eq_add_one, childStart_succ hc] at hnext
            rw [paramCount_eq d] at hend
            omega
          · obtain rfl := Option.some.inj (hc.symm.trans hc')
            exact ih hq hq' _ hlater

end Reql.Expr
