/-
# `Reql.Proofs.Registry.Route` — the names that a look-up comes by

A name is looked up by way of a few others: what it is an alias of, and, if it is not
found, its form without dashes and what that is an alias of.  This is its route
(`Registry.route`).  An edit that writes none of these names changes neither the
command that the name stands for nor the route, and so a run of such edits does not
either (`get?_after`).

Other spellings of a name, by alias or with dashes, lead to the same command
(`Spells.get?_eq`).
-/
import Reql.Proofs.Registry.History
import Reql.Proofs.Registry.Policy

namespace Reql.Registry

/-- The name whose entry an edit changes. -/
def Edit.written : Edit → String
  | .register c => c.name
  | .addAlias spelling _ => spelling
  | .unregister name => name

/-- The names by way of which a name is looked up as it is spelled. -/
def reach (r : Registry) (name : String) : List String :=
  name :: (r.aliases.get? name).toList

/-- The names by way of which a name is looked up. -/
def route (r : Registry) (name : String) : List String :=
  match r.lookup? name, foldDashes? name with
  | none, some folded => r.reach name ++ r.reach folded
  | _, _ => r.reach name

variable {r : Registry} {name : String} {e : Edit}

/-! ## An edit elsewhere -/

theorem commands_perform (hr : r.Consistent) (hname : name ≠ e.written) :
    (r.perform e.write).commands.get? name = r.commands.get? name := by
  by_cases he : r.accepts e = true
  · cases e with
    | register c =>
        obtain ⟨_, hok⟩ := isOk_iff.mp he
        rw [Edit.write, perform, (register_of_ok hok).2]
        exact (Fields.get?_insert _ _ _ _).trans (if_neg hname)
    | addAlias spelling target =>
        obtain ⟨_, hok⟩ := isOk_iff.mp he
        rw [Edit.write, perform, (addAlias_of_ok hok).2.2.2]
    | unregister other =>
        obtain ⟨_, hok⟩ := isOk_iff.mp he
        rw [Edit.write, perform]
        rcases unregister_of_ok hok with ⟨_, -, hwritten⟩ | ⟨-, -, hwritten⟩
        · rw [hwritten]
        · rw [hwritten]
          exact (Fields.get?_erase _ _ _).trans (if_neg hname)
  · rw [perform_of_not_accepts hr he]

/-- Removing a command takes its aliases along, so what the name is an alias of counts too. -/
theorem aliases_perform (hr : r.Consistent) (hreach : e.written ∉ r.reach name) :
    (r.perform e.write).aliases.get? name = r.aliases.get? name := by
  have hname : name ≠ e.written := fun h => hreach (h ▸ List.mem_cons_self)
  by_cases he : r.accepts e = true
  · cases e with
    | register c =>
        obtain ⟨_, hok⟩ := isOk_iff.mp he
        rw [Edit.write, perform, (register_of_ok hok).2]
        exact (Fields.get?_erase _ _ _).trans (if_neg hname)
    | addAlias spelling target =>
        obtain ⟨_, hok⟩ := isOk_iff.mp he
        rw [Edit.write, perform, (addAlias_of_ok hok).2.2.2]
        exact (Fields.get?_insert _ _ _ _).trans (if_neg hname)
    | unregister other =>
        obtain ⟨_, hok⟩ := isOk_iff.mp he
        rw [Edit.write, perform]
        rcases unregister_of_ok hok with ⟨_, -, hwritten⟩ | ⟨-, -, hwritten⟩
        · rw [hwritten]
          exact (Fields.get?_erase _ _ _).trans (if_neg hname)
        · rw [hwritten]
          ext target
          rw [Fields.get?_filter_eq_some_iff (Fields.nodup_names hr.aliases_sorted)]
          constructor
          · exact And.left
          · intro halias
            refine ⟨halias, decide_eq_true ?_⟩
            rintro rfl
            exact hreach (by simp [reach, halias, Edit.written])
  · rw [perform_of_not_accepts hr he]

theorem lookup?_perform (hr : r.Consistent) (hreach : e.written ∉ r.reach name) :
    (r.perform e.write).lookup? name = r.lookup? name := by
  have hname : name ≠ e.written := fun h => hreach (h ▸ List.mem_cons_self)
  rw [lookup?, lookup?, commands_perform hr hname, aliases_perform hr hreach]
  cases halias : r.aliases.get? name with
  | none => rfl
  | some target =>
      have htarget : target ≠ e.written := by
        rintro rfl
        exact hreach (by simp [reach, halias])
      rw [Option.bind_some, Option.bind_some, commands_perform hr htarget]

theorem reach_perform (hr : r.Consistent) (hreach : e.written ∉ r.reach name) :
    (r.perform e.write).reach name = r.reach name := by
  rw [reach, reach, aliases_perform hr hreach]

theorem reach_subset_route : r.reach name ⊆ r.route name := by
  unfold route
  split
  · exact List.subset_append_left _ _
  · exact List.Subset.refl _

theorem reach_folded_subset_route {folded : String} (hnone : r.lookup? name = none)
    (hfolded : foldDashes? name = some folded) : r.reach folded ⊆ r.route name := by
  rw [route, hnone, hfolded]
  exact List.subset_append_right _ _

/-- An edit of a name that is not on the way leaves the way and its end alone. -/
theorem get?_perform (hr : r.Consistent) (hroute : e.written ∉ r.route name) :
    (r.perform e.write).get? name = r.get? name ∧
      (r.perform e.write).route name = r.route name := by
  have hreach : e.written ∉ r.reach name := fun h => hroute (reach_subset_route h)
  rw [get?, get?, route, route, lookup?_perform hr hreach, reach_perform hr hreach]
  cases hlookup : r.lookup? name with
  | some c => exact ⟨rfl, rfl⟩
  | none =>
      cases hfolded : foldDashes? name with
      | none => exact ⟨rfl, rfl⟩
      | some folded =>
          have hother : e.written ∉ r.reach folded :=
            fun h => hroute (reach_folded_subset_route hlookup hfolded h)
          simp only [Option.bind_some, lookup?_perform hr hother, reach_perform hr hother,
            and_self]

/-- Edits of names that are not on the way change nothing about a name. -/
theorem get?_after {run : List Edit} (hr : r.Consistent)
    (hrun : ∀ e ∈ run, e.written ∉ r.route name) : (r.after run).get? name = r.get? name := by
  induction run generalizing r with
  | nil => rfl
  | cons e rest ih =>
      obtain ⟨hget, hroute⟩ := get?_perform hr (hrun e List.mem_cons_self)
      rw [after, ← hget]
      refine ih (hr.perform e.write) ?_
      intro other hother
      rw [hroute]
      exact hrun other (List.mem_cons_of_mem _ hother)

theorem normalizer_perform (e : Edit) : (r.perform e.write).normalizer = r.normalizer := by
  cases e with
  | register c =>
      simp only [Edit.write, perform, register]
      split <;> rfl
  | addAlias spelling target =>
      simp only [Edit.write, perform, addAlias]
      split
      · rfl
      · split <;> rfl
  | unregister name =>
      simp only [Edit.write, perform, unregister]
      split
      · rfl
      · split <;> rfl

theorem normalizer_after (run : List Edit) : (r.after run).normalizer = r.normalizer := by
  induction run generalizing r with
  | nil => rfl
  | cons e rest ih => rw [after, ih, normalizer_perform]

/-! ## Other spellings -/

/-- The spelling is the name, or an alias of it, or has dashes where it has underscores;
a spelling with dashes must not be a name of its own. -/
inductive Spells (r : Registry) : String → String → Prop where
  | itself (name : String) : Spells r name name
  | byAlias {spelling name : String} : r.aliases.get? spelling = some name → Spells r spelling name
  | dashed {spelling folded name : String} : foldDashes? spelling = some folded →
      r.commands.has spelling = false → r.aliases.has spelling = false →
      Spells r folded name → Spells r spelling name

/-- There are no dashes left to fold. -/
theorem foldDashes?_folded {folded : String} (h : foldDashes? name = some folded) :
    foldDashes? folded = none := by
  unfold foldDashes? at h ⊢
  split at h
  · obtain rfl := Option.some.inj h
    rw [if_neg]
    rintro ⟨hdash, -⟩
    rw [Text.replaceChar, String.toList_ofList] at hdash
    obtain ⟨letter, -, hletter⟩ := List.mem_map.mp hdash
    split at hletter
    · exact absurd hletter (by decide)
    · next hne => exact hne hletter
  · exact nomatch h

theorem Spells.get?_eq (hr : r.Consistent) {spelling : String} (h : r.Spells spelling name) :
    r.get? spelling = r.get? name := by
  induction h with
  | itself name => rfl
  | @byAlias spelling name halias =>
      have hcommand := Fields.has_eq_false_iff.mp (hr.disjoint spelling name halias)
      obtain ⟨c, hc⟩ := Option.isSome_iff_exists.mp (hr.target spelling name halias)
      simp [get?, lookup?, hcommand, halias, hc]
  | @dashed spelling folded name hfolded hcommand halias _ ih =>
      have hnone := hr.lookup?_eq_none_iff.mpr ⟨hcommand, halias⟩
      rw [← ih, get?, get?, hnone, hfolded, foldDashes?_folded hfolded]
      simp only [Option.bind_some, Option.bind_none]
      cases r.lookup? folded <;> rfl

end Reql.Registry
