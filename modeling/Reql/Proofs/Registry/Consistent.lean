/-
# `Reql.Proofs.Registry.Consistent` — commands and aliases stay consistent

A registry is consistent if its two tables agree: no name is in both, every alias stands
for a command that is there, and every command is under its own name.  Each write keeps
it that way, whether it succeeds or is refused.  So all registries that can come about
are consistent (`consistent_of_reachable`).
-/
import Reql.Config.Basic
import Reql.Proofs.Registry

namespace Reql.Registry

/-! ## What can come about -/

/-- A write to a registry. -/
inductive Write where
  | register (c : Command)
  | addAlias (spelling target : String)
  | unregister (name : String)
  | installCatalogue

/-- The registry after the catalogue has been put in. -/
def installed (r : Registry) : Registry := r.installCatalogue.registry

/-- The registry after a write, which may have been refused. -/
def perform (r : Registry) : Write → Registry
  | .register c => (r.register c).registry
  | .addAlias spelling target => (r.addAlias spelling target).registry
  | .unregister name => (r.unregister name).registry
  | .installCatalogue => r.installed

/-- A registry that comes about by writes to one of those to begin with. -/
inductive Reachable : Registry → Prop where
  | blank : Reachable blank
  | standard : Reachable standard
  | configured {config : Config} {r : Registry} : config.registry = .ok r → Reachable r
  | write {r : Registry} (w : Write) : Reachable r → Reachable (r.perform w)

-- without a name for what is installed this would put in the whole catalogue
theorem standard_eq_installed : standard = blank.installed := rfl

theorem exists_of_configured {config : Config} {r : Registry} (h : config.registry = .ok r) :
    ∃ n allowRedefinition, (empty n allowRedefinition).installed = r := by
  unfold Config.registry Config.validate at h
  split at h
  · exact nomatch h
  · exact ⟨_, _, Except.ok.inj h⟩

/-! ## Consistency -/

/-- The names of the commands and the aliases fit together. -/
structure Consistent (r : Registry) : Prop where
  commands_sorted : r.commands.Sorted
  aliases_sorted : r.aliases.Sorted
  named : ∀ name c, r.commands.get? name = some c → c.name = name
  disjoint : ∀ spelling target, r.aliases.get? spelling = some target →
    r.commands.has spelling = false
  target : ∀ spelling target, r.aliases.get? spelling = some target → r.commands.has target = true

variable {r : Registry}

theorem consistent_empty (n : Normalizer) (allowRedefinition : Bool) :
    (empty n allowRedefinition).Consistent where
  commands_sorted := .nil
  aliases_sorted := .nil
  named _ _ h := nomatch h
  disjoint _ _ h := nomatch h
  target _ _ h := nomatch h

theorem Consistent.register (hr : r.Consistent) (c : Command) :
    (r.register c).registry.Consistent := by
  unfold Registry.register
  split
  · exact hr
  · refine ⟨Fields.sorted_insert hr.commands_sorted _ _, Fields.sorted_erase hr.aliases_sorted _,
      ?_, ?_, ?_⟩
    · intro name d hd
      rw [Fields.get?_insert] at hd
      split at hd
      · next hname =>
          obtain rfl := Option.some.inj hd
          exact hname.symm
      · exact hr.named name d hd
    · intro spelling target h
      obtain ⟨hne, h⟩ := Fields.get?_erase_eq_some_iff.mp h
      rw [Fields.has_insert, hr.disjoint spelling target h, Bool.or_false]
      exact beq_eq_false_iff_ne.mpr hne
    · intro spelling target h
      obtain ⟨-, h⟩ := Fields.get?_erase_eq_some_iff.mp h
      rw [Fields.has_insert, hr.target spelling target h, Bool.or_true]

theorem Consistent.addAlias (hr : r.Consistent) (spelling target : String) :
    (r.addAlias spelling target).registry.Consistent := by
  unfold Registry.addAlias
  split
  · exact hr
  · next htarget =>
      split
      · exact hr
      · next hfree =>
          have hspelling : r.commands.has spelling = false := by
            simp only [Bool.or_eq_true, not_or, Bool.not_eq_true] at hfree
            exact hfree.1
          refine ⟨hr.commands_sorted, Fields.sorted_insert hr.aliases_sorted _ _, hr.named, ?_, ?_⟩
          · intro other found h
            rw [Fields.get?_insert] at h
            split at h
            · next heq => rwa [heq]
            · exact hr.disjoint other found h
          · intro other found h
            rw [Fields.get?_insert] at h
            split at h
            · obtain rfl := Option.some.inj h
              simpa using htarget
            · exact hr.target other found h

theorem Consistent.unregister (hr : r.Consistent) (name : String) :
    (r.unregister name).registry.Consistent := by
  unfold Registry.unregister
  split
  · -- an alias goes, and no command with it
    refine ⟨hr.commands_sorted, Fields.sorted_erase hr.aliases_sorted _, hr.named, ?_, ?_⟩
    · intro spelling target h
      exact hr.disjoint spelling target (Fields.get?_erase_eq_some_iff.mp h).2
    · intro spelling target h
      exact hr.target spelling target (Fields.get?_erase_eq_some_iff.mp h).2
  · split
    · -- a command goes, and the aliases that stand for it
      have hkept {spelling target : String}
          (h : Fields.get? (r.aliases.filter fun entry => entry.2 ≠ name) spelling = some target) :
          r.aliases.get? spelling = some target ∧ target ≠ name := by
        simpa using (Fields.get?_filter_eq_some_iff (Fields.nodup_names hr.aliases_sorted)).mp h
      refine ⟨Fields.sorted_erase hr.commands_sorted _, List.Pairwise.filter _ hr.aliases_sorted,
        ?_, ?_, ?_⟩
      · intro other c h
        exact hr.named other c (Fields.get?_erase_eq_some_iff.mp h).2
      · intro spelling target h
        simp [Fields.has_erase, hr.disjoint spelling target (hkept h).1]
      · intro spelling target h
        obtain ⟨h, hne⟩ := hkept h
        simp [Fields.has_erase, hr.target spelling target h, hne]
    · exact hr

theorem Consistent.installed (hr : r.Consistent) : r.installed.Consistent :=
  installCatalogue_keeps (fun _ hr c _ => hr.register c)
    (fun _ hr pair _ => hr.addAlias pair.1 pair.2) hr

/-- A write keeps a registry consistent. -/
theorem Consistent.perform (hr : r.Consistent) (w : Write) : (r.perform w).Consistent := by
  cases w with
  | register c => exact hr.register c
  | addAlias spelling target => exact hr.addAlias spelling target
  | unregister name => exact hr.unregister name
  | installCatalogue => exact hr.installed

/-- However a registry has come about, it is consistent. -/
theorem consistent_of_reachable (h : r.Reachable) : r.Consistent := by
  induction h with
  | blank => exact consistent_empty _ _
  | standard =>
      have hblank : blank.Consistent := consistent_empty _ _
      exact standard_eq_installed ▸ hblank.installed
  | configured hconfig =>
      obtain ⟨n, allowRedefinition, rfl⟩ := exists_of_configured hconfig
      exact (consistent_empty n allowRedefinition).installed
  | write w _ ih => exact ih.perform w

/-! ## What a consistent registry answers -/

/-- A refused removal changes nothing: no alias is left without its command. -/
theorem Consistent.unregister_refused (hr : r.Consistent) {name : String} {cause : RegistryError}
    (h : (r.unregister name).answer = .error cause) : (r.unregister name).registry = r := by
  unfold Registry.unregister at h ⊢
  split at h
  · next target halias =>
      obtain ⟨c, hc⟩ := Option.isSome_iff_exists.mp (hr.target name target halias)
      simp [hc] at h
  · next halias =>
      split at h
      · exact nomatch h
      · rfl

theorem Consistent.get?_of_mem_names (hr : r.Consistent) {name : String} (h : name ∈ r.names) :
    ∃ c, r.get? name = some c ∧ c.name = name := by
  have hhas := (Fields.mem_names_iff _ _).mp h
  obtain ⟨c, hc⟩ := Option.isSome_iff_exists.mp hhas
  exact ⟨c, by simp [get?, lookup?, hc], hr.named name c hc⟩

theorem mem_aliasesOf_iff (hr : r.Consistent) {spelling name : String} :
    spelling ∈ r.aliasesOf name ↔ r.aliases.get? spelling = some name := by
  rw [Fields.get?_eq_some_iff_mem (Fields.nodup_names hr.aliases_sorted)]
  simp [aliasesOf, Fields.names]

/-- An alias is one of the command that it stands for, and of no other. -/
theorem Consistent.get?_of_alias (hr : r.Consistent) {spelling target : String}
    (h : r.aliases.get? spelling = some target) :
    ∃ c, r.get? spelling = some c ∧ ∀ name, spelling ∈ r.aliasesOf name ↔ name = c.name := by
  obtain ⟨c, hc⟩ := Option.isSome_iff_exists.mp (hr.target spelling target h)
  have hnone : r.commands.get? spelling = none :=
    Fields.has_eq_false_iff.mp (hr.disjoint spelling target h)
  refine ⟨c, by simp [get?, lookup?, hnone, h, hc], ?_⟩
  intro name
  rw [mem_aliasesOf_iff hr, h, hr.named target c hc, Option.some_inj]
  exact eq_comm

/-- In a registry that has come about by writes, refused or not, the names of commands and
aliases are told apart, and what they stand for is there under its own name. -/
theorem reachable_names (h : r.Reachable) :
    (∀ name, ¬ (r.commands.has name = true ∧ r.aliases.has name = true)) ∧
    (∀ spelling target, r.aliases.get? spelling = some target → r.commands.has target = true) ∧
    (∀ name c, r.commands.get? name = some c → c.name = name) ∧
    r.names.Pairwise (· < ·) ∧ r.names.length = r.size ∧
    (∀ name ∈ r.names, ∃ c, r.get? name = some c ∧ c.name = name) ∧
    ∀ spelling, r.aliases.has spelling = true →
      ∃ c, r.get? spelling = some c ∧ ∀ name, spelling ∈ r.aliasesOf name ↔ name = c.name := by
  have hr := consistent_of_reachable h
  refine ⟨?_, hr.target, hr.named, Fields.pairwise_names hr.commands_sorted, List.length_map _,
    fun name => hr.get?_of_mem_names, ?_⟩
  · rintro name ⟨hcommand, halias⟩
    obtain ⟨target, htarget⟩ := Option.isSome_iff_exists.mp halias
    exact Bool.false_ne_true ((hr.disjoint name target htarget).symm.trans hcommand)
  · intro spelling halias
    obtain ⟨target, htarget⟩ := Option.isSome_iff_exists.mp halias
    exact hr.get?_of_alias htarget

/-- An alias of the only command, after a removal that was refused. -/
theorem reachable_names_alias :
    let map : Command := { name := "map", operation := .map, required := [.sequence, .function 1] }
    let r := ((blank.perform (.register map)).perform (.addAlias "m" "map")).perform
      (.unregister "get")
    r.Reachable ∧
      ∃ c, r.get? "m" = some c ∧ ∀ name, "m" ∈ r.aliasesOf name ↔ name = c.name := by
  intro map r
  have hreachable : r.Reachable := .write _ (.write _ (.write _ .blank))
  have halias : r.aliases.has "m" = true := by decide +kernel
  exact ⟨hreachable, (reachable_names hreachable).2.2.2.2.2.2 "m" halias⟩

end Reql.Registry
