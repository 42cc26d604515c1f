/-
# `Reql.Proofs.Registry` — registries of the catalogue's commands

A registry that holds no command but the catalogue's, whatever the aliases, answers
with commands of the catalogue only.  Installing the catalogue, giving one of its
commands a name and adding aliases keep it that way.
-/
import Reql.Proofs.Fields
import Reql.Registry

namespace Reql.Registry

/-- No command but those of the catalogue. -/
def OnlyCatalogue (r : Registry) : Prop :=
  ∀ entry ∈ r.commands, entry.2 ∈ Command.Catalogue.commands

variable {r : Registry}

/-! ## What it answers with -/

/-- A name is looked up among the commands, and only then among the aliases. -/
theorem lookup?_eq_some_iff {name : String} {c : Command} :
    r.lookup? name = some c ↔ r.commands.get? name = some c ∨
      r.commands.get? name = none ∧
        ∃ target, r.aliases.get? name = some target ∧ r.commands.get? target = some c := by
  unfold lookup?
  cases r.commands.get? name with
  | some d => simp
  | none => simp [Option.bind_eq_some_iff]

/-- A name is looked up as it is, and only then with its dashes folded. -/
theorem get?_eq_some_iff {name : String} {c : Command} :
    r.get? name = some c ↔ r.lookup? name = some c ∨
      r.lookup? name = none ∧
        ∃ folded, foldDashes? name = some folded ∧ r.lookup? folded = some c := by
  unfold get?
  cases r.lookup? name with
  | some d => simp
  | none => simp [Option.bind_eq_some_iff]

theorem OnlyCatalogue.lookup?_mem (hr : r.OnlyCatalogue) {name : String} {c : Command}
    (h : r.lookup? name = some c) : c ∈ Command.Catalogue.commands := by
  rcases lookup?_eq_some_iff.mp h with hname | ⟨-, target, -, htarget⟩
  · exact hr _ (Fields.mem_of_get? hname)
  · exact hr _ (Fields.mem_of_get? htarget)

theorem OnlyCatalogue.resolve_mem (hr : r.OnlyCatalogue) {name : String} {c : Command}
    (h : r.resolve name = .ok c) : c ∈ Command.Catalogue.commands := by
  unfold resolve at h
  cases hname : r.get? name with
  | none => simp [hname] at h
  | some d =>
      simp only [hname] at h
      obtain rfl := Except.ok.inj h
      rcases get?_eq_some_iff.mp hname with hlookup | ⟨-, folded, -, hlookup⟩
      · exact hr.lookup?_mem hlookup
      · exact hr.lookup?_mem hlookup

/-! ## Writes one after another -/

section

variable {P : Registry → Prop}

/-- What each registration keeps, all of them keep, also up to a refusal. -/
theorem registerAll_keeps {cs : List Command}
    (hregister : ∀ r, P r → ∀ c ∈ cs, P (r.register c).registry) (hr : P r) :
    P (registerAll cs r).registry := by
  induction cs generalizing r with
  | nil => exact hr
  | cons c rest ih =>
      have hwritten := hregister r hr c (.head _)
      rw [registerAll]
      rcases hc : r.register c with ⟨r', answer⟩
      rw [hc] at hwritten
      cases answer with
      | ok _ => exact ih (fun r hr d hd => hregister r hr d (.tail _ hd)) hwritten
      | error _ => exact hwritten

theorem addAliases_keeps {spellings : List (String × String)}
    (halias : ∀ r, P r → ∀ pair ∈ spellings, P (r.addAlias pair.1 pair.2).registry) (hr : P r) :
    P (addAliases spellings r).registry := by
  induction spellings generalizing r with
  | nil => exact hr
  | cons pair rest ih =>
      obtain ⟨spelling, target⟩ := pair
      have hwritten := halias r hr (spelling, target) (.head _)
      rw [addAliases]
      rcases hc : r.addAlias spelling target with ⟨r', answer⟩
      rw [hc] at hwritten
      cases answer with
      | ok _ => exact ih (fun r hr pair hpair => halias r hr pair (.tail _ hpair)) hwritten
      | error _ => exact hwritten

theorem installCatalogue_keeps
    (hregister : ∀ r, P r → ∀ c ∈ Command.Catalogue.commands, P (r.register c).registry)
    (halias : ∀ r, P r → ∀ pair ∈ Command.Catalogue.spellings,
      P (r.addAlias pair.1 pair.2).registry)
    (hr : P r) : P r.installCatalogue.registry := by
  have hwritten := registerAll_keeps hregister hr
  unfold installCatalogue
  rcases hc : registerAll Command.Catalogue.commands r with ⟨r', answer⟩
  rw [hc] at hwritten
  cases answer with
  | ok _ => exact addAliases_keeps halias hwritten
  | error _ => exact hwritten

end

/-! ## Writes that keep to the catalogue -/

theorem onlyCatalogue_empty (n : Normalizer) (allowRedefinition : Bool) :
    (empty n allowRedefinition).OnlyCatalogue := fun _ h => nomatch h

theorem OnlyCatalogue.register (hr : r.OnlyCatalogue) {c : Command}
    (hc : c ∈ Command.Catalogue.commands) : (r.register c).registry.OnlyCatalogue := by
  unfold Registry.register
  split
  · exact hr
  · intro entry hentry
    rcases Fields.mem_insert hentry with rfl | hentry
    · exact hc
    · exact hr entry hentry

theorem OnlyCatalogue.addAlias (hr : r.OnlyCatalogue) (spelling target : String) :
    (r.addAlias spelling target).registry.OnlyCatalogue := by
  unfold Registry.addAlias
  split
  · exact hr
  · split <;> exact hr

theorem OnlyCatalogue.installCatalogue (hr : r.OnlyCatalogue) :
    r.installCatalogue.registry.OnlyCatalogue :=
  installCatalogue_keeps (fun _ hr _ hc => hr.register hc)
    (fun _ hr pair _ => hr.addAlias pair.1 pair.2) hr

/-- A registry made by installing the catalogue holds nothing else. -/
theorem onlyCatalogue_installed (n : Normalizer) (allowRedefinition : Bool) :
    (empty n allowRedefinition).installCatalogue.registry.OnlyCatalogue :=
  (onlyCatalogue_empty n allowRedefinition).installCatalogue

end Reql.Registry
