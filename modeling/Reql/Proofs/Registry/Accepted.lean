/-
# `Reql.Proofs.Registry.Accepted` — writes that are accepted, and writes that are refused

What an accepted write does is one equation a write, with what it was accepted for.
Later proofs start from these and never open the writes themselves.

A refused write leaves the registry as it was (`refused_unchanged`).  For a removal
this rests on consistency: it takes the alias away before it looks for the command
behind it, and only because no alias dangles is there no refusal after that.
-/
import Reql.Proofs.Registry.Consistent

namespace Reql.Registry

variable {r : Registry}

/-! ## Accepted -/

theorem register_of_ok {c : Command} {previous : Option Command}
    (h : (r.register c).answer = .ok previous) :
    (r.allowRedefinition = true ∨ r.commands.has c.name = false ∧ r.aliases.has c.name = false) ∧
      (r.register c).registry =
        { r with commands := r.commands.insert c.name c, aliases := r.aliases.erase c.name } := by
  unfold register at h ⊢
  split at h
  · exact nomatch h
  · next hfree =>
      rw [if_neg hfree]
      refine ⟨?_, rfl⟩
      cases hallow : r.allowRedefinition with
      | true => exact .inl rfl
      | false => simpa [hallow] using hfree

theorem addAlias_of_ok {spelling target : String}
    (h : (r.addAlias spelling target).answer = .ok ()) :
    r.commands.has target = true ∧ r.commands.has spelling = false ∧
      (r.allowRedefinition = true ∨ r.aliases.has spelling = false) ∧
      (r.addAlias spelling target).registry =
        { r with aliases := r.aliases.insert spelling target } := by
  unfold addAlias at h ⊢
  split at h
  · exact nomatch h
  · next htarget =>
      split at h
      · exact nomatch h
      · next hfree =>
          rw [if_neg htarget, if_neg hfree]
          simp only [Bool.not_eq_true', Bool.not_eq_false] at htarget
          simp only [Bool.or_eq_true, Bool.and_eq_true, Bool.not_eq_true', not_or, not_and,
            Bool.not_eq_true] at hfree
          refine ⟨htarget, hfree.1, ?_, rfl⟩
          cases hallow : r.allowRedefinition with
          | true => exact .inl rfl
          | false => exact .inr (hfree.2 hallow)

/-- A removal takes an alias of that spelling, or else the command and its aliases. -/
theorem unregister_of_ok {name : String} {c : Command}
    (h : (r.unregister name).answer = .ok c) :
    (∃ target, r.aliases.get? name = some target ∧
        (r.unregister name).registry = { r with aliases := r.aliases.erase name }) ∨
      r.aliases.get? name = none ∧ r.commands.get? name = some c ∧
        (r.unregister name).registry =
          { r with
            commands := r.commands.erase name
            aliases := r.aliases.filter fun entry => entry.2 ≠ name } := by
  unfold unregister at h ⊢
  cases halias : r.aliases.get? name with
  | some target => exact .inl ⟨target, rfl, by simp⟩
  | none =>
      rw [halias] at h
      cases hname : r.commands.get? name with
      | none => simp [hname] at h
      | some d =>
          simp only [hname] at h
          obtain rfl := Except.ok.inj h
          exact .inr ⟨rfl, rfl, rfl⟩

/-! ## Refused -/

theorem register_of_error {c : Command} {cause : RegistryError}
    (h : (r.register c).answer = .error cause) : (r.register c).registry = r := by
  unfold register at h ⊢
  split at h
  · next htaken => rw [if_pos htaken]
  · exact nomatch h

theorem addAlias_of_error {spelling target : String} {cause : RegistryError}
    (h : (r.addAlias spelling target).answer = .error cause) :
    (r.addAlias spelling target).registry = r := by
  unfold addAlias at h ⊢
  split at h
  · next hmissing => rw [if_pos hmissing]
  · next htarget =>
      split at h
      · next htaken => rw [if_neg htarget, if_pos htaken]
      · exact nomatch h

/-- A single write that is refused changes nothing, in whatever registry has come about. -/
theorem refused_unchanged (h : r.Reachable) :
    (∀ c cause, (r.register c).answer = .error cause → (r.register c).registry = r) ∧
    (∀ spelling target cause, (r.addAlias spelling target).answer = .error cause →
      (r.addAlias spelling target).registry = r) ∧
    ∀ name cause, (r.unregister name).answer = .error cause →
      (r.unregister name).registry = r := by
  refine ⟨fun c cause => register_of_error, fun spelling target cause => addAlias_of_error, ?_⟩
  intro name cause hrefused
  exact (consistent_of_reachable h).unregister_refused hrefused

/-- Removing what is not there, and an alias for what is no command but an alias. -/
theorem refused_unchanged_missing :
    let map : Command := { name := "map", operation := .map, required := [.sequence, .function 1] }
    let r := (blank.perform (.register map)).perform (.addAlias "m" "map")
    r.Reachable ∧
      (r.unregister "get").answer = .error (.notFound "get") ∧
      (r.unregister "get").registry = r ∧
      (r.addAlias "map" "m").answer = .error (.noTarget "map" "m") ∧
      (r.addAlias "map" "m").registry = r := by
  intro map r
  have hreachable : r.Reachable := .write _ (.write _ .blank)
  have hremoval : (r.unregister "get").answer = .error (.notFound "get") := rfl
  have halias : (r.addAlias "map" "m").answer = .error (.noTarget "map" "m") := rfl
  obtain ⟨-, hunchanged, hremoved⟩ := refused_unchanged hreachable
  exact ⟨hreachable, hremoval, hremoved _ _ hremoval, halias, hunchanged _ _ _ halias⟩

end Reql.Registry
