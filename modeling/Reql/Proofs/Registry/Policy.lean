/-
# `Reql.Proofs.Registry.Policy` — what a registry without redefinition protects

Where redefinition is not allowed, names of commands and aliases are never given away.  An
accepted registration, and an accepted alias, adds one name that was neither a command nor an
alias, and every other name is looked up as before (`adds_register`, `adds_addAlias`).

A name can also answer without being either, because its dashes are folded.  Such a
name is free to be written, and then it answers with what was written
(`strict_write_keeps`).  With the catalogue in place this happens to `table-create`
(`table_create_taken`).
-/
import Reql.Proofs.Registry.Installed

namespace Reql.Registry

variable {r : Registry} {name : String} {d : Command}

/-! ## One write -/

/-- In a consistent registry a name is found if it is a command or an alias. -/
theorem Consistent.lookup?_eq_none_iff (hr : r.Consistent) :
    r.lookup? name = none ↔ r.commands.has name = false ∧ r.aliases.has name = false := by
  unfold lookup? Fields.has
  cases r.commands.get? name with
  | some c => simp
  | none =>
      cases halias : r.aliases.get? name with
      | none => simp
      | some target =>
          have htarget := hr.target name target halias
          simpa [Fields.has, Option.isSome_iff_ne_none] using htarget

/-- One name is found that was not found before, and every other is looked up as before. -/
structure Adds (r r' : Registry) (written : String) (c : Command) : Prop where
  free : r.lookup? written = none
  lookup?_eq : ∀ name, r'.lookup? name = if name = written then some c else r.lookup? name

/-- Where redefinition is not allowed, an accepted registration adds a name. -/
theorem adds_register (hr : r.Consistent) (hstrict : r.allowRedefinition = false)
    {c : Command} {previous : Option Command} (hok : (r.register c).answer = .ok previous) :
    r.Adds (r.register c).registry c.name c := by
  obtain ⟨hallowed, hwritten⟩ := register_of_ok hok
  obtain ⟨hcommand, halias⟩ := hallowed.resolve_left (by simp [hstrict])
  refine ⟨hr.lookup?_eq_none_iff.mpr ⟨hcommand, halias⟩, ?_⟩
  intro name
  rw [hwritten]
  by_cases hname : name = c.name
  · simp [lookup?, Fields.get?_insert, hname]
  · have hcommands : (r.commands.insert c.name c).get? name = r.commands.get? name :=
      (Fields.get?_insert _ _ _ _).trans (if_neg hname)
    have haliases : (r.aliases.erase c.name).get? name = r.aliases.get? name :=
      (Fields.get?_erase _ _ _).trans (if_neg hname)
    rw [if_neg hname, lookup?, lookup?, hcommands, haliases]
    cases r.commands.get? name with
    | some _ => rfl
    | none =>
        cases hfound : r.aliases.get? name with
        | none => rfl
        | some target =>
            -- the target is a command already, so it is not the one that is written
            have htarget := hr.target name target hfound
            have hne : target ≠ c.name := by
              rintro rfl
              exact Bool.false_ne_true (hcommand.symm.trans htarget)
            exact (Fields.get?_insert _ _ _ _).trans (if_neg hne)

/-- So does an accepted alias; it stands for the command that it was made an alias of. -/
theorem adds_addAlias (hr : r.Consistent) (hstrict : r.allowRedefinition = false)
    {spelling target : String} (hok : (r.addAlias spelling target).answer = .ok ()) :
    ∃ c, r.commands.get? target = some c ∧
      r.Adds (r.addAlias spelling target).registry spelling c := by
  obtain ⟨htarget, hcommand, hallowed, hwritten⟩ := addAlias_of_ok hok
  have halias := hallowed.resolve_left (by simp [hstrict])
  obtain ⟨c, hc⟩ := Option.isSome_iff_exists.mp htarget
  refine ⟨c, hc, hr.lookup?_eq_none_iff.mpr ⟨hcommand, halias⟩, ?_⟩
  intro name
  rw [hwritten]
  simp only [lookup?, Fields.get?_insert]
  by_cases hname : name = spelling
  · have hnone := Fields.has_eq_false_iff.mp hcommand
    simp [hname, hnone, hc]
  · simp [hname]

namespace Adds

variable {r' : Registry} {written : String} {c : Command}

theorem lookup?_written (h : r.Adds r' written c) : r'.lookup? written = some c := by
  rw [h.lookup?_eq, if_pos rfl]

/-- What was found is found. -/
theorem lookup?_eq_some (h : r.Adds r' written c) (hname : r.lookup? name = some d) :
    r'.lookup? name = some d := by
  rw [h.lookup?_eq, if_neg, hname]
  rintro rfl
  exact nomatch h.free.symm.trans hname

/-- A name answers with the same command as before, or it is the one that is new. -/
theorem get?_eq_some (h : r.Adds r' written c) (hname : r.get? name = some d) :
    r'.get? name = some d ∨ name = written ∧ r'.get? name = some c := by
  rcases get?_eq_some_iff.mp hname with hlookup | ⟨hnone, folded, hfolded, hlookup⟩
  · exact .inl (get?_eq_some_iff.mpr (.inl (h.lookup?_eq_some hlookup)))
  · by_cases heq : name = written
    · subst heq
      exact .inr ⟨rfl, get?_eq_some_iff.mpr (.inl h.lookup?_written)⟩
    · have hstill : r'.lookup? name = none := by rw [h.lookup?_eq, if_neg heq, hnone]
      have hkept := h.lookup?_eq_some hlookup
      exact .inl (get?_eq_some_iff.mpr (.inr ⟨hstill, folded, hfolded, hkept⟩))

end Adds

/-- Where redefinition is not allowed, a name answers after a registration or a new alias as
it did before.  The exception is a name that is neither a command nor an alias, when just that
name is written; it answers with what was written. -/
theorem strict_write_keeps (h : r.Reachable) (hstrict : r.allowRedefinition = false)
    (hname : r.get? name = some d) :
    (∀ c previous, (r.register c).answer = .ok previous →
      (r.register c).registry.get? name = some d ∨
        name = c.name ∧ r.commands.has name = false ∧ r.aliases.has name = false ∧
          (r.register c).registry.get? name = some c) ∧
    ∀ spelling target, (r.addAlias spelling target).answer = .ok () →
      (r.addAlias spelling target).registry.get? name = some d ∨
        name = spelling ∧ r.commands.has name = false ∧ r.aliases.has name = false ∧
          (r.addAlias spelling target).registry.get? name = r.commands.get? target := by
  have hr := consistent_of_reachable h
  constructor
  · intro c previous hok
    have hadds := adds_register hr hstrict hok
    refine (hadds.get?_eq_some hname).imp_right ?_
    rintro ⟨rfl, hget⟩
    obtain ⟨hcommand, halias⟩ := hr.lookup?_eq_none_iff.mp hadds.free
    exact ⟨rfl, hcommand, halias, hget⟩
  · intro spelling target hok
    obtain ⟨c, hc, hadds⟩ := adds_addAlias hr hstrict hok
    refine (hadds.get?_eq_some hname).imp_right ?_
    rintro ⟨rfl, hget⟩
    obtain ⟨hcommand, halias⟩ := hr.lookup?_eq_none_iff.mp hadds.free
    exact ⟨rfl, hcommand, halias, hget.trans hc.symm⟩

/-! ## The catalogue without redefinition -/

/-- The registry that holds the catalogue and does not allow redefinition. -/
def strict : Registry := (empty ⟨Normalizer.defaultDepth⟩ false).installed

theorem strict_eq_withCatalogue :
    strict = (empty ⟨Normalizer.defaultDepth⟩ false).withCatalogue :=
  installed_eq (installCatalogue_empty _ _)

theorem reachable_strict : strict.Reachable := by
  have hvalid : Config.validate { allowRedefinition := false } = .ok () := by decide
  obtain ⟨r, hconfig, hinstalled, -⟩ := exists_registry hvalid
  have hstrict : strict = r := installed_eq hinstalled
  rw [hstrict]
  exact .configured hconfig

theorem allowRedefinition_strict : strict.allowRedefinition = false := by
  rw [strict_eq_withCatalogue, allowRedefinition_withCatalogue]
  rfl

/-- A name that the catalogue does not use is neither a command nor an alias. -/
theorem free_strict (hcommand : name ∉ Command.Catalogue.commands.map Command.name)
    (halias : name ∉ Command.Catalogue.spellings.map Prod.fst) :
    strict.commands.has name = false ∧ strict.aliases.has name = false := by
  rw [Fields.has_eq_false_iff, Fields.has_eq_false_iff, strict_eq_withCatalogue,
    get?_commands_withCatalogue_of_not_mem hcommand,
    get?_aliases_withCatalogue_of_not_mem hcommand halias]
  exact ⟨rfl, rfl⟩

theorem register_strict {c : Command}
    (hcommand : c.name ∉ Command.Catalogue.commands.map Command.name)
    (halias : c.name ∉ Command.Catalogue.spellings.map Prod.fst) :
    (strict.register c).answer = .ok none := by
  obtain ⟨hc, ha⟩ := free_strict hcommand halias
  have hnone := Fields.has_eq_false_iff.mp hc
  simp [Registry.register, hc, ha, hnone]

/-- The command of the catalogue that creates tables. -/
def tableCreate : Command :=
  { name := "table_create", operation := .tableCreate, required := [.string],
    options := Command.Catalogue.tableCreateOptions, assembly := .tableCreate }

/-- Its name is not written with a dash, and answers nevertheless. -/
theorem get?_strict_dashed : strict.get? "table-create" = some tableCreate := by
  have hmem : tableCreate ∈ Command.Catalogue.commands := by decide +kernel
  have hcommand := get?_commands_withCatalogue (r := empty ⟨Normalizer.defaultDepth⟩ false) hmem
  rw [← strict_eq_withCatalogue] at hcommand
  have hfree : strict.lookup? "table-create" = none :=
    (consistent_of_reachable reachable_strict).lookup?_eq_none_iff.mpr
      (free_strict (by decide +kernel) (by decide +kernel))
  have hfolded : strict.lookup? "table_create" = some tableCreate :=
    lookup?_eq_some_iff.mpr (.inl hcommand)
  exact get?_eq_some_iff.mpr (.inr ⟨hfree, "table_create", by decide +kernel, hfolded⟩)

/-- The name `table-create` answers with `table_create`, and can nevertheless be given to
another command although redefinition is not allowed. -/
theorem table_create_taken :
    let upcase : Command := { name := "table-create", operation := .upcase, required := [.string] }
    strict.Reachable ∧ strict.allowRedefinition = false ∧
      strict.get? "table-create" = some tableCreate ∧
      (strict.register upcase).answer = .ok none ∧
      (strict.register upcase).registry.get? "table-create" = some upcase ∧
      upcase ≠ tableCreate := by
  intro upcase
  have hok : (strict.register upcase).answer = .ok none :=
    register_strict (by decide +kernel) (by decide +kernel)
  have hadds :=
    adds_register (consistent_of_reachable reachable_strict) allowRedefinition_strict hok
  have hafter : (strict.register upcase).registry.get? "table-create" = some upcase :=
    get?_eq_some_iff.mpr (.inl hadds.lookup?_written)
  exact ⟨reachable_strict, allowRedefinition_strict, get?_strict_dashed, hok, hafter, by decide⟩

/-- Another new command leaves `table-create` as it is. -/
theorem strict_write_keeps_shout :
    let shout : Command := { name := "shout", operation := .upcase, required := [.string] }
    strict.Reachable ∧ strict.allowRedefinition = false ∧
      strict.get? "table-create" = some tableCreate ∧
      (strict.register shout).answer = .ok none ∧
      (strict.register shout).registry.get? "table-create" = some tableCreate := by
  intro shout
  have hok : (strict.register shout).answer = .ok none :=
    register_strict (by decide +kernel) (by decide +kernel)
  rcases (strict_write_keeps reachable_strict allowRedefinition_strict get?_strict_dashed).1 shout
    none hok with hkept | ⟨hname, -⟩
  · exact ⟨reachable_strict, allowRedefinition_strict, get?_strict_dashed, hok, hkept⟩
  · exact absurd hname (by decide)

end Reql.Registry
