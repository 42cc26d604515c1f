/-
# `Reql.Proofs.Registry.Installed` — the catalogue can always be put back

A registration is refused only if redefinition is not allowed and its name is taken, and an alias
also for want of its target or because its spelling is the name of a command.  Names that are
free, or may be redefined, can be written one after another (`Writable`), and the registry that
this leads to is known in full (`registered`, `aliased`).

The catalogue is a list of commands and then a list of aliases for them.  Aliases do not touch
the commands, so whether it can be put in is settled beforehand: the names of the commands have
to leave its spellings free.  Where nothing is yet they do, so no configuration can have the
catalogue refused (`exists_registry`).  A second run writes what is there already
(`install_restores`).

The lists stay variables until the catalogue itself comes in.  About it only five facts are used,
and none of its entries.
-/
import Reql.Proofs.Registry.Accepted

namespace Reql.Registry

variable {r : Registry}

/-! ## Names that can be written -/

/-- Redefinition is allowed, or the names are all different and none of them is taken. -/
def Writable (r : Registry) (names : List String) : Prop :=
  r.allowRedefinition = true ∨
    names.Nodup ∧ ∀ name ∈ names, r.commands.has name = false ∧ r.aliases.has name = false

theorem writable_empty (n : Normalizer) (allowRedefinition : Bool) {names : List String}
    (h : names.Nodup) : (empty n allowRedefinition).Writable names :=
  .inr ⟨h, fun _ _ => ⟨rfl, rfl⟩⟩

/-! ## Many registrations -/

/-- The registry with commands put under their names. -/
def registered (r : Registry) (cs : List Command) : Registry :=
  { r with
    commands := r.commands.insertAll (cs.map fun c => (c.name, c))
    aliases := r.aliases.eraseAll (cs.map Command.name) }

section

variable {cs : List Command}

/-- The first of the names is written, and the others can be written still. -/
theorem register_of_writable {c : Command} {names : List String}
    (h : r.Writable (c.name :: names)) :
    r.register c = ⟨r.registered [c], .ok (r.commands.get? c.name)⟩ ∧
      (r.registered [c]).Writable names := by
  rcases h with hallow | ⟨hnodup, hfree⟩
  · exact ⟨by simp [register, hallow, registered, Fields.insertAll, Fields.eraseAll], .inl hallow⟩
  · obtain ⟨hname, hnodup⟩ := List.nodup_cons.mp hnodup
    obtain ⟨⟨hcommand, halias⟩, hfree⟩ := List.forall_mem_cons.mp hfree
    refine ⟨by simp [register, hcommand, halias, registered, Fields.insertAll, Fields.eraseAll],
      .inr ⟨hnodup, ?_⟩⟩
    intro name hmem
    have hne : name ≠ c.name := ne_of_mem_of_not_mem hmem hname
    obtain ⟨hcommand, halias⟩ := hfree name hmem
    exact ⟨by simp [registered, Fields.insertAll, Fields.has_insert, hne, hcommand],
      by simp [registered, Fields.eraseAll, Fields.has_erase, halias]⟩

theorem registerAll_of_writable (h : r.Writable (cs.map Command.name)) :
    registerAll cs r = ⟨r.registered cs, .ok ()⟩ := by
  induction cs generalizing r with
  | nil => rfl
  | cons c rest ih =>
      obtain ⟨hwrite, hrest⟩ := register_of_writable h
      rw [registerAll, hwrite]
      exact ih hrest

theorem normalizer_registered : (r.registered cs).normalizer = r.normalizer := rfl

theorem allowRedefinition_registered :
    (r.registered cs).allowRedefinition = r.allowRedefinition := rfl

theorem get?_commands_registered (hnames : (cs.map Command.name).Nodup) {c : Command}
    (hc : c ∈ cs) : (r.registered cs).commands.get? c.name = some c := by
  have hnodup : ((cs.map fun c => (c.name, c)).map Prod.fst).Nodup := by
    rw [List.map_map]
    exact hnames
  exact Fields.get?_insertAll_of_mem hnodup (List.mem_map_of_mem hc) r.commands

theorem get?_commands_registered_of_not_mem {name : String} (h : name ∉ cs.map Command.name) :
    (r.registered cs).commands.get? name = r.commands.get? name := by
  refine Fields.get?_insertAll_of_not_mem ?_
  rw [List.map_map]
  exact h

theorem get?_aliases_registered (spelling : String) :
    (r.registered cs).aliases.get? spelling =
      if spelling ∈ cs.map Command.name then none else r.aliases.get? spelling :=
  Fields.get?_eraseAll _ _ _

/-- Commands that are there, under names that are no aliases, are put in to no effect. -/
theorem registered_eq_self (hsorted : r.commands.Sorted)
    (hcommand : ∀ c ∈ cs, r.commands.get? c.name = some c)
    (halias : ∀ c ∈ cs, r.aliases.get? c.name = none) : r.registered cs = r := by
  have hcommands : r.commands.insertAll (cs.map fun c => (c.name, c)) = r.commands := by
    refine Fields.insertAll_eq_self hsorted ?_
    intro entry hentry
    obtain ⟨c, hc, rfl⟩ := List.mem_map.mp hentry
    exact hcommand c hc
  have haliases : r.aliases.eraseAll (cs.map Command.name) = r.aliases := by
    refine Fields.eraseAll_eq_self ?_
    intro name hname
    obtain ⟨c, hc, rfl⟩ := List.mem_map.mp hname
    exact halias c hc
  rw [registered, hcommands, haliases]

end

/-! ## Many aliases -/

/-- The registry with spellings as aliases. -/
def aliased (r : Registry) (pairs : List (String × String)) : Registry :=
  { r with aliases := r.aliases.insertAll pairs }

section

variable {pairs : List (String × String)}

theorem normalizer_aliased : (r.aliased pairs).normalizer = r.normalizer := rfl

theorem allowRedefinition_aliased :
    (r.aliased pairs).allowRedefinition = r.allowRedefinition := rfl

theorem commands_aliased : (r.aliased pairs).commands = r.commands := rfl

theorem addAlias_of_writable {spelling target : String} {names : List String}
    (h : r.Writable (spelling :: names)) (htarget : r.commands.has target = true)
    (hfree : r.commands.has spelling = false) :
    r.addAlias spelling target = ⟨r.aliased [(spelling, target)], .ok ()⟩ ∧
      (r.aliased [(spelling, target)]).Writable names := by
  rcases h with hallow | ⟨hnodup, hunused⟩
  · exact ⟨by simp [addAlias, hallow, htarget, hfree, aliased, Fields.insertAll], .inl hallow⟩
  · obtain ⟨hspelling, hnodup⟩ := List.nodup_cons.mp hnodup
    obtain ⟨⟨-, halias⟩, hunused⟩ := List.forall_mem_cons.mp hunused
    refine ⟨by simp [addAlias, htarget, hfree, halias, aliased, Fields.insertAll],
      .inr ⟨hnodup, ?_⟩⟩
    intro name hmem
    have hne : name ≠ spelling := ne_of_mem_of_not_mem hmem hspelling
    obtain ⟨hcommand, halias⟩ := hunused name hmem
    exact ⟨hcommand, by simp [aliased, Fields.insertAll, Fields.has_insert, hne, halias]⟩

/-- Each alias needs its target and a free spelling, and no alias changes that for the next. -/
theorem addAliases_of_writable (h : r.Writable (pairs.map Prod.fst))
    (htarget : ∀ pair ∈ pairs, r.commands.has pair.2 = true)
    (hfree : ∀ pair ∈ pairs, r.commands.has pair.1 = false) :
    addAliases pairs r = ⟨r.aliased pairs, .ok ()⟩ := by
  induction pairs generalizing r with
  | nil => rfl
  | cons pair rest ih =>
      obtain ⟨spelling, target⟩ := pair
      obtain ⟨ht, htarget⟩ := List.forall_mem_cons.mp htarget
      obtain ⟨hf, hfree⟩ := List.forall_mem_cons.mp hfree
      obtain ⟨hwrite, hrest⟩ := addAlias_of_writable h ht hf
      rw [addAliases, hwrite]
      exact ih hrest htarget hfree

theorem free_of_addAliases (h : (addAliases pairs r).answer = .ok ()) :
    ∀ pair ∈ pairs, r.commands.has pair.1 = false := by
  induction pairs generalizing r with
  | nil => exact List.forall_mem_nil _
  | cons pair rest ih =>
      obtain ⟨spelling, target⟩ := pair
      rw [addAliases] at h
      rcases hwrite : r.addAlias spelling target with ⟨r₁, answer⟩
      rw [hwrite] at h
      cases answer with
      | error _ => cases h
      | ok _ =>
          obtain ⟨-, hfree, -, hwritten⟩ := addAlias_of_ok (congrArg Outcome.answer hwrite)
          have hr₁ : r₁ = { r with aliases := r.aliases.insert spelling target } :=
            (congrArg Outcome.registry hwrite).symm.trans hwritten
          have hrest := ih h
          rw [hr₁] at hrest
          exact List.forall_mem_cons.mpr ⟨hfree, hrest⟩

theorem get?_aliases_aliased (hspellings : (pairs.map Prod.fst).Nodup) {pair : String × String}
    (h : pair ∈ pairs) : (r.aliased pairs).aliases.get? pair.1 = some pair.2 :=
  Fields.get?_insertAll_of_mem hspellings h r.aliases

theorem get?_aliases_aliased_of_not_mem {spelling : String} (h : spelling ∉ pairs.map Prod.fst) :
    (r.aliased pairs).aliases.get? spelling = r.aliases.get? spelling :=
  Fields.get?_insertAll_of_not_mem h

theorem aliased_eq_self (hsorted : r.aliases.Sorted)
    (halias : ∀ pair ∈ pairs, r.aliases.get? pair.1 = some pair.2) : r.aliased pairs = r := by
  rw [aliased, Fields.insertAll_eq_self hsorted halias]

end

end Reql.Registry

/-! ## The names of the catalogue -/

namespace Reql.Command.Catalogue

theorem nodup_names : (commands.map Command.name).Nodup := by decide +kernel

theorem nodup_spellings : (spellings.map Prod.fst).Nodup := by decide +kernel

/-- A spelling is not the name of a command as well. -/
theorem spelling_not_mem_names : ∀ pair ∈ spellings, pair.1 ∉ commands.map Command.name := by
  decide +kernel

theorem target_mem_names : ∀ pair ∈ spellings, pair.2 ∈ commands.map Command.name := by
  decide +kernel

/-- A command is the one that its name finds. -/
theorem find?_name {c : Command} (hc : c ∈ commands) : find? c.name = some c := by
  obtain ⟨d, hd⟩ : ∃ d, find? c.name = some d := by
    rw [← Option.isSome_iff_exists, find?, List.find?_isSome]
    exact ⟨c, hc, beq_self_eq_true _⟩
  have hname : d.name = c.name := by simpa using List.find?_some hd
  rw [hd, List.inj_on_of_nodup_map nodup_names (List.mem_of_find?_eq_some hd) hc hname]

end Reql.Command.Catalogue

/-! ## The whole catalogue -/

namespace Reql.Registry

open Command

variable {r : Registry}

/-- The registry with the catalogue put in. -/
def withCatalogue (r : Registry) : Registry :=
  (r.registered Catalogue.commands).aliased Catalogue.spellings

theorem has_registered_target {pair : String × String} (h : pair ∈ Catalogue.spellings) :
    (r.registered Catalogue.commands).commands.has pair.2 = true := by
  obtain ⟨c, hc, hname⟩ := List.mem_map.mp (Catalogue.target_mem_names pair h)
  rw [← hname]
  exact Option.isSome_of_eq_some (get?_commands_registered Catalogue.nodup_names hc)

/-- The commands of the catalogue take no spelling away. -/
theorem has_registered_spelling {pair : String × String} (h : pair ∈ Catalogue.spellings) :
    (r.registered Catalogue.commands).commands.has pair.1 = r.commands.has pair.1 := by
  have hname := Catalogue.spelling_not_mem_names pair h
  rw [Fields.has, Fields.has, get?_commands_registered_of_not_mem hname]

theorem Writable.registered (h : r.Writable (Catalogue.spellings.map Prod.fst)) :
    (r.registered Catalogue.commands).Writable (Catalogue.spellings.map Prod.fst) := by
  rcases h with hallow | ⟨hnodup, hfree⟩
  · exact .inl (by rw [allowRedefinition_registered, hallow])
  · refine .inr ⟨hnodup, ?_⟩
    intro spelling hspelling
    obtain ⟨hcommand, halias⟩ := hfree spelling hspelling
    obtain ⟨pair, hpair, rfl⟩ := List.mem_map.mp hspelling
    refine ⟨(has_registered_spelling hpair).trans hcommand, ?_⟩
    rw [Fields.has_eq_false_iff] at halias ⊢
    rw [get?_aliases_registered, if_neg (Catalogue.spelling_not_mem_names pair hpair), halias]

theorem installCatalogue_of_writable (h : r.Writable (Catalogue.commands.map Command.name)) :
    r.installCatalogue = addAliases Catalogue.spellings (r.registered Catalogue.commands) := by
  rw [installCatalogue, registerAll_of_writable h]

/-- If no command has one of its spellings, the catalogue is put in as a whole. -/
theorem installCatalogue_eq (hnames : r.Writable (Catalogue.commands.map Command.name))
    (hspellings : r.Writable (Catalogue.spellings.map Prod.fst))
    (hfree : ∀ pair ∈ Catalogue.spellings, r.commands.has pair.1 = false) :
    r.installCatalogue = ⟨r.withCatalogue, .ok ()⟩ := by
  rw [installCatalogue_of_writable hnames]
  refine addAliases_of_writable hspellings.registered (fun _ => has_registered_target) ?_
  intro pair hpair
  rw [has_registered_spelling hpair]
  exact hfree pair hpair

theorem installCatalogue_ok_iff (hallow : r.allowRedefinition = true) :
    r.installCatalogue.answer = .ok () ↔
      ∀ pair ∈ Catalogue.spellings, r.commands.has pair.1 = false := by
  constructor
  · intro h pair hpair
    rw [installCatalogue_of_writable (.inl hallow)] at h
    rw [← has_registered_spelling hpair]
    exact free_of_addAliases h pair hpair
  · intro hfree
    rw [installCatalogue_eq (.inl hallow) (.inl hallow) hfree]

theorem installed_eq {r' : Registry} {answer : Except RegistryError Unit}
    (h : r.installCatalogue = ⟨r', answer⟩) : r.installed = r' :=
  congrArg Outcome.registry h

/-- Where nothing is yet the catalogue can be put in, whether redefinition is allowed or not. -/
theorem installCatalogue_empty (n : Normalizer) (allowRedefinition : Bool) :
    (empty n allowRedefinition).installCatalogue =
      ⟨(empty n allowRedefinition).withCatalogue, .ok ()⟩ :=
  installCatalogue_eq (writable_empty n allowRedefinition Catalogue.nodup_names)
    (writable_empty n allowRedefinition Catalogue.nodup_spellings) fun _ _ => rfl

/-- Under valid settings there is a registry.  It is the one that the catalogue has been put into
without a refusal, and it holds nothing else. -/
theorem exists_registry {config : Config} (h : config.validate = .ok ()) :
    ∃ r, config.registry = .ok r ∧
      (empty ⟨config.nestingDepth⟩ config.allowRedefinition).installCatalogue = ⟨r, .ok ()⟩ ∧
      r.OnlyCatalogue := by
  -- with the catalogue spelled out in `r`, each step below would put it in again
  obtain ⟨r, hinstalled⟩ : ∃ r,
      (empty ⟨config.nestingDepth⟩ config.allowRedefinition).installCatalogue = ⟨r, .ok ()⟩ :=
    ⟨_, installCatalogue_empty _ _⟩
  have honly := onlyCatalogue_installed ⟨config.nestingDepth⟩ config.allowRedefinition
  rw [hinstalled] at honly
  refine ⟨r, ?_, hinstalled, honly⟩
  rw [Config.registry, h, hinstalled]
  rfl

/-! ## What the catalogue leaves behind -/

-- by `rfl` the two registries would be compared field by field, with the whole catalogue in them
theorem normalizer_withCatalogue : r.withCatalogue.normalizer = r.normalizer := by
  rw [withCatalogue, normalizer_aliased, normalizer_registered]

theorem allowRedefinition_withCatalogue :
    r.withCatalogue.allowRedefinition = r.allowRedefinition := by
  rw [withCatalogue, allowRedefinition_aliased, allowRedefinition_registered]

theorem commands_withCatalogue :
    r.withCatalogue.commands = (r.registered Catalogue.commands).commands := by
  rw [withCatalogue, commands_aliased]

theorem get?_commands_withCatalogue {c : Command} (hc : c ∈ Catalogue.commands) :
    r.withCatalogue.commands.get? c.name = some c := by
  rw [commands_withCatalogue, get?_commands_registered Catalogue.nodup_names hc]

theorem get?_aliases_withCatalogue {pair : String × String} (h : pair ∈ Catalogue.spellings) :
    r.withCatalogue.aliases.get? pair.1 = some pair.2 := by
  rw [withCatalogue, get?_aliases_aliased Catalogue.nodup_spellings h]

theorem get?_commands_withCatalogue_of_not_mem {name : String}
    (h : name ∉ Catalogue.commands.map Command.name) :
    r.withCatalogue.commands.get? name = r.commands.get? name := by
  rw [commands_withCatalogue, get?_commands_registered_of_not_mem h]

theorem get?_aliases_withCatalogue_of_not_mem {spelling : String}
    (hname : spelling ∉ Catalogue.commands.map Command.name)
    (hspelling : spelling ∉ Catalogue.spellings.map Prod.fst) :
    r.withCatalogue.aliases.get? spelling = r.aliases.get? spelling := by
  rw [withCatalogue, get?_aliases_aliased_of_not_mem hspelling, get?_aliases_registered,
    if_neg hname]

/-- A command of the catalogue answers to its name. -/
theorem get?_withCatalogue {c : Command} (hc : c ∈ Catalogue.commands) :
    r.withCatalogue.get? c.name = some c :=
  get?_eq_some_iff.mpr (.inl (lookup?_eq_some_iff.mpr (.inl (get?_commands_withCatalogue hc))))

/-- A spelling answers with the command that it stands for. -/
theorem get?_withCatalogue_spelling {pair : String × String} (h : pair ∈ Catalogue.spellings)
    (hfree : r.commands.has pair.1 = false) {c : Command} (hc : c ∈ Catalogue.commands)
    (hname : c.name = pair.2) : r.withCatalogue.get? pair.1 = some c := by
  have hnone : r.withCatalogue.commands.get? pair.1 = none := by
    rw [← Fields.has_eq_false_iff, commands_withCatalogue, has_registered_spelling h, hfree]
  have htarget := get?_commands_withCatalogue (r := r) hc
  rw [hname] at htarget
  have hlookup : r.withCatalogue.lookup? pair.1 = some c :=
    lookup?_eq_some_iff.mpr (.inr ⟨hnone, pair.2, get?_aliases_withCatalogue h, htarget⟩)
  exact get?_eq_some_iff.mpr (.inl hlookup)

theorem dispatch_withCatalogue {name : String} {c : Command}
    (h : r.withCatalogue.get? name = some c) (args : List Value) (options : Options) :
    r.withCatalogue.dispatch name args options =
      (c.construct r.normalizer args options).mapError .argument := by
  rw [dispatch, resolve, h, normalizer_withCatalogue]
  rfl

theorem withCatalogue_withCatalogue (hr : r.withCatalogue.Consistent) :
    r.withCatalogue.withCatalogue = r.withCatalogue := by
  have hregistered : r.withCatalogue.registered Catalogue.commands = r.withCatalogue := by
    refine registered_eq_self hr.commands_sorted (fun _ => get?_commands_withCatalogue) ?_
    intro c hc
    -- a name of the catalogue is that of a command, so it is no alias
    rw [Option.eq_none_iff_forall_ne_some]
    intro target halias
    have hnone := Fields.has_eq_false_iff.mp (hr.disjoint _ _ halias)
    exact nomatch hnone.symm.trans (get?_commands_withCatalogue hc)
  rw [withCatalogue, hregistered]
  exact aliased_eq_self hr.aliases_sorted fun _ => get?_aliases_withCatalogue

/-- With the catalogue in place it can be put in again, which changes nothing. -/
theorem installCatalogue_withCatalogue (hallow : r.allowRedefinition = true)
    (hfree : ∀ pair ∈ Catalogue.spellings, r.commands.has pair.1 = false)
    (hr : r.withCatalogue.Consistent) :
    r.withCatalogue.installCatalogue = ⟨r.withCatalogue, .ok ()⟩ := by
  have hallow' : r.withCatalogue.allowRedefinition = true := by
    rw [allowRedefinition_withCatalogue, hallow]
  have hfree' : ∀ pair ∈ Catalogue.spellings, r.withCatalogue.commands.has pair.1 = false := by
    intro pair hpair
    rw [commands_withCatalogue, has_registered_spelling hpair]
    exact hfree pair hpair
  rw [installCatalogue_eq (.inl hallow') (.inl hallow') hfree', withCatalogue_withCatalogue hr]

/-- Where redefinition is allowed the catalogue can be put in exactly when no command has one of
its spellings.  Then every name and every spelling of the catalogue answers with the command of the
catalogue, all else is as it was, and to put the catalogue in once more changes nothing. -/
theorem install_restores (h : r.Reachable) (hallow : r.allowRedefinition = true) :
    (r.installCatalogue.answer = .ok () ↔ ∀ pair ∈ Catalogue.spellings, pair.1 ∉ r.names) ∧
    (r.installCatalogue.answer = .ok () →
      (∀ c ∈ Catalogue.commands, Catalogue.find? c.name = some c ∧
        r.installed.get? c.name = some c ∧
        ∀ args options, r.installed.dispatch c.name args options =
          (c.construct r.normalizer args options).mapError .argument) ∧
      (∀ pair ∈ Catalogue.spellings, ∃ c, Catalogue.find? pair.2 = some c ∧
        r.installed.get? pair.1 = some c ∧
        ∀ args options, r.installed.dispatch pair.1 args options =
          (c.construct r.normalizer args options).mapError .argument) ∧
      (∀ name, name ∉ Catalogue.commands.map Command.name →
        r.installed.commands.get? name = r.commands.get? name) ∧
      (∀ spelling, spelling ∉ Catalogue.commands.map Command.name →
        spelling ∉ Catalogue.spellings.map Prod.fst →
        r.installed.aliases.get? spelling = r.aliases.get? spelling) ∧
      r.installed.installCatalogue = ⟨r.installed, .ok ()⟩) := by
  have hnames (name : String) : name ∉ r.names ↔ r.commands.has name = false := by
    rw [names, Fields.mem_names_iff, Bool.not_eq_true]
  refine ⟨?_, ?_⟩
  · simp only [hnames]
    exact installCatalogue_ok_iff hallow
  · intro hok
    have hfree := (installCatalogue_ok_iff hallow).mp hok
    have hinstalled : r.installed = r.withCatalogue :=
      installed_eq (installCatalogue_eq (.inl hallow) (.inl hallow) hfree)
    have hconsistent := (consistent_of_reachable h).installed
    rw [hinstalled] at hconsistent ⊢
    refine ⟨?_, ?_, fun _ => get?_commands_withCatalogue_of_not_mem,
      fun _ => get?_aliases_withCatalogue_of_not_mem,
      installCatalogue_withCatalogue hallow hfree hconsistent⟩
    · intro c hc
      have hget := get?_withCatalogue (r := r) hc
      exact ⟨Catalogue.find?_name hc, hget, dispatch_withCatalogue hget⟩
    · intro pair hpair
      obtain ⟨c, hc, hname⟩ := List.mem_map.mp (Catalogue.target_mem_names pair hpair)
      have hget := get?_withCatalogue_spelling hpair (hfree pair hpair) hc hname
      exact ⟨c, hname ▸ Catalogue.find?_name hc, hget, dispatch_withCatalogue hget⟩

/-- A registry that has given the name `add` and the spelling `+` to a command of its own gets
both back and keeps `yell`; one with a command named `+` cannot have the catalogue. -/
theorem install_restores_add :
    let shout : Command := { name := "shout", operation := .upcase, required := [.string] }
    let plus : Command := { name := "+", operation := .upcase, required := [.string] }
    let r := (((blank.perform (.register shout)).perform (.addAlias "add" "shout")).perform
      (.addAlias "+" "shout")).perform (.addAlias "yell" "shout")
    (r.Reachable ∧ r.allowRedefinition = true ∧ r.get? "+" = some shout) ∧
      r.installCatalogue.answer = .ok () ∧
      (∃ c, Catalogue.find? "add" = some c ∧ r.installed.get? "add" = some c ∧
        r.installed.get? "+" = some c) ∧
      r.installed.aliases.get? "yell" = some "shout" ∧
      r.installed.installCatalogue = ⟨r.installed, .ok ()⟩ ∧
      (r.perform (.register plus)).installCatalogue.answer ≠ .ok () := by
  intro shout plus r
  have hreachable : r.Reachable := .write _ (.write _ (.write _ (.write _ .blank)))
  have hallow : r.allowRedefinition = true := by decide +kernel
  have hget : r.get? "+" = some shout := by decide +kernel
  have hadd : ("+", "add") ∈ Catalogue.spellings := by decide +kernel
  obtain ⟨hiff, hrestored⟩ := install_restores hreachable hallow
  have hok : r.installCatalogue.answer = .ok () := hiff.mpr (by decide +kernel)
  obtain ⟨hcommands, hspellings, -, haliases, hagain⟩ := hrestored hok
  obtain ⟨c, hc, hplus, -⟩ := hspellings _ hadd
  have hname : c.name = "add" := by simpa using List.find?_some hc
  obtain ⟨-, hback, -⟩ := hcommands c (List.mem_of_find?_eq_some hc)
  rw [hname] at hback
  have hyell : r.installed.aliases.get? "yell" = r.aliases.get? "yell" :=
    haliases "yell" (by decide +kernel) (by decide +kernel)
  have hshout : r.aliases.get? "yell" = some "shout" := by decide +kernel
  refine ⟨⟨hreachable, hallow, hget⟩, hok, ⟨c, hc, hback, hplus⟩, hyell.trans hshout, hagain, ?_⟩
  intro htaken
  have hallow' : (r.perform (.register plus)).allowRedefinition = true := by decide +kernel
  have hfree := (install_restores (.write (.register plus) hreachable) hallow').1.mp htaken
  exact hfree _ hadd (by decide +kernel)

end Reql.Registry
