/-
# `Reql.Proofs.Registry.History` — a registry answers what its history says

The history of a run is the list of its accepted edits, oldest first.  What a name
stands for after the run can be read off the history alone, from the last edit that
bears on the name:

    a command    registered under that name, and not registered again or removed since
    an alias     added, and since then neither added again, nor registered as a command,
                 nor removed, nor its target removed

`Stands` is the common form: an edit that every later one leaves alone.  One more edit
changes it in one way only (`stands_concat_iff`), so that each kind of edit moves the
two readings as it moves the two tables (`Follows.edit`), and a run moves them together
(`Follows.after`).

An alias goes together with its target.  It does not come back when the target does,
because adding it lies before the removal from then on.
-/
import Mathlib.Data.List.Induction
import Reql.Proofs.Outcome
import Reql.Proofs.Registry.Accepted

namespace Reql.Registry

/-! ## Runs -/

/-- A write of a single entry. -/
inductive Edit where
  | register (c : Command)
  | addAlias (spelling target : String)
  | unregister (name : String)
  deriving DecidableEq

def Edit.write : Edit → Write
  | .register c => .register c
  | .addAlias spelling target => .addAlias spelling target
  | .unregister name => .unregister name

/-- Whether a registry accepts an edit. -/
def accepts (r : Registry) : Edit → Bool
  | .register c => (r.register c).answer.isOk
  | .addAlias spelling target => (r.addAlias spelling target).answer.isOk
  | .unregister name => (r.unregister name).answer.isOk

/-- The registry after a run of edits, some of which may have been refused. -/
def after (r : Registry) : List Edit → Registry
  | [] => r
  | e :: rest => (r.perform e.write).after rest

/-- The edits of a run that are accepted, oldest first. -/
def history (r : Registry) : List Edit → List Edit
  | [] => []
  | e :: rest =>
    if r.accepts e then e :: (r.perform e.write).history rest
    else (r.perform e.write).history rest

/-! ## What a history says -/

/-- An edit of a history that every later one leaves alone. -/
def Stands (history : List Edit) (e : Edit) (leaves : Edit → Prop) : Prop :=
  ∃ earlier later, history = earlier ++ e :: later ∧ ∀ x ∈ later, leaves x

/-- The edit gives a name to a command. -/
def Edit.Registers (name : String) : Edit → Prop
  | .register c => c.name = name
  | _ => False

/-- The edit makes a spelling an alias. -/
def Edit.Aliases (spelling : String) : Edit → Prop
  | .addAlias other _ => other = spelling
  | _ => False

/-- The last command that was given the name, which has not been removed since. -/
def Binds (history : List Edit) (name : String) (c : Command) : Prop :=
  c.name = name ∧
    Stands history (.register c) fun x => ¬ x.Registers name ∧ x ≠ .unregister name

/-- The last target that the spelling was made an alias of; since then no command was
given the spelling, and neither of the two was removed. -/
def Redirects (history : List Edit) (spelling target : String) : Prop :=
  Stands history (.addAlias spelling target) fun x =>
    ¬ x.Aliases spelling ∧ ¬ x.Registers spelling ∧
      x ≠ .unregister spelling ∧ x ≠ .unregister target

/-- The command of a name, or else of the name that it is an alias of. -/
def StandsFor (history : List Edit) (name : String) (c : Command) : Prop :=
  Binds history name c ∨
    (∀ d, ¬ Binds history name d) ∧
      ∃ target, Redirects history name target ∧ Binds history target c

/-! ## One more edit -/

variable {h : List Edit} {x e : Edit} {leaves p : Edit → Prop}

theorem stands_concat_iff :
    Stands (h ++ [x]) e leaves ↔ x = e ∨ leaves x ∧ Stands h e leaves := by
  constructor
  · rintro ⟨earlier, later, heq, hlater⟩
    rcases List.eq_nil_or_concat later with rfl | ⟨later, y, rfl⟩
    · obtain ⟨-, hx⟩ := List.append_inj' heq rfl
      exact .inl (List.cons.inj hx).1
    · rw [List.concat_eq_append, ← List.cons_append, ← List.append_assoc] at heq
      obtain ⟨hh, hx⟩ := List.append_inj' heq rfl
      obtain rfl := (List.cons.inj hx).1
      rw [List.concat_eq_append] at hlater
      refine .inr ⟨hlater x (by simp), earlier, later, hh, ?_⟩
      intro y hy
      exact hlater y (List.mem_append_left _ hy)
  · rintro (rfl | ⟨hx, earlier, later, rfl, hlater⟩)
    · exact ⟨h, [], rfl, List.forall_mem_nil _⟩
    · refine ⟨earlier, later ++ [x], by simp, ?_⟩
      intro y hy
      rcases List.mem_append.mp hy with hy | hy
      · exact hlater y hy
      · rwa [List.mem_singleton.mp hy]

theorem not_stands_nil : ¬ Stands [] e leaves := by
  rintro ⟨earlier, later, heq, -⟩
  exact List.append_ne_nil_of_right_ne_nil earlier (List.cons_ne_nil e later) heq.symm

/-- Of several edits of a kind that stand there is a last one. -/
theorem Stands.exists_last (he : p e) (hstands : Stands h e leaves) :
    ∃ e, p e ∧ Stands h e fun x => ¬ p x ∧ leaves x := by
  induction h using List.reverseRecOn with
  | nil => exact absurd hstands not_stands_nil
  | append_singleton h x ih =>
      by_cases hx : p x
      · exact ⟨x, hx, stands_concat_iff.mpr (.inl rfl)⟩
      · rcases stands_concat_iff.mp hstands with rfl | ⟨hleaves, hstands⟩
        · exact absurd he hx
        · obtain ⟨e, he, hlast⟩ := ih hstands
          exact ⟨e, he, stands_concat_iff.mpr (.inr ⟨⟨hx, hleaves⟩, hlast⟩)⟩

theorem Stands.imp {leaves' : Edit → Prop} (hstands : Stands h e leaves)
    (himp : ∀ x, leaves x → leaves' x) : Stands h e leaves' := by
  obtain ⟨earlier, later, heq, hlater⟩ := hstands
  exact ⟨earlier, later, heq, fun x hx => himp x (hlater x hx)⟩

/-- After an edit that does not leave it alone, an edit stands only if it comes again. -/
theorem Stands.mem_later (hstands : Stands h e leaves) {earlier later : List Edit}
    (heq : h = earlier ++ x :: later) (hne : x ≠ e) (hx : ¬ leaves x) : e ∈ later := by
  obtain ⟨before, since, hh, hsince⟩ := hstands
  rcases List.append_eq_append_iff.mp (hh.symm.trans heq) with
    ⟨between, -, hrest⟩ | ⟨between, -, hrest⟩
  · cases between with
    | nil => exact absurd (List.cons.inj hrest).1.symm hne
    | cons _ between =>
        obtain ⟨-, rfl⟩ := List.cons.inj hrest
        exact absurd (hsince x (by simp)) hx
  · cases between with
    | nil => exact absurd (List.cons.inj hrest).1 hne
    | cons _ between =>
        obtain ⟨-, rfl⟩ := List.cons.inj hrest
        simp

section

variable {name spelling target : String} {c d : Command}

theorem binds_register_iff :
    Binds (h ++ [.register d]) name c ↔
      d.name = name ∧ c = d ∨ d.name ≠ name ∧ Binds h name c := by
  simp only [Binds, stands_concat_iff, Edit.Registers]
  grind

theorem binds_addAlias_iff :
    Binds (h ++ [.addAlias spelling target]) name c ↔ Binds h name c := by
  simp [Binds, stands_concat_iff, Edit.Registers]

theorem binds_unregister_iff {other : String} :
    Binds (h ++ [.unregister other]) name c ↔ other ≠ name ∧ Binds h name c := by
  simp only [Binds, stands_concat_iff, Edit.Registers]
  grind

theorem redirects_register_iff :
    Redirects (h ++ [.register d]) spelling target ↔
      d.name ≠ spelling ∧ Redirects h spelling target := by
  simp [Redirects, stands_concat_iff, Edit.Registers, Edit.Aliases]

theorem redirects_addAlias_iff {spelling' target' : String} :
    Redirects (h ++ [.addAlias spelling' target']) spelling target ↔
      spelling' = spelling ∧ target' = target ∨
        spelling' ≠ spelling ∧ Redirects h spelling target := by
  simp [Redirects, stands_concat_iff, Edit.Registers, Edit.Aliases]

theorem redirects_unregister_iff {other : String} :
    Redirects (h ++ [.unregister other]) spelling target ↔
      other ≠ spelling ∧ other ≠ target ∧ Redirects h spelling target := by
  simp [Redirects, stands_concat_iff, Edit.Registers, Edit.Aliases, and_assoc]

end

/-! ## The tables follow the history -/

variable {r : Registry}

/-- The commands and the aliases are those that a history says. -/
structure Follows (r : Registry) (h : List Edit) : Prop where
  commands : ∀ name c, r.commands.get? name = some c ↔ Binds h name c
  aliases : ∀ spelling target, r.aliases.get? spelling = some target ↔ Redirects h spelling target

theorem follows_empty (n : Normalizer) (allowRedefinition : Bool) :
    (empty n allowRedefinition).Follows [] where
  commands _ _ := ⟨nofun, fun hb => absurd hb.2 not_stands_nil⟩
  aliases _ _ := ⟨nofun, fun hr => absurd hr not_stands_nil⟩

theorem Follows.register (hr : r.Follows h) {c : Command} {previous : Option Command}
    (hok : (r.register c).answer = .ok previous) :
    (r.register c).registry.Follows (h ++ [.register c]) := by
  rw [(register_of_ok hok).2]
  constructor
  · intro name d
    rw [binds_register_iff, Fields.get?_insert, ← hr.commands]
    grind
  · intro spelling target
    rw [redirects_register_iff, Fields.get?_erase_eq_some_iff, hr.aliases]
    exact and_congr_left fun _ => ne_comm

theorem Follows.addAlias (hr : r.Follows h) {spelling target : String}
    (hok : (r.addAlias spelling target).answer = .ok ()) :
    (r.addAlias spelling target).registry.Follows (h ++ [.addAlias spelling target]) := by
  obtain ⟨-, -, -, hwritten⟩ := addAlias_of_ok hok
  rw [hwritten]
  constructor
  · intro name d
    rw [binds_addAlias_iff, hr.commands]
  · intro other found
    rw [redirects_addAlias_iff, Fields.get?_insert, ← hr.aliases]
    grind

theorem Follows.unregister (hr : r.Follows h) (hconsistent : r.Consistent) {name : String}
    {c : Command} (hok : (r.unregister name).answer = .ok c) :
    (r.unregister name).registry.Follows (h ++ [.unregister name]) := by
  rcases unregister_of_ok hok with ⟨target, halias, hwritten⟩ | ⟨hnone, hcommand, hwritten⟩
  · -- what goes is an alias, so it is no command and no alias stands for it
    have hfree := hconsistent.disjoint name target halias
    rw [hwritten]
    constructor
    · intro other d
      rw [binds_unregister_iff, ← hr.commands]
      refine ⟨fun hd => ⟨?_, hd⟩, And.right⟩
      rintro rfl
      simp [Fields.has, hd] at hfree
    · intro spelling found
      rw [redirects_unregister_iff, Fields.get?_erase_eq_some_iff, ← hr.aliases]
      constructor
      · rintro ⟨hne, hfound⟩
        refine ⟨hne.symm, ?_, hfound⟩
        rintro rfl
        exact Bool.false_ne_true (hfree.symm.trans (hconsistent.target _ _ hfound))
      · rintro ⟨hne, -, hfound⟩
        exact ⟨hne.symm, hfound⟩
  · -- what goes is a command, so it is no alias, but there may be aliases for it
    rw [hwritten]
    constructor
    · intro other d
      rw [binds_unregister_iff, Fields.get?_erase_eq_some_iff, hr.commands]
      exact and_congr_left fun _ => ne_comm
    · intro spelling found
      rw [redirects_unregister_iff,
        Fields.get?_filter_eq_some_iff (Fields.nodup_names hconsistent.aliases_sorted), ← hr.aliases]
      grind

theorem Follows.edit (hr : r.Follows h) (hconsistent : r.Consistent) {e : Edit}
    (he : r.accepts e = true) : (r.perform e.write).Follows (h ++ [e]) := by
  cases e with
  | register c =>
      obtain ⟨_, hok⟩ := isOk_iff.mp he
      exact hr.register hok
  | addAlias spelling target =>
      obtain ⟨_, hok⟩ := isOk_iff.mp he
      exact hr.addAlias hok
  | unregister name =>
      obtain ⟨_, hok⟩ := isOk_iff.mp he
      exact hr.unregister hconsistent hok

theorem perform_of_not_accepts (hconsistent : r.Consistent) {e : Edit}
    (he : ¬ r.accepts e = true) : r.perform e.write = r := by
  cases e with
  | register c =>
      obtain ⟨_, hrefused⟩ := not_isOk_iff.mp he
      exact register_of_error hrefused
  | addAlias spelling target =>
      obtain ⟨_, hrefused⟩ := not_isOk_iff.mp he
      exact addAlias_of_error hrefused
  | unregister name =>
      obtain ⟨_, hrefused⟩ := not_isOk_iff.mp he
      exact hconsistent.unregister_refused hrefused

/-- However long a run, its registry is consistent and follows its history. -/
theorem Follows.after (hr : r.Follows h) (hconsistent : r.Consistent) (run : List Edit) :
    (r.after run).Consistent ∧ (r.after run).Follows (h ++ r.history run) := by
  induction run generalizing r h with
  | nil => exact ⟨hconsistent, by simpa [Registry.after, history] using hr⟩
  | cons e rest ih =>
      have hconsistent' := hconsistent.perform e.write
      rw [Registry.after, history]
      split
      · next he => simpa using ih (hr.edit hconsistent he) hconsistent'
      · next he =>
          rw [perform_of_not_accepts hconsistent he]
          exact ih hr hconsistent

/-! ## What is read off the history -/

theorem Follows.mem_names_iff (hr : r.Follows h) {name : String} :
    name ∈ r.names ↔ ∃ c, c.name = name ∧ Stands h (.register c) (· ≠ .unregister name) := by
  have hbound : name ∈ r.names ↔ ∃ c, Binds h name c := by
    rw [names, Fields.mem_names_iff, Fields.has, Option.isSome_iff_exists]
    exact exists_congr (hr.commands name)
  rw [hbound]
  constructor
  · rintro ⟨c, hname, hstands⟩
    exact ⟨c, hname, hstands.imp fun _ => And.right⟩
  · rintro ⟨c, hname, hstands⟩
    have hc : (Edit.register c).Registers name := hname
    obtain ⟨e, he, hlast⟩ := hstands.exists_last hc
    cases e with
    | register d => exact ⟨d, he, hlast⟩
    | addAlias _ _ | unregister _ => exact he.elim

theorem Follows.lookup?_eq_some_iff (hr : r.Follows h) {name : String} {c : Command} :
    r.lookup? name = some c ↔ StandsFor h name c := by
  rw [Registry.lookup?_eq_some_iff, StandsFor, Option.eq_none_iff_forall_ne_some]
  simp only [ne_eq, hr.commands, hr.aliases]

theorem Follows.get?_eq_some_iff (hr : r.Follows h) {name : String} {c : Command} :
    r.get? name = some c ↔ StandsFor h name c ∨
      (∀ d, ¬ StandsFor h name d) ∧ '-' ∈ name.toList ∧ 1 < name.utf8ByteSize ∧
        StandsFor h (Text.replaceChar '-' '_' name) c := by
  rw [Registry.get?_eq_some_iff, Option.eq_none_iff_forall_ne_some]
  simp only [ne_eq, hr.lookup?_eq_some_iff, foldDashes?]
  refine or_congr_right (and_congr_right fun _ => ?_)
  split
  · next hdashes => simp [hdashes]
  · next hdashes =>
      refine ⟨nofun, ?_⟩
      rintro ⟨hdash, hsize, -⟩
      exact absurd ⟨hdash, hsize⟩ hdashes

/-- After its target was removed, an alias stands only if it was added anew. -/
theorem not_redirects_of_unregister {spelling target : String} {earlier later : List Edit}
    (heq : h = earlier ++ .unregister target :: later)
    (hlater : ∀ x ∈ later, ¬ x.Aliases spelling) : ¬ Redirects h spelling target := by
  intro hstands
  have hagain := Stands.mem_later hstands heq nofun (by simp)
  exact hlater _ hagain rfl

/-- After any run of edits from nothing, what is a command, what is an alias and what a name
stands for follow from the accepted edits, and an alias whose target was removed stays away
until it is added again. -/
theorem run_follows_history (n : Normalizer) (allowRedefinition : Bool) (run : List Edit)
    (name : String) :
    let r := (empty n allowRedefinition).after run
    let h := (empty n allowRedefinition).history run
    (name ∈ r.names ↔ ∃ c, c.name = name ∧ Stands h (.register c) (· ≠ .unregister name)) ∧
    (∀ c, r.commands.get? name = some c ↔ Binds h name c) ∧
    (∀ target, name ∈ r.aliasesOf target ↔ Redirects h name target) ∧
    (∀ c, r.get? name = some c ↔ StandsFor h name c ∨
      (∀ d, ¬ StandsFor h name d) ∧ '-' ∈ name.toList ∧ 1 < name.utf8ByteSize ∧
        StandsFor h (Text.replaceChar '-' '_' name) c) ∧
    ∀ target earlier later, h = earlier ++ .unregister target :: later →
      (∀ x ∈ later, ¬ x.Aliases name) → name ∉ r.aliasesOf target := by
  intro r h
  obtain ⟨hconsistent, hr⟩ :=
    (follows_empty n allowRedefinition).after (consistent_empty n allowRedefinition) run
  have halias (target : String) : name ∈ r.aliasesOf target ↔ Redirects h name target :=
    (mem_aliasesOf_iff hconsistent).trans (hr.aliases name target)
  refine ⟨hr.mem_names_iff, hr.commands name, halias, fun c => hr.get?_eq_some_iff, ?_⟩
  intro target earlier later heq hlater
  rw [halias]
  exact not_redirects_of_unregister heq hlater

/-- The alias of a command that is removed and registered again. -/
theorem run_follows_history_alias :
    let map : Command := { name := "map", operation := .map, required := [.sequence, .function 1] }
    let run : List Edit := [.register map, .addAlias "m" "map", .unregister "map", .register map]
    let r := (empty default true).after run
    r.get? "map" = some map ∧ "m" ∉ r.aliasesOf "map" ∧ r.get? "m" = none := by
  intro map run r
  have hfollows := run_follows_history default true run "m"
  exact ⟨by rfl, hfollows.2.2.2.2 "map" [.register map, .addAlias "m" "map"] [.register map] rfl
    (by simp [Edit.Aliases]), by rfl⟩

end Reql.Registry
