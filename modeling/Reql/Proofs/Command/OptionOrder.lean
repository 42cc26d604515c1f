/-
# `Reql.Proofs.Command.OptionOrder` — options may come in any order

A command looks options up by name, or checks all of them, and puts them in order by name
in its term.  So the order in which they are given decides nothing but which of several
errors is reported: what a command makes, it makes of the same options in any order
(`construct_perm`).
-/
import Reql.Proofs.Command.Makes
import Reql.Proofs.Fields

namespace Reql

/-- Things that are related under the same names stay so in another order. -/
theorem Named.exists_of_perm {α β : Type} {R : α → β → Prop} {as as' : List (String × α)}
    {bs : List (String × β)} (hperm : as.Perm as') (h : Named R as bs) :
    ∃ bs', bs.Perm bs' ∧ Named R as' bs' := by
  induction hperm generalizing bs with
  | nil => exact ⟨bs, .refl _, h⟩
  | cons entry _ ih =>
      cases h with
      | cons name hab hrest =>
          obtain ⟨bs', hbs, hrest'⟩ := ih hrest
          exact ⟨_, hbs.cons _, .cons name hab hrest'⟩
  | swap first second rest =>
      cases h with
      | cons name hab h => cases h with
        | cons name' hab' hrest => exact ⟨_, .swap _ _ _, .cons name' hab' (.cons name hab hrest)⟩
  | trans _ _ ih ih' =>
      obtain ⟨cs, hcs, h⟩ := ih h
      obtain ⟨ds, hds, h⟩ := ih' h
      exact ⟨ds, hcs.trans hds, h⟩

namespace Command

variable {c : Command} {n : Normalizer} {args : List Value} {options options' : Options} {t : Term}

/-! ## Checks -/

/-- What a command asks of an option. -/
def Accepts (c : Command) (option : String × Value) : Prop :=
  ∃ spec, c.option? option.1 = some spec ∧
    spec.check.verify c.name (.option option.1) option.2 = .ok ()

theorem verifyOptions_cons_eq_ok_iff {seen : List String} {option : String × Value} :
    c.verifyOptions seen (option :: options) = .ok () ↔
      option.1 ∉ seen ∧ c.Accepts option ∧ c.verifyOptions (option.1 :: seen) options = .ok () := by
  obtain ⟨name, v⟩ := option
  rw [verifyOptions]
  cases hspec : c.option? name with
  | none => simp [Accepts, hspec]
  | some spec =>
      by_cases hseen : name ∈ seen
      · simp [hseen]
      · simp [hseen, Accepts, hspec, check_bind_eq_ok_iff]

/-- Options are as they should be when none is named twice and each is accepted. -/
theorem verifyOptions_eq_ok_iff {seen : List String} :
    c.verifyOptions seen options = .ok () ↔
      (options.map Prod.fst).Nodup ∧ (∀ option ∈ options, option.1 ∉ seen) ∧
        ∀ option ∈ options, c.Accepts option := by
  induction options generalizing seen with
  | nil => simp [verifyOptions]
  | cons option rest ih =>
      rw [verifyOptions_cons_eq_ok_iff, ih, List.map_cons, List.nodup_cons, List.forall_mem_cons,
        List.forall_mem_cons]
      constructor
      · rintro ⟨hseen, haccepts, hnames, hrest, hall⟩
        refine ⟨⟨?_, hnames⟩, ⟨hseen, ?_⟩, haccepts, hall⟩
        · intro hmem
          obtain ⟨other, hother, hname⟩ := List.mem_map.mp hmem
          exact hrest other hother (hname ▸ .head _)
        · exact fun other hother hmem => hrest other hother (.tail _ hmem)
      · rintro ⟨⟨hname, hnames⟩, ⟨hseen, hrest⟩, haccepts, hall⟩
        refine ⟨hseen, haccepts, hnames, ?_, hall⟩
        intro other hother hmem
        rcases List.mem_cons.mp hmem with heq | hmem
        · exact hname (heq ▸ List.mem_map_of_mem hother)
        · exact hrest other hother hmem

theorem validateOptions_perm (hperm : options.Perm options')
    (h : c.validateOptions options = .ok ()) : c.validateOptions options' = .ok () := by
  obtain ⟨hnames, -, haccepts⟩ := verifyOptions_eq_ok_iff.mp h
  refine verifyOptions_eq_ok_iff.mpr ⟨(hperm.map Prod.fst).nodup_iff.mp hnames, ?_, ?_⟩
  · exact fun _ _ => List.not_mem_nil
  · exact fun option hoption => haccepts option (hperm.mem_iff.mpr hoption)

theorem validateReplicas_perm (hperm : options.Perm options')
    (hnames : (options.map Prod.fst).Nodup) :
    c.validateReplicas options = c.validateReplicas options' := by
  have hlookup : options.lookup "replicas" = options'.lookup "replicas" :=
    Fields.get?_perm hperm hnames "replicas"
  rw [validateReplicas, validateReplicas, hperm.any_eq, hlookup]

/-! ## Terms -/

theorem createTerm_perm {op : Operation} (hperm : options.Perm options')
    (h : n.createTerm op args options = .ok t) : n.createTerm op args options' = .ok t := by
  obtain ⟨ts, us, hts, hus, hop, hnames, rfl⟩ := Normalizer.createTerm_eq_ok_iff.mp h
  obtain ⟨us', husperm, hus'⟩ := hus.exists_of_perm hperm
  rw [Fields.ofList_eq_of_perm husperm hnames]
  exact Normalizer.createTerm_eq_ok_iff.mpr
    ⟨ts, us', hts, hus', hop, (husperm.map Prod.fst).nodup_iff.mp hnames, rfl⟩

/-! ## The assemblies -/

/-- What is made once the options are checked is made of them in any order. -/
theorem checked_perm {f g : Except ArgumentError Term} (hperm : options.Perm options')
    (hfg : f = .ok t → g = .ok t) (h : (c.validateOptions options >>= fun _ => f) = .ok t) :
    (c.validateOptions options' >>= fun _ => g) = .ok t := by
  obtain ⟨hoptions, h⟩ := check_bind_eq_ok_iff.mp h
  exact check_bind_eq_ok_iff.mpr ⟨validateOptions_perm hperm hoptions, hfg h⟩

theorem constructPlain_perm (hperm : options.Perm options')
    (h : c.constructPlain n args options = .ok t) : c.constructPlain n args options' = .ok t := by
  obtain ⟨hargs, h⟩ := check_bind_eq_ok_iff.mp h
  exact check_bind_eq_ok_iff.mpr ⟨hargs, checked_perm hperm (createTerm_perm hperm) h⟩

theorem constructScoped_perm (hperm : options.Perm options')
    (h : c.constructScoped n args options = .ok t) : c.constructScoped n args options' = .ok t := by
  obtain ⟨hargs, h⟩ := check_bind_eq_ok_iff.mp h
  exact check_bind_eq_ok_iff.mpr ⟨hargs, checked_perm hperm (createTerm_perm hperm) h⟩

theorem constructTableCreate_perm (hperm : options.Perm options')
    (h : c.constructTableCreate n args options = .ok t) :
    c.constructTableCreate n args options' = .ok t := by
  obtain ⟨hreplicas, h⟩ := check_bind_eq_ok_iff.mp h
  -- no name comes twice, as the options are checked further on
  obtain ⟨-, hoptions⟩ := check_bind_eq_ok_iff.mp h
  have hnames := (verifyOptions_eq_ok_iff.mp (check_bind_eq_ok_iff.mp hoptions).1).1
  rw [validateReplicas_perm hperm hnames] at hreplicas
  exact check_bind_eq_ok_iff.mpr ⟨hreplicas, constructScoped_perm hperm h⟩

theorem constructTime_perm (hperm : options.Perm options')
    (h : c.constructTime n args options = .ok t) : c.constructTime n args options' = .ok t := by
  unfold constructTime at h ⊢
  split at h
  · exact nomatch h
  · next hlength =>
      rw [if_neg hlength]
      obtain ⟨hparts, h⟩ := check_bind_eq_ok_iff.mp h
      exact check_bind_eq_ok_iff.mpr ⟨hparts, checked_perm hperm (createTerm_perm hperm) h⟩

theorem constructCall_perm (hperm : options.Perm options')
    (h : c.constructCall n args options = .ok t) : c.constructCall n args options' = .ok t := by
  obtain ⟨hargs, h⟩ := check_bind_eq_ok_iff.mp h
  refine check_bind_eq_ok_iff.mpr ⟨hargs, checked_perm hperm ?_ h⟩
  cases args.getLast? with
  | none => exact fun h => nomatch h
  | some function =>
      simp only
      split
      · exact fun h => nomatch h
      · exact createTerm_perm hperm

theorem constructBranch_perm (hperm : options.Perm options')
    (h : c.constructBranch n args options = .ok t) : c.constructBranch n args options' = .ok t := by
  obtain ⟨hargs, h⟩ := check_bind_eq_ok_iff.mp h
  refine check_bind_eq_ok_iff.mpr ⟨hargs, ?_⟩
  split at h
  · exact nomatch h
  · next hcount =>
      rw [if_neg hcount]
      exact checked_perm hperm (createTerm_perm hperm) h

/-- What a command makes of options it makes of them in any other order. -/
theorem construct_perm (hperm : options.Perm options') (h : c.construct n args options = .ok t) :
    c.construct n args options' = .ok t := by
  unfold construct at h ⊢
  split at h
  · exact constructPlain_perm hperm h
  · exact constructScoped_perm hperm h
  · exact constructTableCreate_perm hperm h
  · exact checked_perm hperm id h
  · exact constructTime_perm hperm h
  · exact constructCall_perm hperm h
  · exact constructBranch_perm hperm h

end Command

end Reql
