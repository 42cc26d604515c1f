/-
# `Reql.Proofs.Term.Builder` — what a sequence of steps builds

The steps on a builder commute with taking apart: the arguments of a node are those of the steps
in their order, and its options are those of the steps in theirs, however the two are mixed
(`run_new`).  So all that can go wrong is said by the steps alone: an option that is named again
is reported when the node is built, and of several the one that is named again first.  It makes
no difference whether all options are kept to the end, or a later one takes the place of an
earlier one and the first name that came again is noted (`build_draft`).

Making a node of values is the same after all of them have been normalized, arguments before
options.  A value that cannot be normalized comes before anything that is wrong with the node
(`build_run_createTerm`).
-/
import Reql.Proofs.Normalize

namespace Reql

/-! ## The first name that comes again -/

theorem Fields.firstRepeated?_go_eq_some_iff {seen names : List String} {name : String} :
    Fields.firstRepeated?.go seen names = some name ↔
      ∃ before after, names = before ++ name :: after ∧ (name ∈ before ∨ name ∈ seen) ∧
        before.Nodup ∧ ∀ other ∈ before, other ∉ seen := by
  induction names generalizing seen with
  | nil => simp [Fields.firstRepeated?.go]
  | cons first rest ih =>
      rw [Fields.firstRepeated?.go]
      split
      next hseen =>
        constructor
        · intro h
          obtain rfl := Option.some.inj h
          exact ⟨[], rest, rfl, .inr hseen, List.nodup_nil, List.forall_mem_nil _⟩
        · rintro ⟨before, after, heq, -, -, hfresh⟩
          cases before with
          | nil => rw [(List.cons.inj heq).1]
          | cons other before =>
              obtain ⟨rfl, -⟩ := List.cons.inj heq
              exact absurd hseen (hfresh first List.mem_cons_self)
      next hseen =>
        rw [ih]
        constructor
        · rintro ⟨before, after, rfl, hagain, hnodup, hfresh⟩
          refine ⟨first :: before, after, rfl, ?_, ?_, ?_⟩
          · simpa [or_assoc, or_left_comm] using hagain
          · exact List.nodup_cons.mpr
              ⟨fun hmem => hfresh first hmem List.mem_cons_self, hnodup⟩
          · exact List.forall_mem_cons.mpr
              ⟨hseen, fun other hmem hother => hfresh other hmem (List.mem_cons_of_mem _ hother)⟩
        · rintro ⟨before, after, heq, hagain, hnodup, hfresh⟩
          cases before with
          | nil =>
              obtain ⟨rfl, -⟩ := List.cons.inj heq
              exact absurd (hagain.resolve_left List.not_mem_nil) hseen
          | cons other before =>
              obtain ⟨rfl, rfl⟩ := List.cons.inj heq
              obtain ⟨hfirst, hbefore⟩ := List.nodup_cons.mp hnodup
              refine ⟨before, after, rfl, ?_, hbefore, ?_⟩
              · simpa [or_assoc, or_left_comm] using hagain
              · intro x hx
                rw [List.mem_cons, not_or]
                exact ⟨fun h => hfirst (h ▸ hx), hfresh x (List.mem_cons_of_mem _ hx)⟩

/-- The name that comes again first has only different names before it, itself among them. -/
theorem Fields.firstRepeated?_eq_some_iff {names : List String} {name : String} :
    Fields.firstRepeated? names = some name ↔
      ∃ before after, names = before ++ name :: after ∧ name ∈ before ∧ before.Nodup := by
  simp [Fields.firstRepeated?, Fields.firstRepeated?_go_eq_some_iff]

/-- One more name at the end comes again if it is there and no other one has before. -/
theorem Fields.firstRepeated?_go_concat (seen names : List String) (name : String) :
    Fields.firstRepeated?.go seen (names ++ [name]) =
      (Fields.firstRepeated?.go seen names).or
        (if name ∈ names ∨ name ∈ seen then some name else none) := by
  induction names generalizing seen with
  | nil => simp [Fields.firstRepeated?.go]
  | cons first rest ih =>
      rw [List.cons_append, Fields.firstRepeated?.go, Fields.firstRepeated?.go]
      split
      next => rfl
      next =>
        rw [ih]
        simp [or_assoc, or_left_comm]

theorem Fields.firstRepeated?_concat (names : List String) (name : String) :
    Fields.firstRepeated? (names ++ [name]) =
      (Fields.firstRepeated? names).or (if name ∈ names then some name else none) := by
  simp [Fields.firstRepeated?, Fields.firstRepeated?_go_concat]

namespace Term.Builder

/-! ## Steps taken apart -/

/-- The arguments that a step adds. -/
def Step.args : Step → List Term
  | .arg t => [t]
  | .addArgs ts => ts
  | .option _ _ => []

/-- The option that a step adds. -/
def Step.option? : Step → Option (String × Term)
  | .option name t => some (name, t)
  | _ => none

/-- The arguments of steps, in order. -/
def argsOf (steps : List Step) : List Term := steps.flatMap Step.args

/-- The options of steps, in order. -/
def optionsOf (steps : List Step) : List (String × Term) := steps.filterMap Step.option?

/-- The names of the options of steps, in order. -/
def namesOf (steps : List Step) : List String := (optionsOf steps).map Prod.fst

theorem step_eq (b : Builder) (s : Step) :
    b.step s = ⟨b.operation, b.args ++ s.args, b.options ++ s.option?.toList⟩ := by
  cases s with
  | arg t => simp [step, arg, Step.args, Step.option?]
  | addArgs ts => simp [step, addArgs, Step.args, Step.option?]
  | option name t => simp [step, option, Step.args, Step.option?]

theorem run_eq (b : Builder) (steps : List Step) :
    b.run steps = ⟨b.operation, b.args ++ argsOf steps, b.options ++ optionsOf steps⟩ := by
  induction steps generalizing b with
  | nil => simp [run, argsOf, optionsOf]
  | cons s rest ih =>
      have hoptions : optionsOf (s :: rest) = s.option?.toList ++ optionsOf rest := by
        rw [optionsOf, List.filterMap_cons]
        cases s.option? <;> rfl
      rw [run, List.foldl_cons, ← run, ih, step_eq, hoptions]
      simp [argsOf]

theorem run_new (op : Operation) (steps : List Step) :
    (new op).run steps = ⟨op, argsOf steps, optionsOf steps⟩ := by
  rw [run_eq]
  rfl

theorem optionsOf_append_option (earlier later : List Step) (name : String) (t : Term) :
    optionsOf (earlier ++ .option name t :: later) =
      optionsOf earlier ++ (name, t) :: optionsOf later := by
  simp [optionsOf, Step.option?]

theorem optionsOf_concat (steps : List Step) {s : Step} (h : s.option? = none) :
    optionsOf (steps ++ [s]) = optionsOf steps := by
  simp [optionsOf, h]

/-- The option at a place among the options is that of a step. -/
theorem exists_step {steps : List Step} {before after : List (String × Term)} {u : String × Term}
    (h : optionsOf steps = before ++ u :: after) :
    ∃ earlier later, steps = earlier ++ .option u.1 u.2 :: later ∧ optionsOf earlier = before := by
  obtain ⟨earlier, rest, rfl, hbefore, hrest⟩ := List.filterMap_eq_append_iff.mp h
  obtain ⟨between, s, later, rfl, hbetween, hs, -⟩ := List.filterMap_eq_cons_iff.mp hrest
  have hnone : between.filterMap Step.option? = [] := List.filterMap_eq_nil_iff.mpr hbetween
  refine ⟨earlier ++ between, later, ?_, ?_⟩
  · cases s with
    | arg t => exact nomatch hs
    | addArgs ts => exact nomatch hs
    | option name t =>
        obtain rfl := Option.some.inj hs
        rw [List.append_assoc]
  · rw [optionsOf, List.filterMap_append, hbefore, hnone, List.append_nil]

/-- A step names an option again, and is the first one to do so. -/
def FirstAgain (steps : List Step) (name : String) : Prop :=
  ∃ earlier t later, steps = earlier ++ .option name t :: later ∧ name ∈ namesOf earlier ∧
    (namesOf earlier).Nodup

theorem firstRepeated?_namesOf {steps : List Step} {name : String} :
    Fields.firstRepeated? (namesOf steps) = some name ↔ FirstAgain steps name := by
  rw [Fields.firstRepeated?_eq_some_iff]
  constructor
  · rintro ⟨before, after, hnames, hmem, hnodup⟩
    obtain ⟨us, rest, hoptions, rfl, hrest⟩ := List.map_eq_append_iff.mp hnames
    obtain ⟨u, vs, rfl, rfl, -⟩ := List.map_eq_cons_iff.mp hrest
    obtain ⟨earlier, later, rfl, rfl⟩ := exists_step hoptions
    exact ⟨earlier, u.2, later, rfl, hmem, hnodup⟩
  · rintro ⟨earlier, t, later, rfl, hmem, hnodup⟩
    refine ⟨namesOf earlier, namesOf later, ?_, hmem, hnodup⟩
    rw [namesOf, optionsOf_append_option, List.map_append, List.map_cons, namesOf, namesOf]

/-! ## Building -/

/-- The node of an operation with the arguments of steps in their order, and with their options,
each once and in the order of the names. -/
structure Assembled (op : Operation) (steps : List Step) (t : Term) : Prop where
  operation : t.operation = op
  args : t.args = argsOf steps
  options : t.options.Perm (optionsOf steps)
  sorted : t.options.Sorted

variable {op : Operation} {steps : List Step}

theorem build_run_eq_ok_iff {t : Term} : ((new op).run steps).build = .ok t ↔
    op ≠ .datum ∧ (namesOf steps).Nodup ∧
      t = .apply op (argsOf steps) (Fields.ofList (optionsOf steps)) := by
  rw [run_new, build_eq_ok_iff, namesOf]

theorem assembled_of_build {t : Term} (h : ((new op).run steps).build = .ok t) :
    Assembled op steps t := by
  obtain ⟨-, hnodup, rfl⟩ := build_run_eq_ok_iff.mp h
  exact ⟨rfl, rfl, Fields.perm_ofList hnodup, Fields.sorted_ofList _⟩

theorem build_run_datum : ((new .datum).run steps).build = .error .literalOperation := by
  rw [run_new]
  rfl

theorem build_run_eq_error_iff (hop : op ≠ .datum) {e : ArgumentError} :
    ((new op).run steps).build = .error e ↔
      ∃ name, FirstAgain steps name ∧ e = .duplicateOption name op := by
  simp only [← firstRepeated?_namesOf, run_new, build, if_neg hop, namesOf]
  cases Fields.firstRepeated? ((optionsOf steps).map Prod.fst) with
  | none => simp
  | some name => simp [eq_comm]

/-! ## One option in place of another -/

/-- A builder that keeps the last value of each option and the first name that came again. -/
structure Draft where
  args : List Term
  options : Fields Term
  repeated? : Option String

namespace Draft

def new : Draft := ⟨[], [], none⟩

def step (d : Draft) : Step → Draft
  | .arg t => { d with args := d.args ++ [t] }
  | .addArgs ts => { d with args := d.args ++ ts }
  | .option name t =>
    { d with
      options := d.options.insert name t
      repeated? := d.repeated?.or (if d.options.has name then some name else none) }

def build (op : Operation) (d : Draft) : Except ArgumentError Term :=
  if op = .datum then .error .literalOperation
  else
    match d.repeated? with
    | some name => .error (.duplicateOption name op)
    | none => .ok (.apply op d.args d.options)

/-- What is kept of steps. -/
def ofSteps (steps : List Step) : Draft :=
  ⟨argsOf steps, Fields.ofList (optionsOf steps), Fields.firstRepeated? (namesOf steps)⟩

theorem step_ofSteps (steps : List Step) (s : Step) :
    (ofSteps steps).step s = ofSteps (steps ++ [s]) := by
  have hargs : argsOf (steps ++ [s]) = argsOf steps ++ s.args := by simp [argsOf]
  cases s with
  | arg t =>
      rw [ofSteps, ofSteps, namesOf, namesOf, hargs, optionsOf_concat steps rfl]
      rfl
  | addArgs ts =>
      rw [ofSteps, ofSteps, namesOf, namesOf, hargs, optionsOf_concat steps rfl]
      rfl
  | option name t =>
      have hoptions := optionsOf_append_option steps [] name t
      have hnames : namesOf (steps ++ [.option name t]) = namesOf steps ++ [name] := by
        rw [namesOf, hoptions, List.map_append]
        rfl
      have hlast : Fields.ofList (optionsOf (steps ++ [.option name t])) =
          (Fields.ofList (optionsOf steps)).insert name t := by
        rw [hoptions]
        exact List.foldl_concat _ _ _ _
      have hagain : (if (Fields.ofList (optionsOf steps)).has name then some name else none) =
          if name ∈ namesOf steps then some name else none :=
        if_congr Fields.has_ofList_iff rfl rfl
      rw [ofSteps, ofSteps, step, hargs, hlast, hnames, Fields.firstRepeated?_concat, hagain,
        Step.args, List.append_nil]

/-- What is kept after steps is what is kept of them. -/
theorem foldl_step (steps : List Step) : steps.foldl step new = ofSteps steps := by
  have hrun (earlier : List Step) :
      steps.foldl step (ofSteps earlier) = ofSteps (earlier ++ steps) := by
    induction steps generalizing earlier with
    | nil => rw [List.foldl_nil, List.append_nil]
    | cons s rest ih =>
        rw [List.foldl_cons, step_ofSteps, ih, List.append_assoc, List.singleton_append]
  exact hrun []

end Draft

/-- The node that a draft builds is the node that a builder builds. -/
theorem build_draft (op : Operation) (steps : List Step) :
    (steps.foldl Draft.step .new).build op = ((new op).run steps).build := by
  rw [Draft.foldl_step, run_new]
  rfl

end Term.Builder

open Term.Builder

/-! ## Making a node of values -/

namespace Normalizer

variable {n : Normalizer} {op : Operation} {e : ArgumentError}

/-- The first value that has no term is at fault before the node is. -/
theorem createTerm_of_arg {before after : List Value} {v : Value}
    (hbefore : ∀ u ∈ before, ∃ t, n.normalize u = .ok t) (hv : n.normalize v = .error e)
    (options : Options) : n.createTerm op (before ++ v :: after) options = .error e := by
  have hargs : normalizeItems n.depth (before ++ v :: after) = .error e := by
    rw [normalizeItems_eq_mapM]
    exact mapM_of_error hbefore hv
  rw [createTerm, hargs]
  rfl

theorem createTerm_of_option {args : List Value} {before after : Options} {u : String × Value}
    (hargs : ∀ v ∈ args, ∃ t, n.normalize v = .ok t)
    (hbefore : ∀ option ∈ before, ∃ t, n.normalize option.2 = .ok t)
    (hu : n.normalize u.2 = .error e) :
    n.createTerm op args (before ++ u :: after) = .error e := by
  obtain ⟨ts, hts⟩ := exists_forall₂_iff.mpr hargs
  have hoptions : normalizeFields n.depth (before ++ u :: after) = .error e := by
    rw [normalizeFields_eq_mapM]
    refine mapM_of_error ?_ (by rw [onValue, ← normalize, hu]; rfl)
    intro option hoption
    obtain ⟨t, ht⟩ := hbefore option hoption
    exact ⟨(option.1, t), by rw [onValue, ← normalize, ht]; rfl⟩
  rw [createTerm, normalizeItems_eq_ok_iff.mpr hts]
  exact congrArg (· >>= fun us => build ⟨op, ts, us⟩) hoptions

/-- Once all values have terms, the node is the one that any steps build which add them. -/
theorem createTerm_of_steps {args : List Value} {options : Options}
    {steps : List Term.Builder.Step}
    (hargs : List.Forall₂ (fun v t => n.normalize v = .ok t) args (argsOf steps))
    (hoptions : Named (fun v t => n.normalize v = .ok t) options (optionsOf steps)) :
    n.createTerm op args options = ((new op).run steps).build := by
  rw [createTerm, normalizeItems_eq_ok_iff.mpr hargs, run_new]
  exact congrArg (· >>= fun us => build ⟨op, argsOf steps, us⟩)
    (normalizeFields_eq_ok_iff.mpr hoptions)

end Normalizer

/-- Steps build a node exactly if its operation is not that of literals and they name no option
twice, whether a later option is kept beside an earlier one or takes its place.  The node has their
arguments in their order and their options, and nothing else.  Otherwise the operation of literals
is reported, or else the option that is named again first.  To make a node of values is to report
the first argument without a term, or else the first option without one, and otherwise to build
the node by any steps that add the terms. -/
theorem build_run_createTerm (op : Operation) (steps : List Term.Builder.Step) :
    (steps.foldl Draft.step .new).build op = ((new op).run steps).build ∧
    ((∃ t, ((new op).run steps).build = .ok t) ↔ op ≠ .datum ∧ (namesOf steps).Nodup) ∧
    (∀ t, ((new op).run steps).build = .ok t → Assembled op steps t) ∧
    (op = .datum → ((new op).run steps).build = .error .literalOperation) ∧
    (op ≠ .datum → ∀ e, ((new op).run steps).build = .error e ↔
      ∃ name, FirstAgain steps name ∧ e = .duplicateOption name op) ∧
    ∀ (n : Normalizer) (args : List Value) (options : Options),
      (∀ before v after e, args = before ++ v :: after →
        (∀ u ∈ before, ∃ t, n.normalize u = .ok t) → n.normalize v = .error e →
        n.createTerm op args options = .error e) ∧
      (∀ before name v after e, (∀ u ∈ args, ∃ t, n.normalize u = .ok t) →
        options = before ++ (name, v) :: after →
        (∀ u ∈ before, ∃ t, n.normalize u.2 = .ok t) → n.normalize v = .error e →
        n.createTerm op args options = .error e) ∧
      (List.Forall₂ (fun v t => n.normalize v = .ok t) args (argsOf steps) →
        Named (fun v t => n.normalize v = .ok t) options (optionsOf steps) →
        n.createTerm op args options = ((new op).run steps).build) := by
  refine ⟨build_draft op steps, ?_, fun t => assembled_of_build, ?_,
    fun hop e => build_run_eq_error_iff hop, ?_⟩
  · constructor
    · rintro ⟨t, ht⟩
      obtain ⟨hop, hnodup, -⟩ := build_run_eq_ok_iff.mp ht
      exact ⟨hop, hnodup⟩
    · rintro ⟨hop, hnodup⟩
      exact ⟨_, build_run_eq_ok_iff.mpr ⟨hop, hnodup, rfl⟩⟩
  · rintro rfl
    exact build_run_datum
  · intro n args options
    refine ⟨?_, ?_, Normalizer.createTerm_of_steps⟩
    · rintro before v after e rfl hbefore hv
      exact Normalizer.createTerm_of_arg hbefore hv options
    · rintro before name v after e hargs rfl hbefore hv
      exact Normalizer.createTerm_of_option hargs hbefore hv

/-- Two options come again, the second one first.  Of two arguments and two options that have no
terms the first argument is reported. -/
theorem build_run_createTerm_between :
    let lit (x : String) : Term := .literal (.string x)
    let steps : List Term.Builder.Step :=
      [.option "left" (lit "a"), .arg (lit "b"), .option "right" (lit "c"),
        .option "right" (lit "d"), .addArgs [lit "e", lit "f"], .option "left" (lit "g")]
    let bad : Value := .number .nan
    ((new .between).run steps).build = .error (.duplicateOption "right" .between) ∧
      (steps.foldl Draft.step .new).build .between =
        .error (.duplicateOption "right" .between) ∧
      (⟨0⟩ : Normalizer).createTerm .datum [.null, bad, .array []]
        [("left", bad), ("left", .null)] = .error (.notJsonNumber .nan) ∧
      (⟨0⟩ : Normalizer).createTerm .datum [.null] [("left", .array []), ("left", bad)] =
        .error .nestingLimit ∧
      ∃ t, ((new .between).run (steps.take 3)).build = .ok t ∧
        (⟨0⟩ : Normalizer).createTerm .between [.string "b"]
          [("left", .string "a"), ("right", .string "c")] = .ok t := by
  intro lit steps bad
  have hnull : ∀ u ∈ [Value.null], ∃ t, (⟨0⟩ : Normalizer).normalize u = .ok t :=
    List.forall_mem_singleton.mpr ⟨_, rfl⟩
  obtain ⟨hdraft, -, -, -, herror, -⟩ := build_run_createTerm .between steps
  obtain ⟨-, hok, -, -, -, hsame⟩ := build_run_createTerm .between (steps.take 3)
  obtain ⟨-, -, -, -, -, hdatum⟩ := build_run_createTerm .datum []
  obtain ⟨t, ht⟩ := hok.mpr ⟨nofun, by decide⟩
  have hagain : ((new .between).run steps).build = .error (.duplicateOption "right" .between) := by
    refine (herror nofun _).mpr ⟨"right", ⟨steps.take 3, lit "d", steps.drop 4, rfl, ?_, ?_⟩, rfl⟩
    · decide
    · decide
  refine ⟨hagain, hdraft.trans hagain, ?_, ?_, t, ht, ?_⟩
  · exact (hdatum ⟨0⟩ _ _).1 [.null] bad [.array []] _ rfl hnull rfl
  · exact (hdatum ⟨0⟩ [.null] _).2.1 [] "left" (.array []) [("left", bad)] _ hnull rfl
      (List.forall_mem_nil _) rfl
  · rw [← ht]
    exact (hsame ⟨0⟩ _ _).2.2 (.cons rfl .nil) (.cons "left" rfl (.cons "right" rfl .nil))

end Reql
