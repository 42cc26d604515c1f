/-
# `Reql.Proofs.Command.Agreement` — a command given one list of values or another

A command looks at what it is given only through checks, classifications and
normalizing.  `Command.Exchange` collects what it takes for values related by `V`
to stand for each other in an invocation; `Exchange.construct` is the conclusion:
the two invocations agree, whatever the command's assembly.

The kind of a value is quoted in errors.  Related values need the same kind only
if errors are told apart, which is what the field `kind` says.
-/
import Reql.Command.Construct
import Reql.Proofs.Classify

namespace Reql

/-- Whether a value is the function asked for, in terms of what it is. -/
theorem Value.expectArity_eq (v : Value) (arity : Nat) :
    v.expectArity arity =
      if v.isFunction then
        match v.arity? with
        | some declared =>
          if declared = arity then .ok () else .error (.arityMismatch arity declared)
        | none => .error .malformedParameters
      else .error (.notFunction arity v.kindName) := by
  unfold expectArity isFunction isOfKind arity?
  cases v.term? with
  | none => rfl
  | some t =>
      cases h : t.is .func
      · simp [Option.filter, h]
      · cases harity : t.arity? <;> simp [Option.filter, h, harity]

namespace Command

/-- All requirements a command has on values. -/
def checks (c : Command) : List Check :=
  c.required ++ c.optional ++ c.rest.toList ++ c.options.map OptionSpec.check

theorem checkAt?_mem {c : Command} {index : Nat} {check : Check}
    (h : c.checkAt? index = some check) : check ∈ c.checks := by
  unfold checkAt? at h
  simp only [checks, List.mem_append]
  cases hget : (c.required ++ c.optional)[index]? with
  | some found =>
      rw [hget] at h
      obtain rfl := Option.some.inj h
      exact .inl (.inl (List.mem_append.mp (List.mem_of_getElem? hget)))
  | none =>
      rw [hget] at h
      exact .inl (.inr (Option.mem_toList.mpr h))

theorem option?_mem {c : Command} {name : String} {spec : OptionSpec}
    (h : c.option? name = some spec) : spec.check ∈ c.checks := by
  simp only [checks, List.mem_append]
  exact .inr (List.mem_map_of_mem (List.mem_of_find?_eq_some h))

/-- What it takes for values related by `V` to stand for each other in an invocation
of `c`: related terms, and errors the same up to `E`. -/
structure Exchange (c : Command) (n m : Normalizer) (E : ArgumentError → ArgumentError → Prop)
    (V : Value → Value → Prop) (T : Term → Term → Prop) : Prop where
  refl : ∀ e, E e e
  kind : ∀ {v w}, V v w → v.kindName = w.kindName ∨ ∀ e f, E e f
  alike : ∀ {v w}, V v w → v.Alike w
  admits : ∀ {v w}, V v w → ∀ check ∈ c.checks, check.admits v = check.admits w
  normalize : ∀ {v w}, V v w → Agree E T (n.normalize v) (m.normalize w)
  apply : ∀ {op ts ts' us us'}, op = c.operation ∨ op = .makeObj → List.Forall₂ T ts ts' →
    Named T us us' → T (.apply op ts us) (.apply op ts' us')

namespace Exchange

variable {c : Command} {n m : Normalizer} {E : ArgumentError → ArgumentError → Prop}
  {V : Value → Value → Prop} {T : Term → Term → Prop} (x : c.Exchange n m E V T)
  {v w : Value} {vs ws : List Value} {options options' : Options}

include x

/-! ## Single values -/

/-- Errors that differ only in the kind they quote are the same up to `E`. -/
theorem error (hv : V v w) (wrap : String → ArgumentError) :
    E (wrap v.kindName) (wrap w.kindName) := by
  rcases x.kind hv with hkind | hall
  · rw [hkind]
    exact x.refl _
  · exact hall _ _

theorem expectArity (hv : V v w) (arity : Nat) :
    Agree (fun e f => ∀ wrap : ArgumentError → ArgumentError, E (wrap e) (wrap f)) Eq
      (v.expectArity arity) (w.expectArity arity) := by
  have h := x.alike hv
  rw [Value.expectArity_eq, Value.expectArity_eq, h.isFunction, h.arity?]
  split
  · cases w.arity? with
    | none => exact .error fun wrap => x.refl _
    | some declared =>
        by_cases hd : declared = arity
        · simp only [hd, if_true]
          exact .ok rfl
        · simp only [hd, if_false]
          exact .error fun wrap => x.refl _
  · exact .error fun wrap => x.error hv fun kind => wrap (.notFunction arity kind)

theorem verify (hv : V v w) {check : Check} (hcheck : check.admits v = check.admits w)
    (command : String) (place : Place) :
    Agree E Eq (check.verify command place v) (check.verify command place w) := by
  unfold Check.verify
  rw [hcheck]
  split
  · exact .ok rfl
  · cases check with
    | function arity =>
        have h := x.expectArity hv arity
        simp only
        generalize v.expectArity arity = found, w.expectArity arity = found' at h
        cases h with
        | ok _ => exact .ok rfl
        | error hcause => exact .error (hcause (.functionAt command place))
    | any | string | number | integer | bool | datum | object | array | sequence | selection
    | primaryKey | path | kind | predicate | stringOrFunction | oneOf =>
        exact .error (x.error hv fun kind => .mustBe command place _ kind)

/-! ## Validation -/

theorem verifyFrom (hvs : List.Forall₂ V vs ws) (index : Nat) :
    Agree E Eq (c.verifyFrom index vs) (c.verifyFrom index ws) := by
  induction hvs generalizing index with
  | nil => exact .ok rfl
  | cons hv _ ih =>
      simp only [Command.verifyFrom]
      cases hcheck : c.checkAt? index with
      | none => exact ih (index + 1)
      | some check =>
          exact (x.verify hv (x.admits hv check (checkAt?_mem hcheck)) _ _).bind
            fun _ _ _ => ih (index + 1)

theorem validateArgs (hvs : List.Forall₂ V vs ws) :
    Agree E Eq (c.validateArgs vs) (c.validateArgs ws) := by
  simp only [Command.validateArgs, hvs.length_eq]
  split
  · exact .error (x.refl _)
  · exact x.verifyFrom hvs 0

theorem verifyOptions (ho : Named V options options') (seen : List String) :
    Agree E Eq (c.verifyOptions seen options) (c.verifyOptions seen options') := by
  induction ho generalizing seen with
  | nil => exact .ok rfl
  | cons name hv _ ih =>
      simp only [Command.verifyOptions]
      cases hspec : c.option? name with
      | none => exact .error (x.refl _)
      | some spec =>
          by_cases hseen : name ∈ seen
          · simp only [hseen, if_true]
            exact .error (x.refl _)
          · simp only [hseen, if_false]
            exact (x.verify hv (x.admits hv spec.check (option?_mem hspec)) _ _).bind
              fun _ _ _ => ih (name :: seen)

theorem validateOptions (ho : Named V options options') :
    Agree E Eq (c.validateOptions options) (c.validateOptions options') :=
  x.verifyOptions ho []

/-! ## Nodes -/

theorem build {op : Operation} (hop : op = c.operation ∨ op = .makeObj) {ts ts' : List Term}
    {us us' : List (String × Term)} (hts : List.Forall₂ T ts ts') (hus : Named T us us') :
    Agree E T (Term.Builder.build ⟨op, ts, us⟩) (Term.Builder.build ⟨op, ts', us'⟩) := by
  simp only [Term.Builder.build, hus.names_eq]
  split
  · exact .error (x.refl _)
  · split
    · exact .error (x.refl _)
    · exact .ok (x.apply hop hts hus.ofList)

theorem createTerm {op : Operation} (hop : op = c.operation ∨ op = .makeObj)
    (hvs : List.Forall₂ V vs ws) (ho : Named V options options') :
    Agree E T (n.createTerm op vs options) (m.createTerm op ws options') := by
  simp only [Normalizer.createTerm, Normalizer.normalizeItems_eq_mapM,
    Normalizer.normalizeFields_eq_mapM]
  have hnormalize : ∀ v w, V v w →
      Agree E T (Normalizer.normalizeAt n.depth v) (Normalizer.normalizeAt m.depth w) :=
    fun _ _ => x.normalize
  refine (Agree.mapM hnormalize hvs).bind ?_
  intro ts ts' hts
  refine (Agree.mapM_onValue hnormalize ho).bind ?_
  intro us us' hus
  exact x.build hop hts hus

/-! ## The assemblies -/

theorem constructPlain (hvs : List.Forall₂ V vs ws) (ho : Named V options options') :
    Agree E T (c.constructPlain n vs options) (c.constructPlain m ws options') := by
  refine (x.validateArgs hvs).bind ?_
  intro _ _ _
  refine (x.validateOptions ho).bind ?_
  intro _ _ _
  exact x.createTerm (.inl rfl) hvs ho

theorem splitDatabase (hvs : List.Forall₂ V vs ws) :
    List.Forall₂ V (splitDatabase vs).1 (splitDatabase ws).1 ∧
      List.Forall₂ V (splitDatabase vs).2 (splitDatabase ws).2 := by
  cases hvs with
  | nil => exact ⟨.nil, .nil⟩
  | cons hv hrest =>
      have hdb : Operation.isPlain .db = false := rfl
      simp only [Command.splitDatabase, (x.alike hv).isOfKind hdb]
      split
      · exact ⟨.cons hv .nil, hrest⟩
      · exact ⟨.nil, .cons hv hrest⟩

theorem constructScoped (hvs : List.Forall₂ V vs ws) (ho : Named V options options') :
    Agree E T (c.constructScoped n vs options) (c.constructScoped m ws options') := by
  obtain ⟨hdatabase, hown⟩ := x.splitDatabase hvs
  exact (x.validateArgs hown).bind fun _ _ _ => (x.validateOptions ho).bind fun _ _ _ =>
    x.createTerm (.inl rfl) (List.rel_append hdatabase hown) ho

theorem validateReplicas (ho : Named V options options') :
    Agree E Eq (c.validateReplicas options) (c.validateReplicas options') := by
  have htagged : options.any (fun option => option.1 == "primary_replica_tag") =
      options'.any fun option => option.1 == "primary_replica_tag" := by
    have h := congrArg (List.any · (· == "primary_replica_tag")) ho.names_eq
    rwa [List.any_map, List.any_map] at h
  have hreplicas := ho.lookup "replicas"
  simp only [Command.validateReplicas, htagged]
  generalize options.lookup "replicas" = replicas, options'.lookup "replicas" = replicas'
    at hreplicas
  cases hreplicas with
  | none =>
      simp only
      split
      · exact .error (x.refl _)
      · exact .ok rfl
  | some hv =>
      have h := x.alike hv
      simp only [h.isObject, h.isInteger, h.isDeferred]
      split
      · exact .error (x.refl _)
      · split
        · exact .ok rfl
        · exact .error (x.error hv fun kind => .mustBe c.name (.option "replicas") _ kind)

theorem constructTableCreate (hvs : List.Forall₂ V vs ws) (ho : Named V options options') :
    Agree E T (c.constructTableCreate n vs options) (c.constructTableCreate m ws options') :=
  (x.validateReplicas ho).bind fun _ _ _ => x.constructScoped hvs ho

omit x in
theorem pairUp? : ∀ {vs ws : List Value}, List.Forall₂ V vs ws →
    Option.Rel (List.Forall₂ fun p q => V p.1 q.1 ∧ V p.2 q.2)
      (Command.pairUp? vs) (Command.pairUp? ws)
  | _, _, .nil => .some .nil
  | _, _, .cons _ .nil => .none
  | _ :: _ :: vs, _ :: _ :: ws, .cons hkey (.cons hvalue hrest) => by
      have hpairs := pairUp? hrest
      rw [Command.pairUp?, Command.pairUp?]
      generalize Command.pairUp? vs = ps, Command.pairUp? ws = qs at hpairs
      cases hpairs with
      | none => exact .none
      | some hpairs => exact .some (.cons ⟨hkey, hvalue⟩ hpairs)

theorem verifyKeys {ps qs : List (Value × Value)}
    (h : List.Forall₂ (fun p q => V p.1 q.1 ∧ V p.2 q.2) ps qs) (index : Nat) :
    Agree E Eq (c.verifyKeys index ps) (c.verifyKeys index qs) := by
  induction h generalizing index with
  | nil => exact .ok rfl
  | cons hpair _ ih =>
      have h := x.alike hpair.1
      simp only [Command.verifyKeys, h.isString, h.isDeferred]
      split
      · exact ih (index + 1)
      · exact .error (x.error hpair.1 fun kind => .mustBe c.name (.key (index + 1)) _ kind)

theorem anyDeferred {ps qs : List (Value × Value)}
    (h : List.Forall₂ (fun p q => V p.1 q.1 ∧ V p.2 q.2) ps qs) :
    (ps.any fun pair => pair.1.isDeferred) = qs.any fun pair => pair.1.isDeferred := by
  induction h with
  | nil => rfl
  | cons hpair _ ih => rw [List.any_cons, List.any_cons, (x.alike hpair.1).isDeferred, ih]

theorem keyed {ps qs : List (Value × Value)}
    (h : List.Forall₂ (fun p q => V p.1 q.1 ∧ V p.2 q.2) ps qs) :
    Named V (ps.map fun pair => (pair.1.string?.getD "", pair.2))
      (qs.map fun pair => (pair.1.string?.getD "", pair.2)) := by
  induction h with
  | nil => exact .nil
  | cons hpair _ ih =>
      rw [List.map_cons, List.map_cons, (x.alike hpair.1).string?]
      exact .cons _ hpair.2 ih

theorem constructObject (hvs : List.Forall₂ V vs ws) (ho : Named V options options') :
    Agree E T (c.constructObject n vs options) (c.constructObject m ws options') := by
  refine (x.validateOptions ho).bind ?_
  intro _ _ _
  have hpairs := Exchange.pairUp? hvs
  rw [hvs.length_eq]
  generalize Command.pairUp? vs = ps, Command.pairUp? ws = qs at hpairs
  cases hpairs with
  | none => exact .error (x.refl _)
  | some h =>
      refine (x.verifyKeys h 0).bind ?_
      intro _ _ _
      rw [x.anyDeferred h]
      split
      · exact x.createTerm (.inl rfl) hvs .nil
      · exact x.createTerm (.inr rfl) .nil (x.keyed h)

theorem verifyTimeParts (hvs : List.Forall₂ V vs ws) (index : Nat) :
    Agree E Eq (c.verifyTimeParts index vs) (c.verifyTimeParts index ws) := by
  induction hvs generalizing index with
  | nil => exact .ok rfl
  | cons hv hrest ih =>
      cases hrest with
      | nil =>
          have hstring : Check.Stable .string := trivial
          simp only [Command.verifyTimeParts, (x.alike hv).admits hstring]
          split
          · exact .ok rfl
          · exact .error (x.error hv fun kind => .mustBe c.name .timezone _ kind)
      | cons _ _ =>
          have hnumber : Check.Stable .number := trivial
          simp only [Command.verifyTimeParts, (x.alike hv).admits hnumber]
          split
          · exact ih (index + 1)
          · exact .error (x.error hv fun kind => .mustBe c.name (.argument (index + 1)) _ kind)

theorem constructTime (hvs : List.Forall₂ V vs ws) (ho : Named V options options') :
    Agree E T (c.constructTime n vs options) (c.constructTime m ws options') := by
  simp only [Command.constructTime, hvs.length_eq]
  split
  · exact .error (x.refl _)
  · refine (x.verifyTimeParts hvs 0).bind ?_
    intro _ _ _
    refine (x.validateOptions ho).bind ?_
    intro _ _ _
    exact x.createTerm (.inl rfl) hvs ho

theorem constructCall (hvs : List.Forall₂ V vs ws) (ho : Named V options options') :
    Agree E T (c.constructCall n vs options) (c.constructCall m ws options') := by
  refine (x.validateArgs hvs).bind ?_
  intro _ _ _
  refine (x.validateOptions ho).bind ?_
  intro _ _ _
  obtain ⟨hlast, hothers⟩ := forall₂_splitLast hvs
  generalize vs.getLast? = function?, ws.getLast? = function?' at hlast
  cases hlast with
  | none => exact .error (x.refl _)
  | @some function function' hfunction =>
      have harity := x.expectArity hfunction ws.dropLast.length
      simp only [hothers.length_eq]
      generalize function.expectArity ws.dropLast.length = found,
        function'.expectArity ws.dropLast.length = found' at harity
      cases harity with
      | error hcause => exact .error (hcause (.functionOf c.name))
      | ok _ => exact x.createTerm (.inl rfl) (.cons hfunction hothers) ho

theorem constructBranch (hvs : List.Forall₂ V vs ws) (ho : Named V options options') :
    Agree E T (c.constructBranch n vs options) (c.constructBranch m ws options') := by
  refine (x.validateArgs hvs).bind ?_
  intro _ _ _
  rw [hvs.length_eq]
  split
  · exact .error (x.refl _)
  · refine (x.validateOptions ho).bind ?_
    intro _ _ _
    exact x.createTerm (.inl rfl) hvs ho

/-- Invocations with values that may stand for each other agree. -/
theorem construct (hvs : List.Forall₂ V vs ws) (ho : Named V options options') :
    Agree E T (c.construct n vs options) (c.construct m ws options') := by
  unfold Command.construct
  split
  · exact x.constructPlain hvs ho
  · exact x.constructScoped hvs ho
  · exact x.constructTableCreate hvs ho
  · exact x.constructObject hvs ho
  · exact x.constructTime hvs ho
  · exact x.constructCall hvs ho
  · exact x.constructBranch hvs ho

end Exchange

end Command

end Reql
