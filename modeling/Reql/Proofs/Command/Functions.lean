/-
# `Reql.Proofs.Command.Functions` — functions take what they will be given

How many parameters a function takes is read off its term.  The list of them is the first child,
either made by an array node or a literal array (`Term.Declares`).  Anything else in that place
makes the function malformed, and then it takes no number of parameters at all.

Three checks ask for a function: one requires it, two allow it next to other values.  No command of
the catalogue makes a term of a function that takes another number than its check says.  The
command that calls a function has no check for it, as the number depends on the other arguments.
It counts them itself (`construct_functions`).
-/
import Reql.Proofs.Command.Declared

namespace Reql

/-! ## Parameters -/

/-- A function whose list of parameters has this length. -/
inductive Term.Declares : Term → Nat → Prop where
  | made {ids others : List Term} {listOptions options : List (String × Term)} :
      Declares (.apply .func (.apply .makeArray ids listOptions :: others) options) ids.length
  | literal {ids : List Datum} {others : List Term} {options : List (String × Term)} :
      Declares (.apply .func (.literal (.array ids) :: others) options) ids.length

/-- A function that has no list of parameters where it should be. -/
def Term.Malformed (t : Term) : Prop := t.is .func = true ∧ ∀ arity, ¬ t.Declares arity

theorem Term.arity?_eq_some_iff {t : Term} {arity : Nat} :
    t.arity? = some arity ↔ t.Declares arity := by
  constructor
  · intro h
    unfold Term.arity? at h
    split at h
    · obtain rfl := Option.some.inj h
      exact .literal
    · obtain rfl := Option.some.inj h
      exact .made
    · exact nomatch h
  · intro h
    cases h <;> rfl

theorem Value.arity?_eq_some_iff {v : Value} {arity : Nat} :
    v.arity? = some arity ↔ ∃ f, v = .term f ∧ f.Declares arity := by
  cases v with
  | term f => simp [Value.arity?, Value.term?, Term.arity?_eq_some_iff]
  | null | bool _ | number _ | string _ | array _ | object _ => simp [Value.arity?, Value.term?]

theorem Value.expectArity_eq_ok_iff {v : Value} {arity : Nat} :
    v.expectArity arity = .ok () ↔ v.arity? = some arity := by
  rw [Value.expectArity_eq]
  cases harity : v.arity? with
  | none => cases v.isFunction <;> simp
  | some declared =>
      rw [Value.isFunction_of_arity? harity]
      by_cases heq : declared = arity <;> simp [heq]

/-! ## Checks that ask for a function -/

namespace Check

/-- The check admits such a function, and other values that are no functions. -/
def Allows (check : Check) (arity : Nat) : Prop :=
  check = .predicate arity ∨ check = .stringOrFunction arity

theorem exists_function_of_admits {v : Value} {arity : Nat}
    (h : (Check.function arity).admits v = true) : ∃ f, v = .term f ∧ f.Declares arity :=
  Value.arity?_eq_some_iff.mp (beq_iff_eq.mp h)

theorem declares_of_admits {check : Check} {arity : Nat} (hcheck : check.Allows arity) {f : Term}
    (hf : f.is .func = true) (h : check.admits (.term f) = true) : f.Declares arity := by
  have hfunction : (Value.term f).isFunction = true := hf
  have hstring : (Value.term f).isString = false := by
    cases f with
    | literal _ => exact nomatch hf
    | apply _ _ _ => rfl
  have harity : (Value.term f).arity? = f.arity? := rfl
  rw [← Term.arity?_eq_some_iff]
  rcases hcheck with rfl | rfl
  · rw [admits, harity] at h
    cases hdeclared : f.arity? with
    | none => simp [hdeclared, hfunction] at h
    | some declared => simpa [hdeclared] using h
  · simpa [admits, hstring, hfunction, harity] using h

end Check

namespace Command

variable {c : Command} {n : Normalizer} {args : List Value} {options : Options} {t : Term}

/-! ## Functions among the arguments and options -/

/-- The signature has this check for a value that the command is given. -/
inductive Governs (c : Command) (args : List Value) (options : Options) : Check → Value → Prop where
  | argument {i : Nat} {v : Value} {check : Check} : (c.described args)[i]? = some v →
      c.Asks i check → Governs c args options check v
  | option {name : String} {v : Value} {spec : OptionSpec} : (name, v) ∈ options →
      c.Declares name spec → Governs c args options spec.check v

/-- Functions are as the signature says: one is there wherever it is required, and those that are
only allowed take the number of parameters that is asked for. -/
structure FunctionsFit (c : Command) (args : List Value) (options : Options) : Prop where
  required : ∀ arity v, c.Governs args options (.function arity) v →
    ∃ f, v = .term f ∧ f.Declares arity
  allowed : ∀ check arity f, check.Allows arity → c.Governs args options check (.term f) →
    f.is .func = true → f.Declares arity

/-- What a command makes a term of, the checks of its signature admit. -/
theorem admits_of_construct (hc : c ∈ Catalogue.commands) (h : c.construct n args options = .ok t)
    {check : Check} {v : Value} (hv : c.Governs args options check v) : check.admits v = true := by
  obtain ⟨htakes, htakesOptions⟩ := validated_of_construct (catalogue_regular c hc) h
  obtain ⟨-, hargument, -, hoption⟩ := asDeclared_iff.mpr ⟨htakes, htakesOptions⟩
  cases hv with
  | argument hget hasks =>
      obtain ⟨other, hother, hadmits⟩ := hargument _ v hget
      have hcheck := checkAt?_eq_some_iff.mpr hasks
      rw [checkAt?_eq_some_iff.mpr hother] at hcheck
      obtain rfl := Option.some.inj hcheck
      exact hadmits
  | option hmem hdeclares =>
      obtain ⟨other, hother, hadmits⟩ := hoption _ hmem
      have hspec := option?_eq_some_iff.mpr hdeclares
      rw [option?_eq_some_iff.mpr hother] at hspec
      obtain rfl := Option.some.inj hspec
      exact hadmits

theorem functionsFit_of_construct (hc : c ∈ Catalogue.commands)
    (h : c.construct n args options = .ok t) : c.FunctionsFit args options where
  required _ _ hv := Check.exists_function_of_admits (admits_of_construct hc h hv)
  allowed _ _ _ hcheck hv hf := Check.declares_of_admits hcheck hf (admits_of_construct hc h hv)

/-! ## The function that is called -/

theorem constructCall_eq_ok_iff : c.constructCall n args options = .ok t ↔
    c.Takes args ∧ c.TakesOptions options ∧ ∃ others f, args = others ++ [.term f] ∧
      f.Declares others.length ∧ n.createTerm c.operation (.term f :: others) options = .ok t := by
  rw [constructCall, check_bind_eq_ok_iff, check_bind_eq_ok_iff, validateArgs_eq_ok_iff,
    validateOptions_eq_ok_iff]
  refine and_congr_right fun _ => and_congr_right fun _ => ?_
  constructor
  · intro h
    cases hlast : args.getLast? with
    | none => simp [hlast] at h
    | some function =>
        simp only [hlast] at h
        split at h
        · exact nomatch h
        · next harity =>
            rw [Value.expectArity_eq_ok_iff, Value.arity?_eq_some_iff] at harity
            obtain ⟨f, rfl, hdeclares⟩ := harity
            exact ⟨_, f, (List.dropLast_append_getLast? _ hlast).symm, hdeclares, h⟩
  · rintro ⟨others, f, rfl, hdeclares, h⟩
    have harity : (Value.term f).expectArity others.length = .ok () :=
      Value.expectArity_eq_ok_iff.mpr (Value.arity?_eq_some_iff.mpr ⟨f, rfl, hdeclares⟩)
    simpa [harity] using h

/-- The command that calls a function. -/
structure Caller (c : Command) : Prop where
  assembly : c.assembly = .call
  operation : c.operation = .funcall
  required : c.required = [.any]
  optional : c.optional = []
  rest : c.rest = some .any
  options : c.options = []

theorem caller_do (hc : c ∈ Catalogue.commands) (hname : c.name = "do") : c.Caller := by
  have hdo : ∀ c ∈ Catalogue.commands, c.name = "do" →
      c = { name := "do", operation := .funcall, required := [.any], rest := some .any,
            assembly := .call } := by decide +kernel
  obtain rfl := hdo c hc hname
  exact ⟨rfl, rfl, rfl, rfl, rfl, rfl⟩

/-- It asks nothing of its arguments but that there is one. -/
theorem Caller.takes (hc : c.Caller) (hargs : args ≠ []) : c.Takes args := by
  rw [takes_iff]
  constructor
  · refine ⟨?_, fun hrest => nomatch hc.rest.symm.trans hrest⟩
    rw [hc.required]
    exact List.length_pos_iff.mpr hargs
  · intro i v _
    refine ⟨.any, ?_, rfl⟩
    cases i with
    | zero => exact .required (by rw [hc.required]; rfl)
    | succ i =>
        have hasks := Asks.further i hc.rest
        rwa [hc.required, hc.optional, Nat.add_comm] at hasks

theorem Caller.construct_eq_ok_iff (hc : c.Caller) : c.construct n args options = .ok t ↔
    options = [] ∧ ∃ others f, args = others ++ [.term f] ∧ f.Declares others.length ∧
      n.createTerm .funcall (.term f :: others) [] = .ok t := by
  rw [construct, hc.assembly]
  simp only [constructCall_eq_ok_iff, hc.operation]
  constructor
  · rintro ⟨-, hoptions, others, f, hargs, hdeclares, hmade⟩
    obtain rfl := options_eq_nil hc.options (validateOptions_eq_ok_iff.mpr hoptions)
    exact ⟨rfl, others, f, hargs, hdeclares, hmade⟩
  · rintro ⟨rfl, others, f, rfl, hdeclares, hmade⟩
    refine ⟨hc.takes (by simp), ⟨List.nodup_nil, List.forall_mem_nil _⟩, others, f, rfl, hdeclares,
      hmade⟩

theorem Caller.exists_construct_iff (hc : c.Caller) : (∃ t, c.construct n args options = .ok t) ↔
    options = [] ∧ (∀ v ∈ args, ∃ u, n.normalize v = .ok u) ∧
      ∃ others f, args = others ++ [.term f] ∧ f.Declares others.length := by
  simp only [hc.construct_eq_ok_iff]
  constructor
  · rintro ⟨t, rfl, others, f, rfl, hdeclares, hmade⟩
    obtain ⟨-, -, hterms, -⟩ := Normalizer.exists_createTerm_iff.mp ⟨t, hmade⟩
    refine ⟨rfl, fun v hv => hterms v ?_, others, f, rfl, hdeclares⟩
    exact (List.perm_append_singleton _ _).mem_iff.mp hv
  · rintro ⟨rfl, hterms, others, f, rfl, hdeclares⟩
    have hall : ∀ v ∈ .term f :: others, ∃ u, n.normalize v = .ok u :=
      fun v hv => hterms v ((List.perm_append_singleton _ _).mem_iff.mpr hv)
    have hoperation : Operation.funcall ≠ .datum := by decide
    have hmade : ∃ t, n.createTerm .funcall (.term f :: others) [] = .ok t :=
      Normalizer.exists_createTerm_iff.mpr
        ⟨hoperation, List.nodup_nil, hall, List.forall_mem_nil _⟩
    obtain ⟨t, hmade⟩ := hmade
    exact ⟨t, rfl, others, f, rfl, hdeclares, hmade⟩

/-- The function moves to the front. -/
theorem Caller.eq_of_construct (hc : c.Caller) {others : List Value} {f : Term}
    (h : c.construct n (others ++ [.term f]) options = .ok t) :
    ∃ ts, List.Forall₂ (fun v u => n.normalize v = .ok u) others ts ∧
      t = .apply .funcall (f :: ts) [] := by
  obtain ⟨-, others', f', hargs, -, hmade⟩ := hc.construct_eq_ok_iff.mp h
  obtain ⟨rfl, hlast⟩ := List.append_inj' hargs rfl
  obtain rfl : f = f' := by simpa using hlast
  obtain ⟨ts, us, hts, hus, -, -, rfl⟩ := Normalizer.createTerm_eq_ok_iff.mp hmade
  cases hus
  obtain ⟨u, rest, hu, hrest, rfl⟩ := List.forall₂_cons_left_iff.mp hts
  rw [Normalizer.normalize, Normalizer.normalizeAt_term] at hu
  obtain rfl := Except.ok.inj hu
  exact ⟨rest, hrest, rfl⟩

/-- No command makes a term of a function that takes another number of parameters than the
signature says, nor of a malformed one.  The command that calls a function makes a term exactly if
it has no options, everything has a term and the last argument is a function of the others.  The
node has the function first and then the others in their order. -/
theorem construct_functions (hc : c ∈ Catalogue.commands) (n : Normalizer) (args : List Value)
    (options : Options) :
    ((∃ t, c.construct n args options = .ok t) → c.FunctionsFit args options) ∧
      (∀ check arity f, check.Allows arity → c.Governs args options check (.term f) →
        f.Malformed → ∃ e, c.construct n args options = .error e) ∧
      (c.name = "do" →
        ((∃ t, c.construct n args options = .ok t) ↔
          options = [] ∧ (∀ v ∈ args, ∃ u, n.normalize v = .ok u) ∧
            ∃ others f, args = others ++ [.term f] ∧ f.Declares others.length) ∧
        ∀ others f t, args = others ++ [.term f] → c.construct n args options = .ok t →
          ∃ ts, List.Forall₂ (fun v u => n.normalize v = .ok u) others ts ∧
            t = .apply .funcall (f :: ts) []) := by
  refine ⟨fun ⟨t, ht⟩ => functionsFit_of_construct hc ht, ?_, ?_⟩
  · intro check arity f hcheck hv hmalformed
    rw [← not_isOk_iff, isOk_iff]
    rintro ⟨t, ht⟩
    have hfit := functionsFit_of_construct hc ht
    exact hmalformed.2 arity (hfit.allowed check arity f hcheck hv hmalformed.1)
  · intro hname
    have hcaller := caller_do hc hname
    refine ⟨hcaller.exists_construct_iff, ?_⟩
    rintro others f t rfl ht
    exact hcaller.eq_of_construct ht

/-- A function of two parameters where one of three is required among the options, a malformed one
where a value would do, and a call of a function with a literal list of parameters. -/
theorem construct_functions_fold :
    let fold : Command := { name := "fold", operation := .fold,
                            required := [.sequence, .any, .function 2],
                            options := [⟨"emit", .function 3⟩, ⟨"final_emit", .function 1⟩] }
    let count : Command := { name := "count", operation := .count, required := [.any],
                             optional := [.predicate 1] }
    let call : Command := { name := "do", operation := .funcall, required := [.any],
                            rest := some .any, assembly := .call }
    let pair : Term := .func [1, 2] (.var 1)
    let malformed : Term := .apply .func [.literal .null, .var 1] []
    let listed : Term := .apply .func [.literal (.array [.number (Double.ofNat 7)]), .var 7] []
    (∀ t, fold.construct default [.array [], .null, .term pair] [("emit", .term pair)] ≠ .ok t) ∧
      (∃ e, count.construct default [.array [], .term malformed] [] = .error e) ∧
      ∃ t ts, call.construct default [.null, .term listed] [] = .ok t ∧
        List.Forall₂ (fun v u => (default : Normalizer).normalize v = .ok u) [.null] ts ∧
        t = .apply .funcall (listed :: ts) [] := by
  intro fold count call pair malformed listed
  have hfold : fold ∈ Catalogue.commands := by decide +kernel
  have hcount : count ∈ Catalogue.commands := by decide +kernel
  have hcall : call ∈ Catalogue.commands := by decide +kernel
  obtain ⟨hfit, -, -⟩ := construct_functions hfold default [.array [], .null, .term pair]
    [("emit", .term pair)]
  obtain ⟨-, hrefused, -⟩ := construct_functions hcount default [.array [], .term malformed] []
  obtain ⟨-, -, hdo⟩ := construct_functions hcall default [.null, .term listed] []
  refine ⟨?_, ?_, ?_⟩
  · intro t ht
    have hemit : fold.Declares "emit" ⟨"emit", .function 3⟩ :=
      ⟨[], _, rfl, rfl, List.forall_mem_nil _⟩
    have hgoverns : fold.Governs [.array [], .null, .term pair] [("emit", .term pair)]
        (OptionSpec.check ⟨"emit", .function 3⟩) (.term pair) :=
      .option (List.mem_singleton_self _) hemit
    obtain ⟨f, hf, hdeclares⟩ := (hfit ⟨t, ht⟩).required 3 (.term pair) hgoverns
    obtain rfl := Value.term.inj hf
    have harity := Term.arity?_eq_some_iff.mpr hdeclares
    exact absurd harity (by decide)
  · have hasks : count.Asks 1 (.predicate 1) := checkAt?_eq_some_iff.mp rfl
    refine hrefused (.predicate 1) 1 malformed (.inl rfl) (.argument rfl hasks) ⟨rfl, ?_⟩
    intro arity hdeclares
    exact nomatch Term.arity?_eq_some_iff.mpr hdeclares
  · obtain ⟨hmade, hnode⟩ := hdo rfl
    have hdeclares : listed.Declares 1 := .literal
    have hterms : ∀ v ∈ [Value.null, .term listed], ∃ u,
        (default : Normalizer).normalize v = .ok u :=
      List.forall_mem_cons.mpr ⟨⟨_, rfl⟩, List.forall_mem_singleton.mpr ⟨_, rfl⟩⟩
    obtain ⟨t, ht⟩ := hmade.mpr ⟨rfl, hterms, [.null], listed, rfl, hdeclares⟩
    obtain ⟨ts, hts, heq⟩ := hnode [.null] listed t rfl ht
    exact ⟨t, ts, ht, hts, heq⟩

end Command

end Reql
