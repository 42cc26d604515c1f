/-
# `Reql.Proofs.Command.Verdict` — what is refused is never let through

A value is looked at twice when it is refused: once to decide, and once to say what is wrong with
it.  For most checks the second look only quotes the kind of the value.  A check for a function
counts the parameters again, in another way, and could come to another answer.  It never does
(`Check.verdicts_agree`): both count `Term.Declares`, and a function without a list of parameters
(`Term.malformed_iff`) is refused whatever number is asked for.
-/
import Reql.Proofs.Command.Functions

namespace Reql

/-! ## Functions without parameters to count -/

/-- In the place of the list there is nothing, a literal that is no array, or another operation. -/
theorem Term.malformed_iff {t : Term} : t.Malformed ↔ ∃ args options, t = .apply .func args options ∧
    (args = [] ∨ (∃ d others, args = .literal d :: others ∧ d.array? = none) ∨
      ∃ op us opts others, args = .apply op us opts :: others ∧ op ≠ .makeArray) := by
  constructor
  · rintro ⟨hfunc, hnone⟩
    cases t with
    | literal d => exact absurd hfunc Bool.false_ne_true
    | apply op args options =>
        obtain rfl : op = .func := by simpa [Term.is, Term.operation] using hfunc
        refine ⟨args, options, rfl, ?_⟩
        cases args with
        | nil => exact .inl rfl
        | cons first others =>
            refine .inr ?_
            cases first with
            | literal d =>
                refine .inl ⟨d, others, rfl, ?_⟩
                cases d with
                | array ids => exact absurd .literal (hnone ids.length)
                | null | bool _ | number _ | string _ | object _ => rfl
            | apply op us opts =>
                refine .inr ⟨op, us, opts, others, rfl, ?_⟩
                rintro rfl
                exact hnone us.length .made
  · rintro ⟨args, options, rfl, hargs⟩
    refine ⟨rfl, ?_⟩
    rcases hargs with rfl | ⟨d, others, rfl, hd⟩ | ⟨op, us, opts, others, rfl, hop⟩
    · rintro _ ⟨⟩
    · rintro _ ⟨⟩
      exact absurd hd (Option.some_ne_none _)
    · rintro _ ⟨⟩
      exact hop rfl

theorem Term.arity?_eq_none_iff {t : Term} (h : t.is .func = true) :
    t.arity? = none ↔ t.Malformed := by
  rw [Option.eq_none_iff_forall_ne_some, Term.Malformed, and_iff_right h]
  exact forall_congr' fun arity => not_congr Term.arity?_eq_some_iff

/-! ## The second look -/

namespace Value

variable {v : Value} {f : Term} {declared : Nat}

theorem function_cases (v : Value) : v.isFunction = false ∨
    (∃ f declared, v = .term f ∧ f.Declares declared) ∨ ∃ f, v = .term f ∧ f.Malformed := by
  cases v with
  | null | bool _ | number _ | string _ | array _ | object _ => exact .inl rfl
  | term f =>
      cases hfunc : f.is .func with
      | false => exact .inl hfunc
      | true =>
          refine .inr ?_
          cases harity : f.arity? with
          | none => exact .inr ⟨f, rfl, (Term.arity?_eq_none_iff hfunc).mp harity⟩
          | some declared => exact .inl ⟨f, declared, rfl, Term.arity?_eq_some_iff.mp harity⟩

theorem expectArity_of_not_isFunction (h : v.isFunction = false) (arity : Nat) :
    v.expectArity arity = .error (.notFunction arity v.kindName) := by
  rw [expectArity_eq, h]
  rfl

theorem expectArity_of_declares (h : f.Declares declared) (arity : Nat) :
    (term f).expectArity arity =
      if declared = arity then .ok () else .error (.arityMismatch arity declared) := by
  have harity : (term f).arity? = some declared := Term.arity?_eq_some_iff.mpr h
  rw [expectArity_eq, isFunction_of_arity? harity, if_pos rfl, harity]

theorem expectArity_of_malformed (h : f.Malformed) (arity : Nat) :
    (term f).expectArity arity = .error .malformedParameters := by
  have hfunction : (term f).isFunction = true := h.1
  have harity : (term f).arity? = none := (Term.arity?_eq_none_iff h.1).mpr h
  rw [expectArity_eq, if_pos hfunction, harity]

/-- A value is refused because it is no function, because of the number of its parameters, or
because they cannot be counted. -/
theorem expectArity_eq_error_iff {arity : Nat} {cause : ArgumentError} :
    v.expectArity arity = .error cause ↔
      (v.isFunction = false ∧ cause = .notFunction arity v.kindName) ∨
        (∃ f declared, v = .term f ∧ f.Declares declared ∧ declared ≠ arity ∧
          cause = .arityMismatch arity declared) ∨
        ∃ f, v = .term f ∧ f.Malformed ∧ cause = .malformedParameters := by
  constructor
  · intro h
    rcases v.function_cases with hno | ⟨f, declared, rfl, hdeclares⟩ | ⟨f, rfl, hmalformed⟩
    · rw [expectArity_of_not_isFunction hno] at h
      exact .inl ⟨hno, (Except.error.inj h).symm⟩
    · rw [expectArity_of_declares hdeclares] at h
      split at h
      · exact nomatch h
      · next hne => exact .inr (.inl ⟨f, declared, rfl, hdeclares, hne, (Except.error.inj h).symm⟩)
    · rw [expectArity_of_malformed hmalformed] at h
      exact .inr (.inr ⟨f, rfl, hmalformed, (Except.error.inj h).symm⟩)
  · rintro (⟨hno, rfl⟩ | ⟨f, declared, rfl, hdeclares, hne, rfl⟩ | ⟨f, rfl, hmalformed, rfl⟩)
    · exact expectArity_of_not_isFunction hno arity
    · rw [expectArity_of_declares hdeclares, if_neg hne]
    · exact expectArity_of_malformed hmalformed arity

end Value

/-! ## The verdicts -/

namespace Check

theorem admits_function_iff {arity : Nat} {v : Value} :
    (function arity).admits v = true ↔ v.expectArity arity = .ok () := by
  rw [Value.expectArity_eq_ok_iff, admits, beq_iff_eq]

theorem verify_eq_error_iff {check : Check} {command : String} {place : Place} {v : Value}
    {e : ArgumentError} : check.verify command place v = .error e ↔
      check.admits v = false ∧ e = check.objection command place v := by
  rw [verify_eq]
  cases check.admits v with
  | true => simp
  | false => simp [eq_comm]

/-- What is wrong with a value where a function is asked for is what reading its parameters says. -/
theorem verify_function_eq_error_iff {arity : Nat} {command : String} {place : Place} {v : Value}
    {cause : ArgumentError} :
    (function arity).verify command place v = .error (.functionAt command place cause) ↔
      v.expectArity arity = .error cause := by
  unfold verify
  split
  · next hadmits => simp [admits_function_iff.mp hadmits]
  · cases harity : v.expectArity arity <;> simp [harity]

/-- A value passes a check exactly if the check admits it, and what is said of it otherwise is an
error.  Where a function is asked for, the number of its parameters is read in one way only, be it
to admit a value or to say what is wrong with it.  So arguments and options are taken exactly if
there are as many as declared, none is given twice and each is admitted. -/
theorem verdicts_agree :
    (∀ (check : Check) (command : String) (place : Place) (v : Value),
      (check.verify command place v = .ok () ↔ check.admits v = true) ∧
      ∀ e, check.verify command place v = .error e ↔
        check.admits v = false ∧ e = check.objection command place v) ∧
    (∀ (arity : Nat) (v : Value),
      ((function arity).admits v = true ↔ v.expectArity arity = .ok ()) ∧
      (v.expectArity arity = .ok () ↔ ∃ f, v = .term f ∧ f.Declares arity) ∧
      (∀ cause, v.expectArity arity = .error cause ↔
        (v.isFunction = false ∧ cause = .notFunction arity v.kindName) ∨
          (∃ f declared, v = .term f ∧ f.Declares declared ∧ declared ≠ arity ∧
            cause = .arityMismatch arity declared) ∨
          ∃ f, v = .term f ∧ f.Malformed ∧ cause = .malformedParameters) ∧
      ∀ command place cause,
        (function arity).verify command place v = .error (.functionAt command place cause) ↔
          v.expectArity arity = .error cause) ∧
    ∀ (c : Command) (args : List Value) (options : Options),
      (c.validateArgs args = .ok () ↔ c.TakesCount args.length ∧ c.AdmitsEach args) ∧
      (c.validateOptions options = .ok () ↔ (options.map Prod.fst).Nodup ∧
        ∀ option ∈ options, ∃ spec, c.Declares option.1 spec ∧
          spec.check.admits option.2 = true) := by
  refine ⟨?_, ?_, ?_⟩
  · exact fun check command place v => ⟨verify_eq_ok_iff, fun e => verify_eq_error_iff⟩
  · intro arity v
    refine ⟨admits_function_iff, ?_, fun cause => Value.expectArity_eq_error_iff, ?_⟩
    · rw [Value.expectArity_eq_ok_iff, Value.arity?_eq_some_iff]
    · exact fun command place cause => verify_function_eq_error_iff
  · intro c args options
    rw [Command.validateArgs_eq_ok_iff, Command.takes_iff, Command.validateOptions_eq_ok_iff,
      Command.takesOptions_iff]
    exact ⟨Iff.rfl, Iff.rfl⟩

/-- Functions with a literal in the place of the list, with nothing there, and with a list that is a
literal itself. -/
theorem verdicts_agree_malformed :
    let number : Term := .apply .func [.literal .null, .var 1] []
    let missing : Term := .apply .func [] []
    let listed : Term := .apply .func [.literal (.array [.null]), .var 1] []
    (function 1).verify "map" (.argument 2) (.term number) =
        .error (.functionAt "map" (.argument 2) .malformedParameters) ∧
      (Value.term missing).expectArity 0 = .error .malformedParameters ∧
      (function 1).admits (.term listed) = true := by
  intro number missing listed
  obtain ⟨-, hfunctions, -⟩ := verdicts_agree
  have hnumber : number.Malformed :=
    Term.malformed_iff.mpr ⟨_, _, rfl, .inr (.inl ⟨.null, _, rfl, rfl⟩)⟩
  have hmissing : missing.Malformed := Term.malformed_iff.mpr ⟨_, _, rfl, .inl rfl⟩
  refine ⟨?_, ?_, ?_⟩
  · obtain ⟨-, -, hcause, herror⟩ := hfunctions 1 (.term number)
    exact (herror _ _ _).mpr ((hcause _).mpr (.inr (.inr ⟨_, rfl, hnumber, rfl⟩)))
  · obtain ⟨-, -, hcause, -⟩ := hfunctions 0 (.term missing)
    exact (hcause _).mpr (.inr (.inr ⟨_, rfl, hmissing, rfl⟩))
  · obtain ⟨hadmits, hcounts, -, -⟩ := hfunctions 1 (.term listed)
    exact hadmits.mpr (hcounts.mpr ⟨_, rfl, .literal⟩)

end Check

end Reql
