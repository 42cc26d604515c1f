/-
# `Reql.Proofs.Command.Declared` — a plain command takes what it declares

Most commands are plain: they check everything they are given against their signature and
make a node of it.  Such a command makes a term exactly if the invocation fits
(`Command.Fits`), which is said here without the functions that do the checking, and the term is
the node of its operation with what was given.

Errors come in the order of the checks.  A wrong number of arguments is reported whatever the
arguments are, and the first wrong argument whatever comes after it (`construct_declared`).
-/
import Reql.Proofs.Command.Signature

namespace Reql.Command

variable {c : Command} {n : Normalizer} {args : List Value} {options : Options} {t : Term}

/-! ## Declarations -/

/-- The check of a position, counted from 0: required arguments come first, then optional ones,
and all further ones have the same check. -/
inductive Asks (c : Command) : Nat → Check → Prop where
  | required {i : Nat} {check : Check} : c.required[i]? = some check → Asks c i check
  | optional {i : Nat} {check : Check} :
      c.optional[i]? = some check → Asks c (c.required.length + i) check
  | further {check : Check} (i : Nat) :
      c.rest = some check → Asks c (c.required.length + c.optional.length + i) check

theorem checkAt?_eq_some_iff {i : Nat} {check : Check} :
    c.checkAt? i = some check ↔ c.Asks i check := by
  constructor
  · intro h
    unfold checkAt? at h
    cases hget : (c.required ++ c.optional)[i]? with
    | some found =>
        rw [hget] at h
        obtain rfl := Option.some.inj h
        rcases Nat.lt_or_ge i c.required.length with hi | hi
        · rw [List.getElem?_append_left hi] at hget
          exact .required hget
        · rw [List.getElem?_append_right hi] at hget
          have hasks := Asks.optional (c := c) hget
          rwa [Nat.add_sub_cancel' hi] at hasks
    | none =>
        rw [hget] at h
        have hi := List.getElem?_eq_none_iff.mp hget
        rw [List.length_append] at hi
        have hasks := Asks.further (i - (c.required.length + c.optional.length)) h
        rwa [Nat.add_sub_cancel' hi] at hasks
  · intro h
    unfold checkAt?
    cases h with
    | required hget =>
        have hi := (List.getElem?_eq_some_iff.mp hget).1
        rw [List.getElem?_append_left hi, hget]
    | optional hget =>
        rw [List.getElem?_append_right (Nat.le_add_right _ _), Nat.add_sub_cancel_left, hget]
    | further i hrest =>
        have hbeyond : (c.required ++ c.optional)[c.required.length + c.optional.length + i]? =
            none := by
          rw [List.getElem?_eq_none_iff, List.length_append]
          exact Nat.le_add_right _ _
        rw [hbeyond, hrest]

/-- The option that a name stands for: the first that is declared under it. -/
def Declares (c : Command) (name : String) (spec : OptionSpec) : Prop :=
  ∃ before after, c.options = before ++ spec :: after ∧ spec.name = name ∧
    ∀ other ∈ before, other.name ≠ name

theorem option?_eq_some_iff {name : String} {spec : OptionSpec} :
    c.option? name = some spec ↔ c.Declares name spec := by
  rw [option?, List.find?_eq_some_iff_append]
  constructor
  · rintro ⟨hname, before, after, hoptions, hbefore⟩
    exact ⟨before, after, hoptions, by simpa using hname, by simpa using hbefore⟩
  · rintro ⟨before, after, hoptions, hname, hbefore⟩
    exact ⟨by simpa using hname, before, after, hoptions, by simpa using hbefore⟩

/-! ## Invocations that fit -/

/-- A command takes this many arguments. -/
def TakesCount (c : Command) (count : Nat) : Prop :=
  c.required.length ≤ count ∧
    (c.rest = none → count ≤ c.required.length + c.optional.length)

/-- Each argument is admitted by the check of its position. -/
def AdmitsEach (c : Command) (args : List Value) : Prop :=
  ∀ (i : Nat) v, args[i]? = some v → ∃ check, c.Asks i check ∧ check.admits v = true

/-- Arguments and options are as a command declares them. -/
structure AsDeclared (c : Command) (args : List Value) (options : Options) : Prop where
  count : c.TakesCount args.length
  argument : c.AdmitsEach args
  once : (options.map Prod.fst).Nodup
  option : ∀ option ∈ options, ∃ spec, c.Declares option.1 spec ∧ spec.check.admits option.2 = true

/-- What a plain command asks of an invocation. -/
structure Fits (c : Command) (n : Normalizer) (args : List Value) (options : Options) : Prop where
  operation : c.operation ≠ .datum
  declared : c.AsDeclared args options
  argTerm : ∀ v ∈ args, ∃ u, n.normalize v = .ok u
  optionTerm : ∀ option ∈ options, ∃ u, n.normalize option.2 = .ok u

theorem takesCount_iff {count : Nat} :
    c.TakesCount count ↔ c.arity.1 ≤ count ∧ ∀ most, c.arity.2 = some most → count ≤ most := by
  rw [TakesCount, arity]
  cases c.rest <;> simp

theorem takes_iff : c.Takes args ↔ c.TakesCount args.length ∧ c.AdmitsEach args := by
  rw [takesCount_iff]
  constructor
  · rintro ⟨hleast, hmost, hargument⟩
    refine ⟨⟨hleast, hmost⟩, ?_⟩
    intro i v hv
    obtain ⟨check, hcheck, hadmits⟩ := hargument i v hv
    exact ⟨check, checkAt?_eq_some_iff.mp hcheck, hadmits⟩
  · rintro ⟨⟨hleast, hmost⟩, hargument⟩
    refine ⟨hleast, hmost, ?_⟩
    intro i v hv
    obtain ⟨check, hasks, hadmits⟩ := hargument i v hv
    exact ⟨check, checkAt?_eq_some_iff.mpr hasks, hadmits⟩

theorem takesOptions_iff : c.TakesOptions options ↔ (options.map Prod.fst).Nodup ∧
    ∀ option ∈ options, ∃ spec, c.Declares option.1 spec ∧ spec.check.admits option.2 = true := by
  constructor
  · rintro ⟨honce, hoption⟩
    refine ⟨honce, ?_⟩
    intro option hmem
    obtain ⟨spec, -, -, hspec, hadmits⟩ := hoption option hmem
    exact ⟨spec, option?_eq_some_iff.mp hspec, hadmits⟩
  · rintro ⟨honce, hoption⟩
    refine ⟨honce, ?_⟩
    intro option hmem
    obtain ⟨spec, hdeclares, hadmits⟩ := hoption option hmem
    have hspec := option?_eq_some_iff.mpr hdeclares
    obtain ⟨before, after, hoptions, hname, -⟩ := hdeclares
    exact ⟨spec, by simp [hoptions], hname, hspec, hadmits⟩

theorem asDeclared_iff : c.AsDeclared args options ↔ c.Takes args ∧ c.TakesOptions options := by
  rw [takes_iff, takesOptions_iff]
  constructor
  · rintro ⟨hcount, hargument, honce, hoption⟩
    exact ⟨⟨hcount, hargument⟩, honce, hoption⟩
  · rintro ⟨⟨hcount, hargument⟩, honce, hoption⟩
    exact ⟨hcount, hargument, honce, hoption⟩

theorem fits_iff : c.Fits n args options ↔
    c.AsDeclared args options ∧ ∃ t, n.createTerm c.operation args options = .ok t := by
  rw [Normalizer.exists_createTerm_iff]
  constructor
  · rintro ⟨hoperation, hdeclared, hargs, hoptions⟩
    exact ⟨hdeclared, hoperation, hdeclared.once, hargs, hoptions⟩
  · rintro ⟨hdeclared, hoperation, -, hargs, hoptions⟩
    exact ⟨hoperation, hdeclared, hargs, hoptions⟩

/-! ## The order of errors -/

theorem validateArgs_of_count (h : ¬ c.TakesCount args.length) :
    c.validateArgs args = .error (.argumentCount c.name c.arity.1 c.arity.2 args.length) := by
  rw [validateArgs_eq]
  refine if_pos ?_
  rw [← Bool.not_eq_false, refusesCount_eq_false_iff, ← takesCount_iff]
  exact h

theorem verifyFrom_append (index : Nat) (before after : List Value) :
    c.verifyFrom index (before ++ after) =
      c.verifyFrom index before >>= fun _ => c.verifyFrom (index + before.length) after := by
  induction before generalizing index with
  | nil => rfl
  | cons v rest ih =>
      rw [List.cons_append, verifyFrom, verifyFrom, ih (index + 1), List.length_cons,
        Nat.add_right_comm, Nat.add_assoc]
      cases c.checkAt? index with
      | none => rfl
      | some check => exact (bind_assoc _ _ _).symm

theorem verifyFrom_of_asks {index : Nat} {v : Value} {after : List Value} {check : Check}
    (hasks : c.Asks index check) (hrefused : check.admits v = false) :
    c.verifyFrom index (v :: after) =
      .error (check.objection c.name (.argument (index + 1)) v) := by
  rw [verifyFrom, checkAt?_eq_some_iff.mpr hasks]
  simp only [Check.verify_eq, hrefused]
  rfl

/-- Arguments are checked in order, so the first that is not admitted is reported. -/
theorem validateArgs_of_asks {before after : List Value} {v : Value} {check : Check}
    (hcount : c.TakesCount (before ++ v :: after).length) (hbefore : c.AdmitsEach before)
    (hasks : c.Asks before.length check) (hrefused : check.admits v = false) :
    c.validateArgs (before ++ v :: after) =
      .error (check.objection c.name (.argument (before.length + 1)) v) := by
  -- The arguments in front pass, so the checking gets as far as the wrong one.
  have hfirst : c.verifyFrom 0 before = .ok () := by
    rw [verifyFrom_eq_ok_iff]
    intro i w hw check hcheck
    obtain ⟨other, hother, hadmits⟩ := hbefore i w hw
    rw [Nat.zero_add, checkAt?_eq_some_iff.mpr hother] at hcheck
    obtain rfl := Option.some.inj hcheck
    exact hadmits
  have hvalidate : c.validateArgs (before ++ v :: after) = c.verifyFrom 0 (before ++ v :: after) := by
    rw [validateArgs_eq]
    refine if_neg ?_
    rw [Bool.not_eq_true, refusesCount_eq_false_iff, ← takesCount_iff]
    exact hcount
  rw [hvalidate, verifyFrom_append, hfirst, Nat.zero_add]
  exact verifyFrom_of_asks hasks hrefused

theorem construct_eq_error {e : ArgumentError} (hc : c.assembly = .plain)
    (h : c.validateArgs args = .error e) : c.construct n args options = .error e := by
  rw [construct, hc]
  simp only [constructPlain, h]
  rfl

/-- A plain command makes a term exactly if the invocation fits, and then the node of its operation.
If the number of arguments is wrong that is the error, whatever they are.  If not, but some argument
is not admitted, the error is what the check of its position has against the first of these. -/
theorem construct_declared (hc : c.assembly = .plain) (n : Normalizer) (args : List Value)
    (options : Options) :
    ((∃ t, c.construct n args options = .ok t) ↔ c.Fits n args options) ∧
      (∀ t, c.construct n args options = .ok t → n.IsNode c.operation args options t) ∧
      (¬ c.Fits n args options → ∃ e, c.construct n args options = .error e) ∧
      (¬ c.TakesCount args.length → c.construct n args options =
        .error (.argumentCount c.name c.arity.1 c.arity.2 args.length)) ∧
      (c.TakesCount args.length → ∀ before v after check, args = before ++ v :: after →
        c.AdmitsEach before → c.Asks before.length check → check.admits v = false →
          c.construct n args options =
            .error (check.objection c.name (.argument (before.length + 1)) v)) := by
  have hplain : c.construct n args options = c.constructPlain n args options := by
    rw [construct, hc]
  have hfits : (∃ t, c.construct n args options = .ok t) ↔ c.Fits n args options := by
    rw [hplain, fits_iff, asDeclared_iff, and_assoc]
    simp only [constructPlain_eq_ok_iff, exists_and_left]
  refine ⟨hfits, ?_, ?_, ?_, ?_⟩
  · intro t ht
    rw [hplain, constructPlain_eq_ok_iff] at ht
    exact Normalizer.isNode_of_createTerm ht.2.2
  · intro hnot
    rwa [← hfits, ← isOk_iff, not_isOk_iff] at hnot
  · intro hcount
    exact construct_eq_error hc (validateArgs_of_count hcount)
  · rintro hcount before v after check rfl hbefore hasks hrefused
    exact construct_eq_error hc (validateArgs_of_asks hcount hbefore hasks hrefused)

/-- Three positions with three kinds of checks: one invocation that fits, and one with a wrong
argument in the last position and an option that is not declared. -/
theorem construct_declared_pluck :
    let pluck : Command := { name := "pluck", operation := .pluck, required := [.array],
                             optional := [.bool], rest := some .path,
                             options := [⟨"index", .string⟩] }
    let front : List Value := [.array [], .bool true]
    let good : List Value := front ++ [.string "id"]
    let named : Options := [("index", .string "code")]
    let t : Term := .apply .pluck
      [.apply .makeArray [] [], .literal (.bool true), .literal (.string "id")]
      [("index", .literal (.string "code"))]
    (pluck.construct default good named = .ok t ∧ pluck.Fits default good named ∧
      (default : Normalizer).IsNode .pluck good named t) ∧
    pluck.construct default (front ++ [.null]) [("sort", .null)] =
      .error (.mustBe "pluck" (.argument 3) "path" "null") ∧
    pluck.construct default [] [("sort", .null)] =
      .error (.argumentCount "pluck" 1 none 0) := by
  intro pluck front good named t
  have hplain : pluck.assembly = .plain := rfl
  have hmade : pluck.construct default good named = .ok t := rfl
  obtain ⟨hfits, hnode, -⟩ := construct_declared hplain default good named
  obtain ⟨-, -, -, -, hwrong⟩ :=
    construct_declared hplain default (front ++ [.null]) [("sort", .null)]
  obtain ⟨-, -, -, hnone, -⟩ := construct_declared hplain default [] [("sort", .null)]
  have hgood := hfits.mp ⟨t, hmade⟩
  have hfront : pluck.AdmitsEach front := by
    intro i v hv
    have hi := (List.getElem?_eq_some_iff.mp hv).1
    exact hgood.declared.argument i v ((List.getElem?_append_left hi).trans hv)
  refine ⟨⟨hmade, hgood, hnode t hmade⟩, ?_, ?_⟩
  · exact hwrong ⟨by decide, nofun⟩ front .null [] .path rfl hfront (.further 0 rfl) rfl
  · exact hnone fun hcount => absurd hcount.1 (by decide)

end Reql.Command
