/-
# `Reql.Proofs.Command.Signature` — commands keep to their signatures

A signature says how many arguments a command takes, what each of them must be, and which
options there are.  Most commands check what they are given against it.  Those that put
times and objects together do not, they check the arguments in their own way.  Still no
command of the catalogue makes a term of what its signature forbids
(`construct_keeps_signature`).

`Takes` is the signature read as a condition on arguments.  `validateArgs` decides it
(`validateArgs_eq_ok_iff`), and the checks for times and objects imply it.
-/
import Reql.Proofs.Command.OptionOrder

namespace Reql

theorem Value.isFunction_of_arity? {v : Value} {declared : Nat} (h : v.arity? = some declared) :
    v.isFunction = true := by
  obtain ⟨t, ht, harity⟩ := Option.bind_eq_some_iff.mp h
  unfold Term.arity? at harity
  split at harity
  · simp [isFunction, isOfKind, ht, Term.is, Term.operation]
  · simp [isFunction, isOfKind, ht, Term.is, Term.operation]
  · exact nomatch harity

/-- What a check has against a value that it does not admit. -/
def Check.objection (command : String) (place : Place) (v : Value) : Check → ArgumentError
  | .function arity =>
    .functionAt command place <|
      match v.arity? with
      | some declared => .arityMismatch arity declared
      | none => if v.isFunction then .malformedParameters else .notFunction arity v.kindName
  | check => .mustBe command place check.describe v.kindName

theorem Check.verify_eq (check : Check) (command : String) (place : Place) (v : Value) :
    check.verify command place v =
      if check.admits v then .ok () else .error (check.objection command place v) := by
  unfold Check.verify
  split
  · rfl
  · next hrefused =>
      cases check with
      | function arity =>
          simp only [Value.expectArity_eq, Check.objection]
          cases harity : v.arity? with
          | none => cases v.isFunction <;> rfl
          | some declared =>
              have hother : declared ≠ arity := by
                rintro rfl
                exact hrefused (by simp [Check.admits, harity])
              simp [Value.isFunction_of_arity? harity, hother]
      | _ => rfl

/-- A value passes a check exactly when it is admitted. -/
theorem Check.verify_eq_ok_iff {check : Check} {command : String} {place : Place} {v : Value} :
    check.verify command place v = .ok () ↔ check.admits v = true := by
  rw [Check.verify_eq]
  split
  · next hadmits => simp [hadmits]
  · next hrefused => simp [hrefused]

namespace Command

variable {c : Command} {n : Normalizer} {args : List Value} {options : Options} {t : Term}

/-! ## Arguments -/

/-- The arguments are as many as the signature says, and each is as it says. -/
structure Takes (c : Command) (args : List Value) : Prop where
  least : c.arity.1 ≤ args.length
  most : ∀ most, c.arity.2 = some most → args.length ≤ most
  argument : ∀ (i : Nat) v, args[i]? = some v →
    ∃ check, c.checkAt? i = some check ∧ check.admits v = true

/-- No position is without a check before the greatest number of arguments. -/
theorem exists_checkAt? {i : Nat} (h : ∀ most, c.arity.2 = some most → i < most) :
    ∃ check, c.checkAt? i = some check := by
  unfold checkAt?
  cases hget : (c.required ++ c.optional)[i]? with
  | some check => exact ⟨check, rfl⟩
  | none =>
      cases hrest : c.rest with
      | some check => exact ⟨check, rfl⟩
      | none =>
          have hlength := List.getElem?_eq_none_iff.mp hget
          have hlt := h (c.required.length + c.optional.length) (by simp [arity, hrest])
          rw [List.length_append] at hlength
          omega

theorem verifyFrom_cons_eq_ok_iff {index : Nat} {v : Value} {rest : List Value} :
    c.verifyFrom index (v :: rest) = .ok () ↔
      (∀ check, c.checkAt? index = some check → check.admits v = true) ∧
        c.verifyFrom (index + 1) rest = .ok () := by
  rw [verifyFrom]
  cases c.checkAt? index with
  | none => simp
  | some check => simp [check_bind_eq_ok_iff, Check.verify_eq_ok_iff]

theorem verifyFrom_eq_ok_iff {index : Nat} :
    c.verifyFrom index args = .ok () ↔
      ∀ (i : Nat) v, args[i]? = some v →
        ∀ check, c.checkAt? (index + i) = some check → check.admits v = true := by
  induction args generalizing index with
  | nil => simp [verifyFrom]
  | cons v rest ih =>
      rw [verifyFrom_cons_eq_ok_iff, ih]
      constructor
      · rintro ⟨hv, hrest⟩ i w hw check hcheck
        cases i with
        | zero =>
            obtain rfl := Option.some.inj hw
            exact hv check hcheck
        | succ i =>
            rw [Nat.add_comm i 1, ← Nat.add_assoc] at hcheck
            exact hrest i w hw check hcheck
      · intro h
        refine ⟨h 0 v rfl, ?_⟩
        intro i w hw check hcheck
        rw [Nat.add_assoc, Nat.add_comm 1 i] at hcheck
        exact h (i + 1) w hw check hcheck

/-- The arity is used to refuse numbers of arguments. -/
theorem refusesCount_eq_false_iff {count : Nat} :
    (count < c.arity.1 || c.arity.2.any fun most => most < count) = false ↔
      c.arity.1 ≤ count ∧ ∀ most, c.arity.2 = some most → count ≤ most := by
  cases c.arity.2 <;> simp

theorem validateArgs_eq : c.validateArgs args =
    if args.length < c.arity.1 || c.arity.2.any fun most => most < args.length then
      .error (.argumentCount c.name c.arity.1 c.arity.2 args.length)
    else c.verifyFrom 0 args := rfl

/-- Validating arguments is deciding whether the signature takes them. -/
theorem validateArgs_eq_ok_iff : c.validateArgs args = .ok () ↔ c.Takes args := by
  rw [validateArgs_eq]
  split
  · next hwrong =>
      refine ⟨fun h => (nomatch h), ?_⟩
      intro htakes
      rw [refusesCount_eq_false_iff.mpr ⟨htakes.least, htakes.most⟩] at hwrong
      exact nomatch hwrong
  · next hright =>
      obtain ⟨hleast, hmost⟩ := refusesCount_eq_false_iff.mp (Bool.not_eq_true _ ▸ hright)
      rw [verifyFrom_eq_ok_iff]
      constructor
      · intro h
        refine ⟨hleast, hmost, ?_⟩
        intro i v hv
        have hi := (List.getElem?_eq_some_iff.mp hv).1
        obtain ⟨check, hcheck⟩ := exists_checkAt? fun most hm => Nat.lt_of_lt_of_le hi (hmost most hm)
        exact ⟨check, hcheck, h i v hv check (by rwa [Nat.zero_add])⟩
      · intro htakes i v hv check hcheck
        obtain ⟨other, hother, hadmits⟩ := htakes.argument i v hv
        rw [Nat.zero_add, hother] at hcheck
        obtain rfl := Option.some.inj hcheck
        exact hadmits

/-! ## Options -/

/-- Each option is one of the signature, given once, and as the signature says. -/
structure TakesOptions (c : Command) (options : Options) : Prop where
  once : (options.map Prod.fst).Nodup
  option : ∀ option ∈ options, ∃ spec ∈ c.options, spec.name = option.1 ∧
    c.option? option.1 = some spec ∧ spec.check.admits option.2 = true

/-- Validating options is deciding whether the signature takes them. -/
theorem validateOptions_eq_ok_iff : c.validateOptions options = .ok () ↔ c.TakesOptions options := by
  rw [validateOptions, verifyOptions_eq_ok_iff]
  constructor
  · rintro ⟨hnames, -, haccepts⟩
    refine ⟨hnames, ?_⟩
    intro option hoption
    obtain ⟨spec, hspec, hverify⟩ := haccepts option hoption
    have hname : spec.name = option.1 := by simpa using List.find?_some hspec
    exact ⟨spec, List.mem_of_find?_eq_some hspec, hname, hspec, Check.verify_eq_ok_iff.mp hverify⟩
  · rintro ⟨hnames, htakes⟩
    refine ⟨hnames, fun _ _ => List.not_mem_nil, ?_⟩
    intro option hoption
    obtain ⟨spec, -, -, hspec, hadmits⟩ := htakes option hoption
    exact ⟨spec, hspec, Check.verify_eq_ok_iff.mpr hadmits⟩

/-! ## Arguments that are checked in another way -/

/-- What the parts of a time are checked for: all but the last are numbers. -/
theorem number_of_verifyTimeParts {index i : Nat} {v : Value}
    (h : c.verifyTimeParts index args = .ok ()) (hv : args[i]? = some v) (hi : i + 1 < args.length) :
    Check.number.admits v = true := by
  induction args generalizing index i with
  | nil => exact absurd hi (Nat.not_lt_zero _)
  | cons part rest ih =>
      cases rest with
      | nil => exact absurd hi (by simp)
      | cons next rest =>
          rw [verifyTimeParts] at h
          split at h
          · next hpart =>
              cases i with
              | zero =>
                  obtain rfl := Option.some.inj hv
                  exact hpart
              | succ i => exact ih h hv (Nat.lt_of_succ_lt_succ hi)
          · cases h
          · exact List.cons_ne_nil _ _

/-- A signature for dates, and for dates with a time of day. -/
def TimeSignature (c : Command) : Prop :=
  c.required = [.number, .number, .number, .any] ∧ c.optional = [.any, .any, .any] ∧ c.rest = none

theorem takes_of_timeParts (hc : c.TimeSignature) (hlength : args.length = 4 ∨ args.length = 7)
    (h : c.verifyTimeParts 0 args = .ok ()) : c.Takes args := by
  obtain ⟨hrequired, hoptional, hrest⟩ := hc
  have harity : c.arity = (4, some 7) := by simp [arity, hrequired, hoptional, hrest]
  refine ⟨?_, ?_, ?_⟩
  · rw [harity]
    omega
  · intro most hmost
    rw [harity] at hmost
    obtain rfl := Option.some.inj hmost
    omega
  · intro i v hv
    have hi := (List.getElem?_eq_some_iff.mp hv).1
    have hlist : ∀ i < 7, ([.number, .number, .number, .any] ++ [.any, .any, .any] :
        List Check)[i]? = some (if i < 3 then .number else .any) := by decide
    have hchecks : c.checkAt? i = some (if i < 3 then .number else .any) := by
      rw [checkAt?, hrequired, hoptional, hlist i (by omega)]
    refine ⟨_, hchecks, ?_⟩
    split
    · exact number_of_verifyTimeParts h hv (by omega)
    · rfl

/-- A signature that takes any arguments. -/
def AnySignature (c : Command) : Prop :=
  c.required = [] ∧ c.optional = [] ∧ c.rest = some .any

theorem takes_of_anySignature (hc : c.AnySignature) (args : List Value) : c.Takes args := by
  obtain ⟨hrequired, hoptional, hrest⟩ := hc
  have harity : c.arity = (0, none) := by simp [arity, hrequired, hrest]
  refine ⟨?_, ?_, ?_⟩
  · rw [harity]
    exact Nat.zero_le _
  · intro most hmost
    rw [harity] at hmost
    exact nomatch hmost
  · intro i v _
    exact ⟨.any, by simp [checkAt?, hrequired, hoptional, hrest], rfl⟩

/-! ## The assemblies -/

/-- The commands whose arguments a database may stand before. -/
def scopedNames : List String := ["table", "table_create", "table_drop", "table_list", "grant"]

/-- The arguments that a signature describes, without the database before them. -/
def described (c : Command) (args : List Value) : List Value :=
  if c.name ∈ scopedNames then (splitDatabase args).2 else args

/-- What the assemblies of the catalogue count on. -/
structure Regular (c : Command) : Prop where
  described : c.name ∈ scopedNames ↔ c.assembly = .scoped ∨ c.assembly = .tableCreate
  object : c.name = "object" ↔ c.assembly = .object
  objectSignature : c.assembly = .object → c.AnySignature
  timeSignature : c.assembly = .time → c.TimeSignature

theorem catalogue_regular : ∀ c ∈ Catalogue.commands, c.Regular := by
  have hscoped : ∀ c ∈ Catalogue.commands,
      (c.name ∈ scopedNames ↔ c.assembly = .scoped ∨ c.assembly = .tableCreate) := by
    decide +kernel
  have hobject : ∀ c ∈ Catalogue.commands, (c.name = "object" ↔ c.assembly = .object) := by
    decide +kernel
  have hany : ∀ c ∈ Catalogue.commands, c.assembly = .object →
      c.required = [] ∧ c.optional = [] ∧ c.rest = some .any := by decide +kernel
  have htime : ∀ c ∈ Catalogue.commands, c.assembly = .time →
      c.required = [.number, .number, .number, .any] ∧ c.optional = [.any, .any, .any] ∧
        c.rest = none := by decide +kernel
  intro c hc
  exact ⟨hscoped c hc, hobject c hc, hany c hc, htime c hc⟩

theorem constructPlain_eq_ok_iff : c.constructPlain n args options = .ok t ↔
    c.Takes args ∧ c.TakesOptions options ∧ n.createTerm c.operation args options = .ok t := by
  rw [constructPlain, check_bind_eq_ok_iff, check_bind_eq_ok_iff, validateArgs_eq_ok_iff,
    validateOptions_eq_ok_iff]

theorem constructScoped_eq_ok_iff : c.constructScoped n args options = .ok t ↔
    c.Takes (splitDatabase args).2 ∧ c.TakesOptions options ∧
      n.createTerm c.operation args options = .ok t := by
  have hscoped : c.constructScoped n args options = (do
      c.validateArgs (splitDatabase args).2
      c.validateOptions options
      n.createTerm c.operation ((splitDatabase args).1 ++ (splitDatabase args).2) options) := rfl
  rw [hscoped, splitDatabase_append, check_bind_eq_ok_iff, check_bind_eq_ok_iff,
    validateArgs_eq_ok_iff, validateOptions_eq_ok_iff]

theorem validated_of_constructTime (hc : c.TimeSignature)
    (h : c.constructTime n args options = .ok t) : c.Takes args ∧ c.TakesOptions options := by
  unfold constructTime at h
  split at h
  · exact nomatch h
  · next hlength =>
      obtain ⟨hparts, h⟩ := check_bind_eq_ok_iff.mp h
      obtain ⟨hoptions, -⟩ := check_bind_eq_ok_iff.mp h
      exact ⟨takes_of_timeParts hc (by omega) hparts, validateOptions_eq_ok_iff.mp hoptions⟩

theorem validated_of_constructCall (h : c.constructCall n args options = .ok t) :
    c.Takes args ∧ c.TakesOptions options := by
  obtain ⟨hargs, h⟩ := check_bind_eq_ok_iff.mp h
  obtain ⟨hoptions, -⟩ := check_bind_eq_ok_iff.mp h
  exact ⟨validateArgs_eq_ok_iff.mp hargs, validateOptions_eq_ok_iff.mp hoptions⟩

theorem validated_of_constructBranch (h : c.constructBranch n args options = .ok t) :
    c.Takes args ∧ c.TakesOptions options := by
  unfold constructBranch at h
  obtain ⟨hargs, h⟩ := check_bind_eq_ok_iff.mp h
  split at h
  · exact nomatch h
  · obtain ⟨hoptions, -⟩ := check_bind_eq_ok_iff.mp h
    exact ⟨validateArgs_eq_ok_iff.mp hargs, validateOptions_eq_ok_iff.mp hoptions⟩

/-- Whatever the assembly, the signature takes the arguments it describes and the options. -/
theorem validated_of_construct (hc : c.Regular) (h : c.construct n args options = .ok t) :
    c.Takes (c.described args) ∧ c.TakesOptions options := by
  have hself (hassembly : ¬ (c.assembly = .scoped ∨ c.assembly = .tableCreate)) :
      c.described args = args := if_neg (mt hc.described.mp hassembly)
  have hown (hassembly : c.assembly = .scoped ∨ c.assembly = .tableCreate) :
      c.described args = (splitDatabase args).2 := if_pos (hc.described.mpr hassembly)
  unfold construct at h
  split at h
  · next hassembly =>
      rw [hself (by simp [hassembly])]
      obtain ⟨htakes, hoptions, -⟩ := constructPlain_eq_ok_iff.mp h
      exact ⟨htakes, hoptions⟩
  · next hassembly =>
      rw [hown (.inl hassembly)]
      obtain ⟨htakes, hoptions, -⟩ := constructScoped_eq_ok_iff.mp h
      exact ⟨htakes, hoptions⟩
  · next hassembly =>
      rw [hown (.inr hassembly)]
      obtain ⟨-, h⟩ := check_bind_eq_ok_iff.mp h
      obtain ⟨htakes, hoptions, -⟩ := constructScoped_eq_ok_iff.mp h
      exact ⟨htakes, hoptions⟩
  · next hassembly =>
      obtain ⟨hoptions, -⟩ := createTerm_of_constructObject h
      exact ⟨takes_of_anySignature (hc.objectSignature hassembly) _,
        validateOptions_eq_ok_iff.mp hoptions⟩
  · next hassembly =>
      rw [hself (by simp [hassembly])]
      exact validated_of_constructTime (hc.timeSignature hassembly) h
  · next hassembly =>
      rw [hself (by simp [hassembly])]
      exact validated_of_constructCall h
  · next hassembly =>
      rw [hself (by simp [hassembly])]
      exact validated_of_constructBranch h

/-! ## The options of the term -/

/-- All assemblies but one end in a node with the options that were given. -/
theorem exists_createTerm_of_construct (hc : c.assembly ≠ .object)
    (h : c.construct n args options = .ok t) :
    ∃ vs, n.createTerm c.operation vs options = .ok t := by
  unfold construct at h
  split at h
  · exact ⟨args, createTerm_of_constructPlain h⟩
  · exact ⟨args, createTerm_of_constructScoped h⟩
  · exact ⟨args, createTerm_of_constructTableCreate h⟩
  · next hassembly => exact absurd hassembly hc
  · exact ⟨args, createTerm_of_constructTime h⟩
  · obtain ⟨others, function, -, hmade⟩ := createTerm_of_constructCall h
    exact ⟨function :: others, hmade⟩
  · exact ⟨args, createTerm_of_constructBranch h⟩

/-- The term has exactly the options that were given, each with the term of its value. -/
theorem options_of_construct (hc : c.assembly ≠ .object)
    (h : c.construct n args options = .ok t) :
    ∃ us, Named (fun v u => n.normalize v = .ok u) options us ∧ t.options.Perm us := by
  obtain ⟨vs, hmade⟩ := exists_createTerm_of_construct hc h
  obtain ⟨ts, us, -, hus, -, hnames, rfl⟩ := Normalizer.createTerm_eq_ok_iff.mp hmade
  exact ⟨us, hus, Fields.perm_ofList hnames⟩

/-- What a command of the catalogue makes a term of, its signature takes.  The options of the
term are those that were given, but for the command that makes options of its arguments. -/
theorem construct_keeps_signature (hc : c ∈ Catalogue.commands)
    (h : c.construct n args options = .ok t) :
    c.Takes (c.described args) ∧ c.TakesOptions options ∧
      (c.name ≠ "object" →
        ∃ us, Named (fun v u => n.normalize v = .ok u) options us ∧ t.options.Perm us) := by
  have hregular := catalogue_regular c hc
  obtain ⟨htakes, hoptions⟩ := validated_of_construct hregular h
  refine ⟨htakes, hoptions, ?_⟩
  intro hname
  exact options_of_construct (mt hregular.object.mpr hname) h

/-- A table of a given database: the signature is about the name of the table alone. -/
theorem construct_keeps_signature_table :
    let table : Command := { name := "table", operation := .table, required := [.string],
                             options := Catalogue.tableOptions, assembly := .scoped }
    let database : Term := .apply .db [.literal (.string "main")] []
    let args : List Value := [.term database, .string "users"]
    let options : Options := [("read_mode", .string "single")]
    let t : Term := .apply .table [database, .literal (.string "users")]
      [("read_mode", .literal (.string "single"))]
    table.construct default args options = .ok t ∧ table.described args = [.string "users"] ∧
      table.Takes [.string "users"] ∧ table.TakesOptions options ∧
        ∃ us, Named (fun v u => (default : Normalizer).normalize v = .ok u) options us ∧
          t.options.Perm us := by
  intro table database args options t
  have hmade : table.construct default args options = .ok t := rfl
  have hcatalogue : table ∈ Catalogue.commands := by decide +kernel
  have hname : table.name ≠ "object" := by decide
  obtain ⟨htakes, hoptions, hterm⟩ := construct_keeps_signature hcatalogue hmade
  exact ⟨hmade, rfl, htakes, hoptions, hterm hname⟩

end Command

end Reql
