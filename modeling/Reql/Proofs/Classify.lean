/-
# `Reql.Proofs.Classify` — values that answer alike

`Value.Alike v w` says that no question about what a value is tells `v` from `w`.
It has one field for each question that is not answered by the others; every
classification, and every check that does not ask for a literal or for a container
already made, is a function of these fields.

The main statement is `alike_of_normalizeAt`: a value and its term are alike.
-/
import Reql.Command.Check
import Reql.Proofs.Normalize

namespace Reql

/-! ## The operation whose result a value is -/

namespace Operation

/-- The operations of literals and of containers, which stand for plain data. -/
def isPlain (op : Operation) : Bool := [.datum, .makeArray, .makeObj].contains op

theorem isPlain_selection {op : Operation} (h : op.isPlain) :
    selections.contains op = false := by
  have hop : op = .datum ∨ op = .makeArray ∨ op = .makeObj := by simpa [isPlain] using h
  rcases hop with rfl | rfl | rfl <;> rfl

theorem isPlain_sequence {op : Operation} (h : op.isPlain) :
    sequences.contains op = false := by
  have hop : op = .datum ∨ op = .makeArray ∨ op = .makeObj := by simpa [isPlain] using h
  rcases hop with rfl | rfl | rfl <;> rfl

end Operation

namespace Value

/-- The operation of a term that is no plain data. -/
def computation? (v : Value) : Option Operation :=
  (v.term?.map Term.operation).filter fun op => !op.isPlain

theorem isOfKind_eq (v : Value) {op : Operation} (hop : op.isPlain = false) :
    v.isOfKind op = (v.computation? == some op) := by
  unfold isOfKind computation?
  cases v.term? with
  | none => rfl
  | some t =>
      by_cases h : t.operation = op
      · simp [Term.is, h, hop, Option.filter]
      · cases hplain : t.operation.isPlain <;> simp [Term.is, h, hplain, Option.filter]

theorem isDeferred_eq (v : Value) : v.isDeferred = v.computation?.any (· != .func) := by
  unfold isDeferred computation?
  cases v.term? with
  | none => rfl
  | some t =>
      cases hplain : t.operation.isPlain
      · have : t.operation ≠ .datum ∧ t.operation ≠ .makeArray ∧ t.operation ≠ .makeObj := by
          simpa [Operation.isPlain] using hplain
        simp [hplain, this, Option.filter, bne, Bool.beq_eq_decide_eq]
      · have : t.operation = .datum ∨ t.operation = .makeArray ∨ t.operation = .makeObj := by
          simpa [Operation.isPlain] using hplain
        simp only [Option.map_some, Option.filter, hplain]
        rcases this with h | h | h <;> simp [h]

theorem isSelect_eq (v : Value) :
    v.isSelect = v.computation?.any Operation.selections.contains := by
  unfold isSelect computation?
  cases v.term? with
  | none => rfl
  | some t =>
      cases hplain : t.operation.isPlain
      · simp [hplain, Option.filter]
      · simpa [hplain, Option.filter] using Operation.isPlain_selection hplain

theorem isSequence_eq (v : Value) :
    v.isSequence = (v.isArray || v.isSelect ||
      v.computation?.any Operation.sequences.contains) := by
  unfold isSequence computation?
  cases v.term? with
  | none => rfl
  | some t =>
      cases hplain : t.operation.isPlain
      · simp [hplain, Option.filter]
      · have hsequence := Operation.isPlain_sequence hplain
        simp only [hsequence, Option.map_some, Option.filter, hplain]
        rfl

/-! ## Scalars by their content -/

theorem isString_eq (v : Value) : v.isString = v.string?.isSome := by
  cases v with
  | term t => cases t with
    | literal d => cases d <;> rfl
    | apply _ _ _ => rfl
  | null | bool _ | number _ | string _ | array _ | object _ => rfl

theorem isNumber_eq (v : Value) : v.isNumber = v.number?.isSome := by
  cases v with
  | term t => cases t with
    | literal d => cases d <;> rfl
    | apply _ _ _ => rfl
  | null | bool _ | number _ | string _ | array _ | object _ => rfl

theorem isInteger_eq (v : Value) : v.isInteger = v.number?.any Double.isInteger := by
  unfold isInteger
  cases v.number? <;> rfl

/-! ## Alike -/

/-- No question about what a value is tells the two apart. -/
structure Alike (v w : Value) : Prop where
  string? : v.string? = w.string?
  number? : v.number? = w.number?
  isBoolean : v.isBoolean = w.isBoolean
  isNull : v.isNull = w.isNull
  isObject : v.isObject = w.isObject
  isArray : v.isArray = w.isArray
  isPath : v.isPath = w.isPath
  arity? : v.arity? = w.arity?
  computation? : v.computation? = w.computation?

namespace Alike

variable {v w : Value} (h : v.Alike w)

include h

theorem isString : v.isString = w.isString := by
  rw [isString_eq, isString_eq, h.string?]

theorem isNumber : v.isNumber = w.isNumber := by
  rw [isNumber_eq, isNumber_eq, h.number?]

theorem isInteger : v.isInteger = w.isInteger := by
  rw [isInteger_eq, isInteger_eq, h.number?]

theorem isOfKind {op : Operation} (hop : op.isPlain = false) : v.isOfKind op = w.isOfKind op := by
  rw [isOfKind_eq v hop, isOfKind_eq w hop, h.computation?]

theorem isFunction : v.isFunction = w.isFunction := h.isOfKind rfl

theorem isDeferred : v.isDeferred = w.isDeferred := by
  rw [isDeferred_eq, isDeferred_eq, h.computation?]

theorem isSelect : v.isSelect = w.isSelect := by
  rw [isSelect_eq, isSelect_eq, h.computation?]

theorem isSequence : v.isSequence = w.isSequence := by
  rw [isSequence_eq, isSequence_eq, h.isArray, h.isSelect, h.computation?]

theorem isPrimaryKey : v.isPrimaryKey = w.isPrimaryKey := by
  rw [Value.isPrimaryKey, Value.isPrimaryKey, h.isString, h.isInteger]

end Alike

end Value

/-! ## A value and its term

Naming fields is the one question that looks inside containers, so it needs an
induction over the value; all others are answered at the root. -/

section

open Normalizer

theorem Value.isBoolean_of_normalizeAt {v : Value} {depth : Nat} {t : Term}
    (h : normalizeAt depth v = .ok t) : (Value.term t).isBoolean = v.isBoolean := by
  cases v with
  | term u =>
      rw [normalizeAt_term] at h
      rw [Except.ok.inj h]
  | null | bool _ | string _ =>
      rw [normalizeAt] at h
      rw [← Except.ok.inj h]
      rfl
  | number _ =>
      rw [(normalizeAt_number_eq_ok_iff.mp h).2]
      rfl
  | array items =>
      obtain ⟨_, _, -, -, rfl⟩ := normalizeAt_array_eq_ok_iff.mp h
      rfl
  | object fields =>
      obtain ⟨_, _, -, -, rfl⟩ := normalizeAt_object_eq_ok_iff.mp h
      rfl

mutual

theorem Term.isPath_of_normalizeAt : ∀ (v : Value) {depth : Nat} {t : Term},
    normalizeAt depth v = .ok t → t.isPath = v.isPath
  | .term t, _, _, h => by
      rw [normalizeAt_term] at h
      rw [← Except.ok.inj h, Value.isPath]
  | .null, _, _, h | .bool _, _, _, h | .string _, _, _, h => by
      rw [normalizeAt] at h
      rw [← Except.ok.inj h]
      rfl
  | .number _, _, _, h => by
      rw [(normalizeAt_number_eq_ok_iff.mp h).2]
      rfl
  | .array items, _, _, h => by
      obtain ⟨inner, args, -, hargs, rfl⟩ := normalizeAt_array_eq_ok_iff.mp h
      have hempty : args.isEmpty = items.isEmpty := by
        cases normalizeItems_eq_ok_iff.mp hargs <;> rfl
      rw [Term.isPath, Value.isPath, hempty, Term.allPaths_of_normalizeItems items hargs]
  | .object fields, _, _, h => by
      obtain ⟨inner, options, -, hoptions, rfl⟩ := normalizeAt_object_eq_ok_iff.mp h
      have hempty : options.isEmpty = fields.isEmpty := by
        cases normalizeFields_eq_ok_iff.mp hoptions <;> rfl
      rw [Term.isPath, Value.isPath, hempty,
        Term.allPathOptions_of_normalizeFields fields hoptions]

theorem Term.allPaths_of_normalizeItems : ∀ (items : List Value) {depth : Nat} {ts : List Term},
    normalizeItems depth items = .ok ts → Term.allPaths ts = Value.allPaths items
  | [], _, _, h => by
      obtain rfl := Except.ok.inj h
      rfl
  | item :: rest, _, _, h => by
      obtain ⟨t, ht, h⟩ := bind_eq_ok_iff.mp h
      obtain ⟨ts, hts, h⟩ := bind_eq_ok_iff.mp h
      obtain rfl := Except.ok.inj h
      rw [Term.allPaths, Value.allPaths, Term.isPath_of_normalizeAt item ht,
        Term.allPaths_of_normalizeItems rest hts]

theorem Term.allPathOptions_of_normalizeFields :
    ∀ (fields : List (String × Value)) {depth : Nat} {us : List (String × Term)},
      normalizeFields depth fields = .ok us →
        Term.allPathOptions us = Value.allPathFields fields
  | [], _, _, h => by
      obtain rfl := Except.ok.inj h
      rfl
  | (_, value) :: rest, _, _, h => by
      obtain ⟨t, ht, h⟩ := bind_eq_ok_iff.mp h
      obtain ⟨us, hus, h⟩ := bind_eq_ok_iff.mp h
      obtain rfl := Except.ok.inj h
      rw [Term.allPathOptions, Value.allPathFields, Term.isPath_of_normalizeAt value ht,
        Value.isBoolean_of_normalizeAt ht, Term.allPathOptions_of_normalizeFields rest hus]

end

/-- A value and its term are alike. -/
theorem Value.alike_of_normalizeAt {v : Value} {depth : Nat} {t : Term}
    (h : normalizeAt depth v = .ok t) : v.Alike (.term t) := by
  have hpath : v.isPath = (Value.term t).isPath :=
    (Term.isPath_of_normalizeAt v h).symm.trans (by rw [Value.isPath])
  cases v with
  | term u =>
      rw [normalizeAt_term] at h
      rw [Except.ok.inj h]
      exact ⟨rfl, rfl, rfl, rfl, rfl, rfl, rfl, rfl, rfl⟩
  | null | bool _ | string _ =>
      rw [normalizeAt] at h
      obtain rfl := Except.ok.inj h
      exact ⟨rfl, rfl, rfl, rfl, rfl, rfl, hpath, rfl, rfl⟩
  | number _ =>
      obtain ⟨-, rfl⟩ := normalizeAt_number_eq_ok_iff.mp h
      exact ⟨rfl, rfl, rfl, rfl, rfl, rfl, hpath, rfl, rfl⟩
  | array items =>
      obtain ⟨_, _, -, -, rfl⟩ := normalizeAt_array_eq_ok_iff.mp h
      exact ⟨rfl, rfl, rfl, rfl, rfl, rfl, hpath, rfl, rfl⟩
  | object fields =>
      obtain ⟨_, _, -, -, rfl⟩ := normalizeAt_object_eq_ok_iff.mp h
      exact ⟨rfl, rfl, rfl, rfl, rfl, rfl, hpath, rfl, rfl⟩

end

/-! ## Checks -/

/-- The check does not ask how plain data is represented: whether it is a literal,
and whether a container is already made. -/
def Check.Stable : Check → Prop
  | .datum => False
  | .kind op => op.isPlain = false
  | _ => True

instance (check : Check) : Decidable check.Stable := by
  cases check <;> unfold Check.Stable <;> infer_instance

/-- Values that are alike pass the same checks. -/
theorem Value.Alike.admits {v w : Value} (h : v.Alike w) {check : Check} (hc : check.Stable) :
    check.admits v = check.admits w := by
  cases check with
  | any => rfl
  | datum => exact hc.elim
  | kind op => exact h.isOfKind hc
  | selection => exact h.isSelect
  | string | number | integer | bool | object | array | sequence | primaryKey | path | function
  | predicate | stringOrFunction | oneOf =>
      simp only [Check.admits, h.isString, h.isNumber, h.isInteger, h.isBoolean, h.isObject,
        h.isArray, h.isSequence, h.isPrimaryKey, h.isPath, h.isDeferred, h.isFunction, h.arity?,
        h.string?]

end Reql
