/-
# `Reql.Proofs.Representation` — one value in several forms

A literal can be a raw value, a literal term or a term that makes an array or an object, and
these can be mixed at any depth.  What a value is does not depend on that.  A value and its
term give the same answer to every question of `SameClass`, and so do the raw values of a
literal and the literal term (`same_class`).

Whether a value is a literal, and whether its root has an operation, are questions about the
form.  So the checks that ask them are left out of the last part of the statement.
-/
import Reql.Proofs.Classify

namespace Reql

/-! ## A literal and its raw values -/

mutual

theorem Value.isPath_ofDatum : ∀ d : Datum, (Value.ofDatum d).isPath = d.isPath
  | .null | .bool _ | .number _ | .string _ => rfl
  | .array items => by
      have hempty : (Value.ofItems items).isEmpty = items.isEmpty := by cases items <;> rfl
      rw [Value.ofDatum, Value.isPath, Datum.isPath, hempty, Value.allPaths_ofItems items]
  | .object fields => by
      have hempty : (Value.ofFields fields).isEmpty = fields.isEmpty := by cases fields <;> rfl
      rw [Value.ofDatum, Value.isPath, Datum.isPath, hempty, Value.allPathFields_ofFields fields]

theorem Value.allPaths_ofItems : ∀ items : List Datum,
    Value.allPaths (Value.ofItems items) = Datum.allPaths items
  | [] => rfl
  | item :: rest => by
      rw [Value.ofItems, Value.allPaths, Datum.allPaths, Value.isPath_ofDatum item,
        Value.allPaths_ofItems rest]

theorem Value.allPathFields_ofFields : ∀ fields : List (String × Datum),
    Value.allPathFields (Value.ofFields fields) = Datum.allPathFields fields
  | [] => rfl
  | (_, d) :: rest => by
      have hboolean : (Value.ofDatum d).isBoolean = d.bool?.isSome := by cases d <;> rfl
      rw [Value.ofFields, Value.allPathFields, Datum.allPathFields, Value.isPath_ofDatum d,
        hboolean, Value.allPathFields_ofFields rest]

end

/-- The raw values of a literal and the literal term are alike. -/
theorem Value.alike_ofDatum (d : Datum) : (Value.ofDatum d).Alike (.term (.literal d)) := by
  have hpath : (Value.ofDatum d).isPath = (Value.term (.literal d)).isPath := by
    rw [Value.isPath_ofDatum, Value.isPath, Term.isPath]
  cases d with
  | null | bool _ | number _ | string _ | array _ | object _ =>
      exact ⟨rfl, rfl, rfl, rfl, rfl, rfl, hpath, rfl, rfl⟩

/-! ## Questions about what a value is -/

namespace Value

/-- Two values give the same answer to every question about what they are. -/
structure SameClass (v w : Value) : Prop where
  isString : v.isString = w.isString
  isNumber : v.isNumber = w.isNumber
  isInteger : v.isInteger = w.isInteger
  isBoolean : v.isBoolean = w.isBoolean
  isNull : v.isNull = w.isNull
  isObject : v.isObject = w.isObject
  isArray : v.isArray = w.isArray
  isSequence : v.isSequence = w.isSequence
  isFunction : v.isFunction = w.isFunction
  isSelect : v.isSelect = w.isSelect
  isPrimaryKey : v.isPrimaryKey = w.isPrimaryKey
  isPath : v.isPath = w.isPath
  isDeferred : v.isDeferred = w.isDeferred

theorem Alike.sameClass {v w : Value} (h : v.Alike w) : v.SameClass w where
  isString := h.isString
  isNumber := h.isNumber
  isInteger := h.isInteger
  isBoolean := h.isBoolean
  isNull := h.isNull
  isObject := h.isObject
  isArray := h.isArray
  isSequence := h.isSequence
  isFunction := h.isFunction
  isSelect := h.isSelect
  isPrimaryKey := h.isPrimaryKey
  isPath := h.isPath
  isDeferred := h.isDeferred

end Value

/-- A check asks about the form only if it is for a literal, or for an operation of
literals, arrays or objects. -/
theorem Check.stable_of_ne {check : Check} (hdatum : check ≠ .datum)
    (hkind : ∀ op ∈ ([.datum, .makeArray, .makeObj] : List Operation), check ≠ .kind op) :
    check.Stable := by
  cases check with
  | datum => exact absurd rfl hdatum
  | kind op =>
      have hop : op ∉ ([.datum, .makeArray, .makeObj] : List Operation) := by
        intro hmem
        exact hkind op hmem rfl
      simpa [Check.Stable, Operation.isPlain] using hop
  | _ => trivial

/-- A value is classified as its term is, and a literal in raw values as the literal term.  So
a check that does not ask about the form admits a value exactly when it admits its term. -/
theorem Value.same_class :
    (∀ (n : Normalizer) (v : Value) (t : Term), n.normalize v = .ok t → v.SameClass (.term t)) ∧
    (∀ d : Datum, (Value.ofDatum d).SameClass (.term (.literal d))) ∧
    (∀ (n : Normalizer) (v : Value) (t : Term) (check : Check), n.normalize v = .ok t →
      check ≠ .datum →
      (∀ op ∈ ([.datum, .makeArray, .makeObj] : List Operation), check ≠ .kind op) →
        (check.admits v = true ↔ check.admits (.term t) = true)) := by
  refine ⟨?_, ?_, ?_⟩
  · intro n v t h
    exact (alike_of_normalizeAt h).sameClass
  · intro d
    exact (alike_ofDatum d).sameClass
  · intro n v t check h hdatum hkind
    rw [(alike_of_normalizeAt h).admits (Check.stable_of_ne hdatum hkind)]

/-- A path that is a raw array around a literal array: a term that makes an array has it too. -/
theorem Value.same_class_path :
    let names : Datum := .array [.string "name", .object [("address", .bool true)]]
    let v : Value := .array [.string "id", .term (.literal names)]
    let t : Term := .apply .makeArray [.literal (.string "id"), .literal names] []
    (default : Normalizer).normalize v = .ok t ∧ v.isPath = true ∧ (term t).isPath = true ∧
      (Check.path.admits v = true ↔ Check.path.admits (.term t) = true) := by
  intro names v t
  have hmade : (default : Normalizer).normalize v = .ok t := rfl
  have hpath : v.isPath = true := by decide +kernel
  refine ⟨hmade, hpath, ?_, ?_⟩
  · rw [← (same_class.1 default v t hmade).isPath]
    exact hpath
  · exact same_class.2.2 default v t .path hmade (by decide) (by decide)

end Reql
