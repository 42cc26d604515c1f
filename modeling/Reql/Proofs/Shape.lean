/-
# `Reql.Proofs.Shape` — every value has exactly one shape

Eight of the questions about what a value is divide the values among them.  Which of them a value
answers with yes can be read off its root: the one about its `shape?`, and no other
(`hasShape_iff`).  So a value has at most one shape.

It has one if its root is valid (`exists_shape?`).  A node that has the operation of literals but
no literal would be left over: it is neither plain data nor a function, and its result is not
known later either.

The other questions are about several shapes at once.  What a path can be is said by
`shape?_of_isPath`.
-/
import Reql.Proofs.Validity

namespace Reql

/-- What a value can be. -/
inductive Shape where
  | null
  | boolean
  | number
  | string
  | array
  | object
  | function
  /-- Known only when the term runs. -/
  | deferred
  deriving DecidableEq, Repr

/-! ## The shape of a value -/

def Datum.shape : Datum → Shape
  | .null => .null
  | .bool _ => .boolean
  | .number _ => .number
  | .string _ => .string
  | .array _ => .array
  | .object _ => .object

/-- The shape of what an operation makes.  Literals are not made. -/
def Operation.shape? : Operation → Option Shape
  | .datum => none
  | .makeArray => some .array
  | .makeObj => some .object
  | .func => some .function
  | _ => some .deferred

def Term.shape? : Term → Option Shape
  | .literal value => some value.shape
  | .apply op _ _ => op.shape?

def Value.shape? : Value → Option Shape
  | .null => some .null
  | .bool _ => some .boolean
  | .number _ => some .number
  | .string _ => some .string
  | .array _ => some .array
  | .object _ => some .object
  | .term t => t.shape?

theorem Operation.shape?_eq_deferred {op : Operation} (hdatum : op ≠ .datum)
    (harray : op ≠ .makeArray) (hobject : op ≠ .makeObj) (hfunction : op ≠ .func) :
    op.shape? = some .deferred := by
  unfold Operation.shape?
  split
  · exact absurd rfl hdatum
  · exact absurd rfl harray
  · exact absurd rfl hobject
  · exact absurd rfl hfunction
  · rfl

theorem Operation.exists_shape? {op : Operation} (hdatum : op ≠ .datum) :
    ∃ shape, op.shape? = some shape := by
  unfold Operation.shape?
  split
  · exact absurd rfl hdatum
  all_goals exact ⟨_, rfl⟩

/-! ## The answers to the eight questions -/

namespace Value

/-- The answer of a value to the question about a shape. -/
def hasShape (v : Value) : Shape → Bool
  | .null => v.isNull
  | .boolean => v.isBoolean
  | .number => v.isNumber
  | .string => v.isString
  | .array => v.isArray
  | .object => v.isObject
  | .function => v.isFunction
  | .deferred => v.isDeferred

theorem hasShape_literal (value : Datum) (shape : Shape) :
    (term (.literal value)).hasShape shape = (some value.shape == some shape) := by
  cases value <;> cases shape <;> rfl

theorem hasShape_apply (op : Operation) (args : List Term) (options : List (String × Term))
    (shape : Shape) :
    (term (.apply op args options)).hasShape shape = (op.shape? == some shape) := by
  by_cases hdatum : op = .datum
  · subst hdatum
    cases shape <;> rfl
  by_cases harray : op = .makeArray
  · subst harray
    cases shape <;> rfl
  by_cases hobject : op = .makeObj
  · subst hobject
    cases shape <;> rfl
  by_cases hfunction : op = .func
  · subst hfunction
    cases shape <;> rfl
  -- Every other operation makes something known only later, whichever it is.
  rw [Operation.shape?_eq_deferred hdatum harray hobject hfunction]
  cases shape with
  | null | boolean | number | string => rfl
  | array => exact beq_eq_false_iff_ne.mpr harray
  | object => exact beq_eq_false_iff_ne.mpr hobject
  | function => exact beq_eq_false_iff_ne.mpr hfunction
  | deferred =>
      simp [hasShape, isDeferred, term?, Term.operation, hdatum, harray, hobject, hfunction]

theorem hasShape_eq (v : Value) (shape : Shape) :
    v.hasShape shape = (v.shape? == some shape) := by
  cases v with
  | null | bool _ | number _ | string _ | array _ | object _ => cases shape <;> rfl
  | term t => cases t with
    | literal value => exact hasShape_literal value shape
    | apply op args options => exact hasShape_apply op args options shape

/-- A value answers the question about its own shape with yes, and no other. -/
theorem hasShape_iff {v : Value} {shape : Shape} :
    v.hasShape shape = true ↔ v.shape? = some shape := by
  rw [hasShape_eq, beq_iff_eq]

theorem eq_of_hasShape {v : Value} {shape other : Shape} (h : v.hasShape shape = true)
    (h' : v.hasShape other = true) : shape = other :=
  Option.some.inj ((hasShape_iff.mp h).symm.trans (hasShape_iff.mp h'))

/-- Only the root has to be valid. -/
theorem exists_shape? {v : Value} (hv : ∀ t, v = .term t → t.Unmixed) :
    ∃ shape, v.shape? = some shape := by
  cases v with
  | null | bool _ | number _ | string _ | array _ | object _ => exact ⟨_, rfl⟩
  | term t => cases t with
    | literal value => exact ⟨_, rfl⟩
    | apply op args options =>
        rcases hv _ rfl with ⟨-, hliteral, -⟩ | ⟨hop, -⟩
        · exact absurd hliteral Bool.false_ne_true
        · exact Operation.exists_shape? hop

/-! ## Questions about several shapes -/

theorem isSequence_of_isSelect {v : Value} (h : v.isSelect = true) : v.isSequence = true := by
  simp [isSequence, h]

theorem isSequence_of_isArray {v : Value} (h : v.isArray = true) : v.isSequence = true := by
  simp [isSequence, h]

/-- Neither plain data nor a function is a selection. -/
theorem isDeferred_of_isSelect {v : Value} (h : v.isSelect = true) : v.isDeferred = true := by
  rw [isSelect_eq] at h
  rw [isDeferred_eq]
  obtain ⟨op, hop, hselection⟩ := (Option.any_eq_true _ _).mp h
  refine (Option.any_eq_true _ _).mpr ⟨op, hop, ?_⟩
  rw [bne_iff_ne]
  rintro rfl
  exact nomatch hselection

theorem shape?_of_isPath {v : Value} (h : v.isPath = true) :
    v.shape? = some .string ∨ v.shape? = some .array ∨ v.shape? = some .object := by
  cases v with
  | string _ => exact .inl rfl
  | array _ => exact .inr (.inl rfl)
  | object _ => exact .inr (.inr rfl)
  | null | bool _ | number _ => exact absurd h Bool.false_ne_true
  | term t =>
      rw [isPath] at h
      unfold Term.isPath at h
      split at h
      · next value => cases value with
        | string _ => exact .inl rfl
        | array _ => exact .inr (.inl rfl)
        | object _ => exact .inr (.inr rfl)
        | null | bool _ | number _ => exact absurd h Bool.false_ne_true
      · exact .inr (.inl rfl)
      · exact .inr (.inr rfl)
      · exact absurd h Bool.false_ne_true

theorem hasShape_eq_false_of_isPath {v : Value} (h : v.isPath = true) {shape : Shape}
    (hshape : shape ∉ [.string, .array, .object]) : v.hasShape shape = false := by
  refine Bool.eq_false_iff.mpr ?_
  intro hhas
  rw [hasShape_iff] at hhas
  have hpath := shape?_of_isPath h
  rw [hhas] at hpath
  exact hshape (by simpa using hpath)

theorem isNumber_of_isInteger {v : Value} (h : v.isInteger = true) : v.isNumber = true := by
  rw [isInteger_eq] at h
  rw [isNumber_eq]
  exact Option.isSome_of_any h

theorem isString_or_isNumber_of_isPrimaryKey {v : Value} (h : v.isPrimaryKey = true) :
    v.isString = true ∨ v.isNumber = true := by
  rw [isPrimaryKey, Bool.or_eq_true] at h
  exact h.imp_right isNumber_of_isInteger

end Value

open Reql.Term

/-- A value whose terms are valid has exactly one shape.  A selection is a sequence and known only
when it runs, and an array is a sequence too.  A path is no number, boolean or null, nor is it
known only later.  A primary key is a string or a number. -/
theorem Value.existsUnique_shape {v : Value} (hv : v.AllTerms (Everywhere Unmixed)) :
    (∃! shape : Shape, v.hasShape shape = true) ∧
      (v.isSelect = true → v.isSequence = true ∧ v.isDeferred = true) ∧
      (v.isArray = true → v.isSequence = true) ∧
      (v.isPath = true → v.isNumber = false ∧ v.isBoolean = false ∧ v.isNull = false ∧
        v.isDeferred = false) ∧
      (v.isPrimaryKey = true → v.isString = true ∨ v.isNumber = true) := by
  refine ⟨?_, ?_, isSequence_of_isArray, ?_, isString_or_isNumber_of_isPrimaryKey⟩
  · have hroot : ∀ t, v = .term t → t.Unmixed := by
      rintro t rfl
      cases allTerms_term.mp hv with
      | node hunmixed _ _ => exact hunmixed
    obtain ⟨shape, hshape⟩ := exists_shape? hroot
    have hhas := hasShape_iff.mpr hshape
    exact ⟨shape, hhas, fun other hother => eq_of_hasShape hother hhas⟩
  · intro hselect
    exact ⟨isSequence_of_isSelect hselect, isDeferred_of_isSelect hselect⟩
  · intro hpath
    have hnot : ∀ shape ∉ ([.string, .array, .object] : List Shape), v.hasShape shape = false :=
      fun _ => hasShape_eq_false_of_isPath hpath
    exact ⟨hnot .number (by decide), hnot .boolean (by decide), hnot .null (by decide),
      hnot .deferred (by decide)⟩

/-- A selection that is given a literal object, and that object as a path. -/
theorem Value.existsUnique_shape_get :
    let fields : Term := .literal (.object [("name", .bool true)])
    let get : Term := .apply .get [.apply .table [.literal (.string "users")] [], fields] []
    ((∃! shape : Shape, (term get).hasShape shape = true) ∧
      (term get).isSequence = true ∧ (term get).isDeferred = true) ∧
    (∃! shape : Shape, (term fields).hasShape shape = true) ∧
      (term fields).isPath = true ∧ (term fields).isDeferred = false := by
  intro fields get
  have hfields : fields.Everywhere Unmixed := valid_iff_everywhere.mp (valid_literal _)
  have hget : get.Everywhere Unmixed := by
    refine valid_iff_everywhere.mp ?_
    simp [get, fields, valid_apply_iff]
  obtain ⟨hone, hselect, -⟩ := existsUnique_shape (allTerms_term.mpr hget)
  obtain ⟨hone', -, -, hpath, -⟩ := existsUnique_shape (allTerms_term.mpr hfields)
  have hispath : (term fields).isPath = true := by decide +kernel
  exact ⟨⟨hone, hselect rfl⟩, hone', hispath, (hpath hispath).2.2.2⟩

end Reql
