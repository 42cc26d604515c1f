/-
# `Reql.Proofs.Translation` — normalizing is translating, up to the first fault

Which term a value has does not depend on the limit: it is the value's `translation`, which is
always there.  The limit and the test for finite numbers only decide whether it is returned.

To say which error is returned otherwise, a value is laid out as the list of its parts in
reading order, each with the number of containers around it, a container before what is in it.
Each part is at fault or not, on its own (`Part.fault?`), and the first fault is the error
(`normalize_translation`).  A container that is too deep is at fault itself, so whatever is in it
comes too late to matter.
-/
import Reql.Proofs.Fields
import Reql.Proofs.Normalize

namespace Reql

namespace Value

/-! ## The translation -/

mutual

/-- The term of a value, whatever its depth and its numbers. -/
def translation : Value → Term
  | .null => .literal .null
  | .bool value => .literal (.bool value)
  | .number value => .literal (.number value)
  | .string value => .literal (.string value)
  | .array items => .apply .makeArray (itemTranslations items) []
  | .object fields => .apply .makeObj [] (fieldTranslations fields)
  | .term t => t

def itemTranslations : List Value → List Term
  | [] => []
  | item :: rest => item.translation :: itemTranslations rest

def fieldTranslations : List (String × Value) → List (String × Term)
  | [] => []
  | (key, value) :: rest => (key, value.translation) :: fieldTranslations rest

end

theorem fieldTranslations_eq_map : ∀ fields : List (String × Value),
    fieldTranslations fields = fields.map fun field => (field.1, field.2.translation)
  | [] => rfl
  | (key, value) :: rest => by
      rw [fieldTranslations, fieldTranslations_eq_map rest, List.map_cons]

/-- An object has its keys in order, so the node is the one that would be built of its entries as
options, and none of them would be refused for coming twice. -/
theorem build_object {fields : Fields Value} (h : fields.Sorted) :
    Term.Builder.build ⟨.makeObj, [], fieldTranslations fields⟩ =
      .ok (object fields).translation := by
  have hsorted : Fields.Sorted (fieldTranslations fields) := by
    rw [fieldTranslations_eq_map]
    exact List.pairwise_map.mpr h
  refine Term.Builder.build_eq_ok_iff.mpr ⟨nofun, Fields.nodup_names hsorted, ?_⟩
  rw [Fields.ofList_eq_self hsorted, translation]

/-! ## Parts -/

/-- A value in a value, with the number of containers that it is in. -/
structure Part where
  level : Nat
  value : Value

mutual

/-- The parts of a value that is in `level` containers: the value itself, then what is in it.
Terms are not looked into. -/
def partsAt (level : Nat) : Value → List Part
  | .null => [⟨level, .null⟩]
  | .bool value => [⟨level, .bool value⟩]
  | .number value => [⟨level, .number value⟩]
  | .string value => [⟨level, .string value⟩]
  | .array items => ⟨level, .array items⟩ :: itemPartsAt (level + 1) items
  | .object fields => ⟨level, .object fields⟩ :: fieldPartsAt (level + 1) fields
  | .term t => [⟨level, .term t⟩]

def itemPartsAt (level : Nat) : List Value → List Part
  | [] => []
  | item :: rest => item.partsAt level ++ itemPartsAt level rest

def fieldPartsAt (level : Nat) : List (String × Value) → List Part
  | [] => []
  | (_, value) :: rest => value.partsAt level ++ fieldPartsAt level rest

end

/-- The parts of a value in reading order. -/
def parts (v : Value) : List Part := v.partsAt 0

/-- All raw numbers in a value are finite. -/
def NumbersFinite (v : Value) : Prop :=
  ∀ part ∈ v.parts, ∀ x, part.value = .number x → x.isFinite = true

mutual

/-- How deep raw arrays and objects nest. -/
def nesting : Value → Nat
  | .null => 0
  | .bool _ => 0
  | .number _ => 0
  | .string _ => 0
  | .array items => 1 + itemNesting items
  | .object fields => 1 + fieldNesting fields
  | .term _ => 0

/-- The greatest nesting of an item. -/
def itemNesting : List Value → Nat
  | [] => 0
  | item :: rest => max item.nesting (itemNesting rest)

def fieldNesting : List (String × Value) → Nat
  | [] => 0
  | (_, value) :: rest => max value.nesting (fieldNesting rest)

end

/-! ## Faults -/

/-- A raw array or a raw object. -/
def isContainer : Value → Bool
  | .array _ | .object _ => true
  | _ => false

/-- What is wrong with a part where `limit` containers may be inside each other. -/
def Part.fault? (limit : Nat) (part : Part) : Option ArgumentError :=
  match part.value with
  | .array _ | .object _ => if part.level < limit then none else some .nestingLimit
  | .number x => if x.isFinite then none else some (.notJsonNumber x)
  | _ => none

/-- What is wrong with the first part that is at fault. -/
def firstFault? (limit : Nat) (parts : List Part) : Option ArgumentError :=
  parts.findSome? (Part.fault? limit)

section

variable (limit level : Nat)

theorem fault?_container {v : Value} (h : v.isContainer = true) :
    Part.fault? limit ⟨level, v⟩ = if level < limit then none else some .nestingLimit := by
  cases v with
  | array _ | object _ => rfl
  | null | bool _ | number _ | string _ | term _ => exact absurd h Bool.false_ne_true

theorem fault?_number (x : Double) : Part.fault? limit ⟨level, .number x⟩ =
    if x.isFinite then none else some (.notJsonNumber x) := rfl

theorem firstFault?_cons (part : Part) (rest : List Part) :
    firstFault? limit (part :: rest) = (part.fault? limit).or (firstFault? limit rest) := by
  rw [firstFault?, List.findSome?_cons]
  cases part.fault? limit <;> rfl

theorem firstFault?_append (before after : List Part) :
    firstFault? limit (before ++ after) = (firstFault? limit before).or (firstFault? limit after) :=
  List.findSome?_append

end

end Value

open Value

/-! ## Normalizing is translating -/

section

variable {α β γ ε : Type}

/-- The result, unless there is a fault. -/
def unlessFault (fault? : Option ε) (a : α) : Except ε α :=
  match fault? with
  | some e => .error e
  | none => .ok a

theorem unlessFault_map (fault? : Option ε) (a : α) (f : α → β) :
    (unlessFault fault? a >>= fun a => .ok (f a)) = unlessFault fault? (f a) := by
  cases fault? <;> rfl

/-- One result after the other: the first fault is the fault of both. -/
theorem unlessFault_bind (fault? fault'? : Option ε) (a : α) (b : β) (f : α → β → γ) :
    (unlessFault fault? a >>= fun a => unlessFault fault'? b >>= fun b => .ok (f a b)) =
      unlessFault (fault?.or fault'?) (f a b) := by
  cases fault? with
  | some e => rfl
  | none => exact unlessFault_map fault'? b (f a)

theorem unlessFault_eq_ok_iff {fault? : Option ε} {a b : α} :
    unlessFault fault? a = .ok b ↔ fault? = none ∧ b = a := by
  cases fault? <;> simp [unlessFault, eq_comm]

theorem unlessFault_eq_error_iff {fault? : Option ε} {a : α} {e : ε} :
    unlessFault fault? a = .error e ↔ fault? = some e := by
  cases fault? <;> simp [unlessFault]

end

namespace Normalizer

/-! The induction is on the value and its parts, with any number of levels left.  Around a value
that is in `level` containers the limit is `level + left`. -/

mutual

theorem normalizeAt_eq : ∀ (left level : Nat) (v : Value),
    normalizeAt left v =
      unlessFault (firstFault? (level + left) (v.partsAt level)) v.translation
  | _, _, .null | _, _, .bool _ | _, _, .string _ | _, _, .term _ => rfl
  | left, level, .number x => by
      rw [normalizeAt, partsAt, firstFault?_cons, fault?_number]
      split <;> rfl
  | 0, level, .array _ | 0, level, .object _ => by
      rw [partsAt, firstFault?_cons, fault?_container _ _ (by rfl), if_neg (by omega)]
      rfl
  | inner + 1, level, .array items => by
      have hlimit : level + (inner + 1) = level + 1 + inner := by omega
      rw [partsAt, firstFault?_cons, fault?_container _ _ (by rfl), if_pos (by omega),
        Option.none_or, hlimit, normalizeAt, normalizeItems_eq inner (level + 1) items]
      exact unlessFault_map _ _ fun args => Term.apply .makeArray args []
  | inner + 1, level, .object fields => by
      have hlimit : level + (inner + 1) = level + 1 + inner := by omega
      rw [partsAt, firstFault?_cons, fault?_container _ _ (by rfl), if_pos (by omega),
        Option.none_or, hlimit, normalizeAt, normalizeFields_eq inner (level + 1) fields]
      exact unlessFault_map _ _ fun options => Term.apply .makeObj [] options

theorem normalizeItems_eq : ∀ (left level : Nat) (items : List Value),
    normalizeItems left items =
      unlessFault (firstFault? (level + left) (itemPartsAt level items)) (itemTranslations items)
  | _, _, [] => rfl
  | left, level, item :: rest => by
      rw [normalizeItems, normalizeAt_eq left level item, normalizeItems_eq left level rest,
        itemPartsAt, firstFault?_append]
      exact unlessFault_bind _ _ _ _ List.cons

theorem normalizeFields_eq : ∀ (left level : Nat) (fields : List (String × Value)),
    normalizeFields left fields =
      unlessFault (firstFault? (level + left) (fieldPartsAt level fields))
        (fieldTranslations fields)
  | _, _, [] => rfl
  | left, level, (key, value) :: rest => by
      rw [normalizeFields, normalizeAt_eq left level value, normalizeFields_eq left level rest,
        fieldPartsAt, firstFault?_append]
      exact unlessFault_bind _ _ _ _ fun t us => (key, t) :: us

end

end Normalizer

/-! ## When there is no fault -/

namespace Value

theorem Part.fault?_eq_none_iff {limit : Nat} {part : Part} : part.fault? limit = none ↔
    (part.value.isContainer = true → part.level < limit) ∧
      ∀ x, part.value = .number x → x.isFinite = true := by
  obtain ⟨level, v⟩ := part
  cases v with
  | null | bool _ | number _ | string _ | array _ | object _ | term _ =>
      simp [Part.fault?, isContainer]

mutual

/-- No container is in too many others exactly if the value does not nest too deep. -/
theorem levels_lt_iff : ∀ (left level : Nat) (v : Value),
    (∀ part ∈ v.partsAt level, part.value.isContainer = true → part.level < level + left) ↔
      v.nesting ≤ left
  | _, _, .null | _, _, .bool _ | _, _, .number _ | _, _, .string _ | _, _, .term _ => by
      simp [partsAt, nesting, isContainer]
  | 0, level, .array items | 0, level, .object fields => by
      simp [partsAt, nesting, isContainer]
  | inner + 1, level, .array items => by
      have hlimit : level + (inner + 1) = level + 1 + inner := by omega
      rw [partsAt, nesting, List.forall_mem_cons, hlimit, itemLevels_lt_iff inner (level + 1) items]
      simp only [isContainer]
      omega
  | inner + 1, level, .object fields => by
      have hlimit : level + (inner + 1) = level + 1 + inner := by omega
      rw [partsAt, nesting, List.forall_mem_cons, hlimit,
        fieldLevels_lt_iff inner (level + 1) fields]
      simp only [isContainer]
      omega

theorem itemLevels_lt_iff : ∀ (left level : Nat) (items : List Value),
    (∀ part ∈ itemPartsAt level items, part.value.isContainer = true → part.level < level + left) ↔
      itemNesting items ≤ left
  | _, _, [] => by simp [itemPartsAt, itemNesting]
  | left, level, item :: rest => by
      rw [itemPartsAt, itemNesting, List.forall_mem_append, levels_lt_iff left level item,
        itemLevels_lt_iff left level rest, Nat.max_le]

theorem fieldLevels_lt_iff : ∀ (left level : Nat) (fields : List (String × Value)),
    (∀ part ∈ fieldPartsAt level fields,
        part.value.isContainer = true → part.level < level + left) ↔ fieldNesting fields ≤ left
  | _, _, [] => by simp [fieldPartsAt, fieldNesting]
  | left, level, (_, value) :: rest => by
      rw [fieldPartsAt, fieldNesting, List.forall_mem_append, levels_lt_iff left level value,
        fieldLevels_lt_iff left level rest, Nat.max_le]

end

theorem firstFault?_parts_eq_none_iff {limit : Nat} {v : Value} :
    firstFault? limit v.parts = none ↔ v.nesting ≤ limit ∧ v.NumbersFinite := by
  rw [firstFault?, List.findSome?_eq_none_iff, ← levels_lt_iff limit 0 v, Nat.zero_add]
  simp only [Part.fault?_eq_none_iff, forall_and, parts, NumbersFinite]

end Value

namespace Normalizer

theorem normalize_eq (n : Normalizer) (v : Value) :
    n.normalize v = unlessFault (firstFault? n.depth v.parts) v.translation := by
  rw [normalize, normalizeAt_eq n.depth 0 v, Nat.zero_add, parts]

theorem normalize_eq_ok_iff {n : Normalizer} {v : Value} {t : Term} : n.normalize v = .ok t ↔
    (v.nesting ≤ n.depth ∧ v.NumbersFinite) ∧ t = v.translation := by
  rw [normalize_eq, unlessFault_eq_ok_iff, firstFault?_parts_eq_none_iff]

/-- The limit has no influence on the result. -/
theorem eq_translation {n : Normalizer} {v : Value} {t : Term} (h : n.normalize v = .ok t) :
    t = v.translation :=
  (normalize_eq_ok_iff.mp h).2

end Normalizer

/-- A value is normalized if it nests no deeper than the limit and its numbers are finite, and then
to its translation.  If not, what is wrong with the first part at fault is the error. -/
theorem normalize_translation (n : Normalizer) (v : Value) :
    (∀ t, n.normalize v = .ok t ↔
      (v.nesting ≤ n.depth ∧ v.NumbersFinite) ∧ t = v.translation) ∧
    ∀ e, n.normalize v = .error e ↔ ∃ before part after, v.parts = before ++ part :: after ∧
      part.fault? n.depth = some e ∧ ∀ other ∈ before, other.fault? n.depth = none := by
  constructor
  · exact fun t => Normalizer.normalize_eq_ok_iff
  · intro e
    rw [n.normalize_eq v, unlessFault_eq_error_iff, firstFault?, List.findSome?_eq_some_iff]

/-- Two faults: which one comes first depends on the limit. -/
theorem normalize_translation_nan :
    let v : Value := .array [.object [("k", .null)], .array [.array [], .number .nan]]
    (⟨2⟩ : Normalizer).normalize v = .error .nestingLimit ∧
      (⟨3⟩ : Normalizer).normalize v = .error (.notJsonNumber .nan) := by
  intro v
  let null : Part := ⟨2, .null⟩
  let inner : Part := ⟨2, .array []⟩
  let outer : Part := ⟨1, .array [.array [], .number .nan]⟩
  let before : List Part := [⟨0, v⟩, ⟨1, .object [("k", .null)]⟩, null, outer]
  have hlow := ((normalize_translation ⟨2⟩ v).2 .nestingLimit).mpr
    ⟨before, inner, [⟨2, .number .nan⟩], rfl, rfl, by simp [before, null, outer, v, Part.fault?]⟩
  have hhigh := ((normalize_translation ⟨3⟩ v).2 (.notJsonNumber .nan)).mpr
    ⟨before ++ [inner], ⟨2, .number .nan⟩, [], rfl, rfl,
      by simp [before, null, outer, inner, v, Part.fault?]⟩
  exact ⟨hlow, hhigh⟩

end Reql
