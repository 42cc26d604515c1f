/-
# `Reql.Proofs.Json.Exchange` — literals as documents, and documents as literals

A literal is written as a document and read back.  Only numbers that are not finite are lost on the
way: they have no JSON form and come back as null (`Datum.finitePart`).  A document that is read as
a literal and written again has the nearest double for each of its numbers (`Json.rounded`), and
the members of its objects in the order of their names (`Json.inOrder`).  As a value it nests as
deep as before, so the limit on nesting alone decides whether it is normalized (`json_exchange`).

The nulls that stand for lost numbers must be kept apart from the nulls that were there, so both
trips are compared with a rewriting of the whole literal or document and not by the kinds of the
parts.  Documents have an induction over what is directly in them (`Json.children_induction`);
literals are followed constructor by constructor.
-/
import Reql.Proofs.Datum
import Reql.Proofs.Double.Nearest
import Reql.Proofs.Literal

namespace Reql

/-! ## Documents -/

namespace Json

mutual

/-- The document and all documents in it. -/
def parts : Json → List Json
  | .null => [.null]
  | .bool value => [.bool value]
  | .number value => [.number value]
  | .string value => [.string value]
  | .array items => .array items :: itemParts items
  | .object members => .object members :: memberParts members

def itemParts : List Json → List Json
  | [] => []
  | item :: rest => item.parts ++ itemParts rest

def memberParts : List (String × Json) → List Json
  | [] => []
  | (_, value) :: rest => value.parts ++ memberParts rest

end

/-- The documents directly in a document. -/
def children : Json → List Json
  | .array items => items
  | .object members => members.map Prod.snd
  | _ => []

theorem value_mem_children {members : List (String × Json)} {m : String × Json}
    (h : m ∈ members) : m.2 ∈ (object members).children :=
  List.mem_map_of_mem h

/-- Every number in the document has a finite double. -/
def InRange (j : Json) : Prop :=
  ∀ value, .number value ∈ j.parts → value.toDouble.isFinite = true

/-- No object in the document has two members of one name. -/
def NamesDistinct (j : Json) : Prop :=
  ∀ members, .object members ∈ j.parts → (members.map Prod.fst).Nodup

/-- The objects in the document have their members in the order of the names. -/
def Ordered (j : Json) : Prop := ∀ members, .object members ∈ j.parts → Fields.Sorted members

mutual

/-- The document with the nearest double in place of each number. -/
def rounded : Json → Json
  | .null => .null
  | .bool value => .bool value
  | .number value => .number (.double value.toDouble)
  | .string value => .string value
  | .array items => .array (roundedItems items)
  | .object members => .object (roundedMembers members)

def roundedItems : List Json → List Json
  | [] => []
  | item :: rest => item.rounded :: roundedItems rest

def roundedMembers : List (String × Json) → List (String × Json)
  | [] => []
  | (name, value) :: rest => (name, value.rounded) :: roundedMembers rest

end

mutual

/-- The document with the members of its objects put in the order of their names. -/
def inOrder : Json → Json
  | .null => .null
  | .bool value => .bool value
  | .number value => .number value
  | .string value => .string value
  | .array items => .array (itemsInOrder items)
  | .object members => .object (Fields.ofList (membersInOrder members))

def itemsInOrder : List Json → List Json
  | [] => []
  | item :: rest => item.inOrder :: itemsInOrder rest

def membersInOrder : List (String × Json) → List (String × Json)
  | [] => []
  | (name, value) :: rest => (name, value.inOrder) :: membersInOrder rest

end

mutual

/-- How deep arrays and objects nest. -/
def nesting : Json → Nat
  | .null => 0
  | .bool _ => 0
  | .number _ => 0
  | .string _ => 0
  | .array items => 1 + itemNesting items
  | .object members => 1 + memberNesting members

def itemNesting : List Json → Nat
  | [] => 0
  | item :: rest => max item.nesting (itemNesting rest)

def memberNesting : List (String × Json) → Nat
  | [] => 0
  | (_, value) :: rest => max value.nesting (memberNesting rest)

end

/-- What it means for a double to stand for a number of a document. -/
def Number.IsNearest : Number → Double → Prop
  | .int value, x => Double.IsNearest value x
  | .double value, x => x = value ∧ x.isFinite = true

theorem Number.isNearest_toDouble {value : Number} (h : value.toDouble.isFinite = true) :
    value.IsNearest value.toDouble := by
  cases value with
  | int value => exact Double.isNearest_ofInt h
  | double value => exact ⟨rfl, h⟩

/-! ### Lists of documents -/

theorem roundedItems_eq_map (items : List Json) : roundedItems items = items.map rounded := by
  induction items with
  | nil => rfl
  | cons item rest ih => rw [roundedItems, ih, List.map_cons]

theorem roundedMembers_eq_map (members : List (String × Json)) :
    roundedMembers members = members.map fun m => (m.1, m.2.rounded) := by
  induction members with
  | nil => rfl
  | cons m rest ih => rw [roundedMembers, ih, List.map_cons]

theorem itemsInOrder_eq_map (items : List Json) : itemsInOrder items = items.map inOrder := by
  induction items with
  | nil => rfl
  | cons item rest ih => rw [itemsInOrder, ih, List.map_cons]

theorem membersInOrder_eq_map (members : List (String × Json)) :
    membersInOrder members = members.map fun m => (m.1, m.2.inOrder) := by
  induction members with
  | nil => rfl
  | cons m rest ih => rw [membersInOrder, ih, List.map_cons]

theorem itemNesting_le_iff {limit : Nat} {items : List Json} :
    itemNesting items ≤ limit ↔ ∀ item ∈ items, item.nesting ≤ limit := by
  induction items with
  | nil => simp [itemNesting]
  | cons item rest ih => rw [itemNesting, Nat.max_le, ih, List.forall_mem_cons]

theorem memberNesting_le_iff {limit : Nat} {members : List (String × Json)} :
    memberNesting members ≤ limit ↔ ∀ m ∈ members, m.2.nesting ≤ limit := by
  induction members with
  | nil => simp [memberNesting]
  | cons m rest ih => rw [memberNesting, Nat.max_le, ih, List.forall_mem_cons]

/-! ### Parts -/

theorem mem_parts_self (j : Json) : j ∈ j.parts := by
  cases j <;> exact .head _

theorem mem_itemParts {part : Json} {items : List Json} :
    part ∈ itemParts items ↔ ∃ item ∈ items, part ∈ item.parts := by
  induction items with
  | nil => simp [itemParts]
  | cons item rest ih => simp [itemParts, ih]

theorem memberParts_eq (members : List (String × Json)) :
    memberParts members = itemParts (members.map Prod.snd) := by
  induction members with
  | nil => rfl
  | cons m rest ih => rw [memberParts, ih, List.map_cons, itemParts]

/-- The parts of what is in a document are parts of the document. -/
theorem parts_child {j c : Json} (h : c ∈ j.children) : c.parts ⊆ j.parts := by
  intro part hpart
  cases j with
  | array items => exact .tail _ (mem_itemParts.mpr ⟨c, h, hpart⟩)
  | object members =>
      rw [parts, memberParts_eq]
      exact .tail _ (mem_itemParts.mpr ⟨c, h, hpart⟩)
  | null | bool _ | number _ | string _ => exact nomatch h

theorem InRange.child {j c : Json} (h : j.InRange) (hc : c ∈ j.children) : c.InRange :=
  fun value hvalue => h value (parts_child hc hvalue)

theorem NamesDistinct.child {j c : Json} (h : j.NamesDistinct) (hc : c ∈ j.children) :
    c.NamesDistinct :=
  fun members hmembers => h members (parts_child hc hmembers)

theorem Ordered.child {j c : Json} (h : j.Ordered) (hc : c ∈ j.children) : c.Ordered :=
  fun members hmembers => h members (parts_child hc hmembers)

section

variable {motive : Json → Prop}

mutual

/-- What holds of a document whenever it holds of its items and values holds of all documents. -/
theorem children_induction (step : ∀ j, (∀ c ∈ j.children, motive c) → motive j) :
    ∀ j, motive j
  | .null | .bool _ | .number _ | .string _ => step _ (List.forall_mem_nil _)
  | .array items => step _ (items_induction step items)
  | .object members => step _ (members_induction step members)

theorem items_induction (step : ∀ j, (∀ c ∈ j.children, motive c) → motive j) :
    ∀ items : List Json, ∀ item ∈ items, motive item
  | [] => List.forall_mem_nil _
  | item :: rest =>
    List.forall_mem_cons.mpr ⟨children_induction step item, items_induction step rest⟩

theorem members_induction (step : ∀ j, (∀ c ∈ j.children, motive c) → motive j) :
    ∀ members : List (String × Json), ∀ c ∈ members.map Prod.snd, motive c
  | [] => List.forall_mem_nil _
  | (_, value) :: rest =>
    List.forall_mem_cons.mpr ⟨children_induction step value, members_induction step rest⟩

end

end

/-- Members that are in order stay where they are. -/
theorem inOrder_eq_self {j : Json} (h : j.Ordered) : j.inOrder = j := by
  induction j using children_induction with
  | step j ih =>
      cases j with
      | null | bool _ | number _ | string _ => rfl
      | array items =>
          have hitems : ∀ item ∈ items, item.inOrder = item :=
            fun item hitem => ih item hitem (h.child hitem)
          rw [inOrder, itemsInOrder_eq_map, List.map_congr_left hitems, List.map_id']
      | object members =>
          have hmembers : ∀ m ∈ members, (m.1, m.2.inOrder) = m := by
            intro m hm
            have hvalue := Json.value_mem_children hm
            rw [ih m.2 hvalue (h.child hvalue)]
          rw [inOrder, membersInOrder_eq_map, List.map_congr_left hmembers, List.map_id',
            Fields.ofList_eq_self (h members (mem_parts_self _))]

end Json

/-! ## Literals -/

namespace Datum

mutual

/-- The objects in the literal have their keys in order. -/
def Ordered : Datum → Prop
  | .null | .bool _ | .number _ | .string _ => True
  | .array items => OrderedItems items
  | .object fields => Fields.Sorted fields ∧ OrderedFields fields

def OrderedItems : List Datum → Prop
  | [] => True
  | item :: rest => item.Ordered ∧ OrderedItems rest

def OrderedFields : List (String × Datum) → Prop
  | [] => True
  | (_, value) :: rest => value.Ordered ∧ OrderedFields rest

end

mutual

/-- The literal with null in place of each number that is not finite. -/
def finitePart : Datum → Datum
  | .null => .null
  | .bool value => .bool value
  | .number value => if value.isFinite then .number value else .null
  | .string value => .string value
  | .array items => .array (itemFiniteParts items)
  | .object fields => .object (fieldFiniteParts fields)

def itemFiniteParts : List Datum → List Datum
  | [] => []
  | item :: rest => item.finitePart :: itemFiniteParts rest

def fieldFiniteParts : List (String × Datum) → List (String × Datum)
  | [] => []
  | (key, value) :: rest => (key, value.finitePart) :: fieldFiniteParts rest

end

/-! ### Lists of literals -/

theorem orderedItems_iff {items : List Datum} :
    OrderedItems items ↔ ∀ item ∈ items, item.Ordered := by
  induction items with
  | nil => simp [OrderedItems]
  | cons item items ih => rw [OrderedItems, ih, List.forall_mem_cons]

theorem orderedFields_iff {fields : List (String × Datum)} :
    OrderedFields fields ↔ ∀ f ∈ fields, f.2.Ordered := by
  induction fields with
  | nil => simp [OrderedFields]
  | cons f fields ih => rw [OrderedFields, ih, List.forall_mem_cons]

theorem ofJsonItems_eq_map (items : List Json) : ofJsonItems items = items.map ofJson := by
  induction items with
  | nil => rfl
  | cons item rest ih => rw [ofJsonItems, ih, List.map_cons]

theorem ofJsonMembers_eq_map (members : List (String × Json)) :
    ofJsonMembers members = members.map fun m => (m.1, ofJson m.2) := by
  induction members with
  | nil => rfl
  | cons m rest ih => rw [ofJsonMembers, ih, List.map_cons]

theorem toJsonItems_eq_map (items : List Datum) : toJsonItems items = items.map toJson := by
  induction items with
  | nil => rfl
  | cons item rest ih => rw [toJsonItems, ih, List.map_cons]

theorem toJsonFields_eq_map (fields : List (String × Datum)) :
    toJsonFields fields = fields.map fun f => (f.1, f.2.toJson) := by
  induction fields with
  | nil => rfl
  | cons f rest ih => rw [toJsonFields, ih, List.map_cons]

theorem fieldFiniteParts_eq_map (fields : List (String × Datum)) :
    fieldFiniteParts fields = fields.map fun f => (f.1, f.2.finitePart) := by
  induction fields with
  | nil => rfl
  | cons f rest ih => rw [fieldFiniteParts, ih, List.map_cons]

theorem ofList_fieldFiniteParts {fields : Fields Datum} (h : fields.Sorted) :
    Fields.ofList (fieldFiniteParts fields) = fieldFiniteParts fields := by
  rw [fieldFiniteParts_eq_map, ofList_map, Fields.ofList_eq_self h]

/-! ### A literal as a document -/

mutual

/-- Only the numbers that are not finite are lost. -/
theorem ofJson_toJson : ∀ {d : Datum}, d.Ordered → ofJson d.toJson = d.finitePart
  | .null, _ | .bool _, _ | .string _, _ => rfl
  | .number value, _ => by
      rw [toJson, Json.double, finitePart]
      split <;> rfl
  | .array items, h => by
      rw [Ordered] at h
      rw [toJson, ofJson, ofJsonItems_toJsonItems h, finitePart]
  | .object fields, h => by
      rw [Ordered] at h
      rw [toJson, ofJson, ofJsonMembers_toJsonFields h.2, ofList_fieldFiniteParts h.1, finitePart]

theorem ofJsonItems_toJsonItems : ∀ {items : List Datum}, OrderedItems items →
    ofJsonItems (toJsonItems items) = itemFiniteParts items
  | [], _ => rfl
  | item :: rest, h => by
      rw [OrderedItems] at h
      rw [toJsonItems, ofJsonItems, ofJson_toJson h.1, ofJsonItems_toJsonItems h.2, itemFiniteParts]

theorem ofJsonMembers_toJsonFields : ∀ {fields : List (String × Datum)}, OrderedFields fields →
    ofJsonMembers (toJsonFields fields) = fieldFiniteParts fields
  | [], _ => rfl
  | (key, value) :: rest, h => by
      rw [OrderedFields] at h
      rw [toJsonFields, ofJsonMembers, ofJson_toJson h.1, ofJsonMembers_toJsonFields h.2,
        fieldFiniteParts]

end

mutual

theorem finitePart_eq_self_iff : ∀ {d : Datum}, d.finitePart = d ↔ d.Finite
  | .null | .bool _ | .string _ => by simp [finitePart, Finite]
  | .number value => by
      rw [finitePart, Finite]
      split
      · next h => simp [h]
      · next h => simp [h]
  | .array items => by rw [finitePart, array.injEq, itemFiniteParts_eq_self_iff, Finite]
  | .object fields => by rw [finitePart, object.injEq, fieldFiniteParts_eq_self_iff, Finite]

theorem itemFiniteParts_eq_self_iff : ∀ {items : List Datum},
    itemFiniteParts items = items ↔ FiniteItems items
  | [] => by simp [itemFiniteParts, FiniteItems]
  | item :: rest => by
      rw [itemFiniteParts, List.cons.injEq, finitePart_eq_self_iff, itemFiniteParts_eq_self_iff,
        FiniteItems]

theorem fieldFiniteParts_eq_self_iff : ∀ {fields : List (String × Datum)},
    fieldFiniteParts fields = fields ↔ FiniteFields fields
  | [] => by simp [fieldFiniteParts, FiniteFields]
  | (key, value) :: rest => by
      rw [fieldFiniteParts, List.cons.injEq, Prod.mk.injEq, finitePart_eq_self_iff,
        fieldFiniteParts_eq_self_iff, FiniteFields, and_iff_right rfl]

end

mutual

/-- The comparison of literals notices each number that is lost. -/
theorem equals_finitePart_iff : ∀ {d : Datum}, d.finitePart.equals d = true ↔ d.Finite
  | .null | .bool _ | .string _ => by simp [finitePart, equals, Finite]
  | .number value => by
      rw [finitePart, Finite]
      cases value with
      | finite negative i => simp [Double.isFinite, equals, Double.equals]
      | infinity negative => simp [Double.isFinite, equals]
      | nan => simp [Double.isFinite, equals]
  | .array items => by rw [finitePart, equals, equalsItems_itemFiniteParts_iff, Finite]
  | .object fields => by rw [finitePart, equals, equalsFields_fieldFiniteParts_iff, Finite]

theorem equalsItems_itemFiniteParts_iff : ∀ {items : List Datum},
    equalsItems (itemFiniteParts items) items = true ↔ FiniteItems items
  | [] => by simp [itemFiniteParts, equalsItems, FiniteItems]
  | item :: rest => by
      rw [itemFiniteParts, equalsItems, Bool.and_eq_true, equals_finitePart_iff,
        equalsItems_itemFiniteParts_iff, FiniteItems]

theorem equalsFields_fieldFiniteParts_iff : ∀ {fields : List (String × Datum)},
    equalsFields (fieldFiniteParts fields) fields = true ↔ FiniteFields fields
  | [] => by simp [fieldFiniteParts, equalsFields, FiniteFields]
  | (key, value) :: rest => by
      rw [fieldFiniteParts, equalsFields, Bool.and_eq_true, Bool.and_eq_true, beq_self_eq_true,
        equals_finitePart_iff, equalsFields_fieldFiniteParts_iff, FiniteFields, and_iff_right rfl]

end

/-! ### A document as a literal -/

theorem toJson_ofJson {j : Json} (h : j.InRange) : (ofJson j).toJson = j.inOrder.rounded := by
  induction j using Json.children_induction with
  | step j ih =>
      cases j with
      | null | bool _ | string _ => rfl
      | number value =>
          have hfinite := h value (Json.mem_parts_self _)
          rw [ofJson, toJson, Json.double, if_pos hfinite, Json.inOrder, Json.rounded]
      | array items =>
          have hitems : ∀ item ∈ items, (ofJson item).toJson = item.inOrder.rounded :=
            fun item hitem => ih item hitem (h.child hitem)
          rw [ofJson, toJson, ofJsonItems_eq_map, toJsonItems_eq_map, List.map_map, Json.inOrder,
            Json.rounded, Json.itemsInOrder_eq_map, Json.roundedItems_eq_map, List.map_map]
          exact congrArg Json.array (List.map_congr_left hitems)
      | object members =>
          have hmembers : ∀ m ∈ members,
              (m.1, (ofJson m.2).toJson) = (m.1, m.2.inOrder.rounded) := by
            intro m hm
            have hvalue := Json.value_mem_children hm
            rw [ih m.2 hvalue (h.child hvalue)]
          rw [ofJson, toJson, ofJsonMembers_eq_map, toJsonFields_eq_map, ← ofList_map,
            List.map_map, Json.inOrder, Json.rounded, Json.membersInOrder_eq_map,
            Json.roundedMembers_eq_map, ← ofList_map, List.map_map]
          exact congrArg (fun ms => Json.object (Fields.ofList ms)) (List.map_congr_left hmembers)

theorem finite_ofJson {j : Json} (h : j.InRange) : (ofJson j).Finite := by
  induction j using Json.children_induction with
  | step j ih =>
      cases j with
      | null | bool _ | string _ => trivial
      | number value => exact h value (Json.mem_parts_self _)
      | array items =>
          rw [ofJson, Finite, finiteItems_iff, ofJsonItems_eq_map]
          refine List.forall_mem_map.mpr ?_
          exact fun item hitem => ih item hitem (h.child hitem)
      | object members =>
          rw [ofJson, Finite, finiteFields_iff, ofJsonMembers_eq_map]
          intro f hf
          obtain ⟨m, hm, rfl⟩ := List.mem_map.mp (Fields.mem_of_mem_ofList hf)
          have hvalue := Json.value_mem_children hm
          exact ih m.2 hvalue (h.child hvalue)

/-- A document is read with the keys in order, however its members stand. -/
theorem ordered_ofJson (j : Json) : (ofJson j).Ordered := by
  induction j using Json.children_induction with
  | step j ih =>
      cases j with
      | null | bool _ | number _ | string _ => trivial
      | array items =>
          rw [ofJson, Ordered, orderedItems_iff, ofJsonItems_eq_map]
          exact List.forall_mem_map.mpr ih
      | object members =>
          rw [ofJson, Ordered, orderedFields_iff, ofJsonMembers_eq_map]
          refine ⟨Fields.sorted_ofList _, fun f hf => ?_⟩
          obtain ⟨m, hm, rfl⟩ := List.mem_map.mp (Fields.mem_of_mem_ofList hf)
          exact ih m.2 (Json.value_mem_children hm)

end Datum

/-! ## Documents as values -/

namespace Value

theorem ofItems_eq_map (items : List Datum) : ofItems items = items.map ofDatum := by
  induction items with
  | nil => rfl
  | cons item rest ih => rw [ofItems, ih, List.map_cons]

theorem ofFields_eq_map (fields : List (String × Datum)) :
    ofFields fields = fields.map fun f => (f.1, ofDatum f.2) := by
  induction fields with
  | nil => rfl
  | cons f rest ih => rw [ofFields, ih, List.map_cons]

theorem itemNesting_le_iff {limit : Nat} {items : List Value} :
    itemNesting items ≤ limit ↔ ∀ item ∈ items, item.nesting ≤ limit := by
  induction items with
  | nil => simp [itemNesting]
  | cons item rest ih => rw [itemNesting, Nat.max_le, ih, List.forall_mem_cons]

theorem fieldNesting_le_iff {limit : Nat} {fields : List (String × Value)} :
    fieldNesting fields ≤ limit ↔ ∀ f ∈ fields, f.2.nesting ≤ limit := by
  induction fields with
  | nil => simp [fieldNesting]
  | cons f rest ih => rw [fieldNesting, Nat.max_le, ih, List.forall_mem_cons]

/-- No depth is lost when the members are put in order, as long as none of them gives way. -/
theorem nesting_ofJson {j : Json} (h : j.NamesDistinct) : (ofJson j).nesting = j.nesting := by
  induction j using Json.children_induction with
  | step j ih =>
      cases j with
      | null | bool _ | number _ | string _ => rfl
      | array items =>
          have hitems : ∀ item ∈ items, (ofJson item).nesting = item.nesting :=
            fun item hitem => ih item hitem (h.child hitem)
          rw [ofJson, Datum.ofJson, ofDatum, nesting, Json.nesting]
          refine congrArg (1 + ·) (eq_of_forall_ge_iff fun limit => ?_)
          rw [itemNesting_le_iff, Json.itemNesting_le_iff, ofItems_eq_map,
            Datum.ofJsonItems_eq_map, List.forall_mem_map, List.forall_mem_map]
          exact forall₂_congr fun item hitem => by rw [← hitems item hitem, ofJson]
      | object members =>
          have hmembers : ∀ m ∈ members, (ofDatum (Datum.ofJson m.2)).nesting = m.2.nesting := by
            intro m hm
            have hvalue := Json.value_mem_children hm
            exact ih m.2 hvalue (h.child hvalue)
          have hperm := Fields.perm_ofList (h members (Json.mem_parts_self _))
          rw [ofJson, Datum.ofJson, ofDatum, nesting, Json.nesting, ofFields_eq_map,
            Datum.ofJsonMembers_eq_map, ofList_map, List.map_map]
          refine congrArg (1 + ·) (eq_of_forall_ge_iff fun limit => ?_)
          rw [fieldNesting_le_iff, Json.memberNesting_le_iff, List.forall_mem_map]
          refine forall_congr' fun m => imp_congr_ctx hperm.mem_iff fun hm => ?_
          rw [← hmembers m hm]
          rfl

mutual

theorem isDatum_ofDatum_iff : ∀ {d : Datum}, (ofDatum d).isDatum = true ↔ d.Finite
  | .null | .bool _ | .string _ => by simp [ofDatum, isDatum, Datum.Finite]
  | .number value => by rw [ofDatum, isDatum, Datum.Finite]
  | .array items => by rw [ofDatum, isDatum, allDatum_ofItems_iff, Datum.Finite]
  | .object fields => by rw [ofDatum, isDatum, allDatumFields_ofFields_iff, Datum.Finite]

theorem allDatum_ofItems_iff : ∀ {items : List Datum},
    allDatum (ofItems items) = true ↔ Datum.FiniteItems items
  | [] => by simp [ofItems, allDatum, Datum.FiniteItems]
  | item :: rest => by
      rw [ofItems, allDatum, Bool.and_eq_true, isDatum_ofDatum_iff, allDatum_ofItems_iff,
        Datum.FiniteItems]

theorem allDatumFields_ofFields_iff : ∀ {fields : List (String × Datum)},
    allDatumFields (ofFields fields) = true ↔ Datum.FiniteFields fields
  | [] => by simp [ofFields, allDatumFields, Datum.FiniteFields]
  | (key, value) :: rest => by
      rw [ofFields, allDatumFields, Bool.and_eq_true, isDatum_ofDatum_iff,
        allDatumFields_ofFields_iff, Datum.FiniteFields]

end

theorem numbersFinite_ofJson {j : Json} (h : j.InRange) : (ofJson j).NumbersFinite :=
  (isDatum_iff.mp (isDatum_ofDatum_iff.mpr (Datum.finite_ofJson h))).1

end Value

/-! ## Both ways -/

/-- A literal comes back from its document with null for each number that is not finite.  A document
comes back from its literal with the nearest double for each number, which is read as that literal
again, and its value is normalized exactly if it does not nest too deep. -/
theorem json_exchange :
    (∀ d : Datum, d.Ordered → Datum.ofJson d.toJson = d.finitePart ∧
      (Datum.ofJson d.toJson = d ↔ d.Finite) ∧
      ((Datum.ofJson d.toJson).equals d = true ↔ d.Finite)) ∧
    ∀ j : Json, j.InRange →
      (∀ value, .number value ∈ j.parts → value.IsNearest value.toDouble) ∧
      (Datum.ofJson j).toJson = j.inOrder.rounded ∧
      (j.Ordered → (Datum.ofJson j).toJson = j.rounded) ∧
      Datum.ofJson (Datum.ofJson j).toJson = Datum.ofJson j ∧
      (j.NamesDistinct → ∀ n : Normalizer,
        (∃ t, n.normalize (.ofJson j) = .ok t) ↔ j.nesting ≤ n.depth) := by
  constructor
  · intro d hd
    rw [Datum.ofJson_toJson hd]
    exact ⟨rfl, Datum.finitePart_eq_self_iff, Datum.equals_finitePart_iff⟩
  · intro j hj
    have hback : (Datum.ofJson j).toJson = j.inOrder.rounded := Datum.toJson_ofJson hj
    refine ⟨fun value hvalue => Json.Number.isNearest_toDouble (hj value hvalue), hback, ?_, ?_,
      ?_⟩
    · intro hordered
      rw [hback, Json.inOrder_eq_self hordered]
    · rw [Datum.ofJson_toJson (Datum.ordered_ofJson j), Datum.finitePart_eq_self_iff]
      exact Datum.finite_ofJson hj
    · intro hnames n
      rw [← Value.nesting_ofJson hnames]
      constructor
      · rintro ⟨t, ht⟩
        exact (Normalizer.normalize_eq_ok_iff.mp ht).1.1
      · intro hlimit
        have hfinite := Value.numbersFinite_ofJson hj
        exact ⟨_, Normalizer.normalize_eq_ok_iff.mpr ⟨⟨hlimit, hfinite⟩, rfl⟩⟩

/-- A number that is lost beside a null that was there, and an integer that no double has. -/
theorem json_exchange_nan :
    let d : Datum := .object [("a", .array [.number .nan, .number (.zero true)]), ("b", .null)]
    let j : Json := .object [("a", .array [.number (.int 9007199254740993)]), ("b", .null)]
    Datum.ofJson d.toJson = .object [("a", .array [.null, .number (.zero true)]), ("b", .null)] ∧
      (Datum.ofJson j).toJson = .object
        [("a", .array [.number (.double (.ofInt 9007199254740992))]), ("b", .null)] ∧
      (∀ t, (⟨1⟩ : Normalizer).normalize (.ofJson j) ≠ .ok t) ∧
      ∃ t, (⟨2⟩ : Normalizer).normalize (.ofJson j) = .ok t := by
  intro d j
  have hnames : "a" < "b" := by decide
  have hsorted {α : Type} (x y : α) : Fields.Sorted [("a", x), ("b", y)] :=
    List.pairwise_pair.mpr hnames
  have hordered : d.Ordered :=
    ⟨hsorted _ _, ⟨trivial, trivial, trivial⟩, trivial, trivial⟩
  have hmembers : j.Ordered := by
    intro members hmem
    obtain rfl : members = [("a", .array [.number (.int 9007199254740993)]), ("b", .null)] := by
      simpa [j, Json.parts, Json.itemParts, Json.memberParts] using hmem
    exact hsorted _ _
  have hrange : j.InRange := by
    have hfinite : (Double.ofInt 9007199254740993).isFinite = true := by decide +kernel
    simpa [j, Json.InRange, Json.parts, Json.itemParts, Json.memberParts, Json.Number.toDouble]
  have hdistinct : j.NamesDistinct := fun members h => Fields.nodup_names (hmembers members h)
  obtain ⟨-, -, hback, -, hlimit⟩ := json_exchange.2 j hrange
  have hrounded : Double.ofInt 9007199254740993 = Double.ofInt 9007199254740992 := by
    decide +kernel
  refine ⟨(json_exchange.1 d hordered).1, ?_, ?_, (hlimit hdistinct ⟨2⟩).mpr (by decide)⟩
  · rw [hback hmembers, ← hrounded]
    rfl
  · intro t ht
    exact absurd ((hlimit hdistinct ⟨1⟩).mp ⟨t, ht⟩) (by decide)

end Reql
