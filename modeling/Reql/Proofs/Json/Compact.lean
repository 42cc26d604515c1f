/-
# `Reql.Proofs.Json.Compact` — documents told from their texts

The text of a document without white space determines the document and where it ends
(`readable`), so no two documents share a text (`compact_injective`).  The first character says
which kind of value begins.  Within a container each entry is followed by a comma or by the end
of the container, and neither continues a number.
-/
import Reql.Proofs.Json.Scalar

namespace Reql.Json

open Text

/-! ## Documents with numbers that have a text -/

mutual

/-- All doubles of the document are finite. -/
def Finite : Json → Prop
  | .null | .bool _ | .string _ => True
  | .number value => value.Finite
  | .array items => FiniteItems items
  | .object members => FiniteMembers members

def FiniteItems : List Json → Prop
  | [] => True
  | item :: rest => item.Finite ∧ FiniteItems rest

def FiniteMembers : List (String × Json) → Prop
  | [] => True
  | (_, value) :: rest => value.Finite ∧ FiniteMembers rest

end

theorem finiteItems_iff : ∀ {items : List Json}, FiniteItems items ↔ ∀ x ∈ items, x.Finite
  | [] => by simp [FiniteItems]
  | x :: rest => by rw [FiniteItems, finiteItems_iff, List.forall_mem_cons]

theorem finiteMembers_iff : ∀ {members : List (String × Json)},
    FiniteMembers members ↔ ∀ m ∈ members, m.2.Finite
  | [] => by simp [FiniteMembers]
  | (name, x) :: rest => by rw [FiniteMembers, finiteMembers_iff, List.forall_mem_cons]

/-! ## The characters of a container -/

theorem compactItems_eq_map : ∀ items : List Json, compactItems items = items.map compact
  | [] => rfl
  | x :: rest => by rw [compactItems, compactItems_eq_map, List.map_cons]

/-- The text of a member: its name, a colon and its value. -/
def memberText (m : String × Json) : String := stringText m.1 ++ ":" ++ m.2.compact

theorem compactMembers_eq_map : ∀ members : List (String × Json),
    compactMembers members = members.map memberText
  | [] => rfl
  | (name, x) :: rest => by rw [compactMembers, compactMembers_eq_map, List.map_cons, memberText]

theorem toList_compact_array (items : List Json) : (Json.array items).compact.toList =
    '[' :: ((Text.joined "," (items.map compact)).toList ++ [']']) := by
  rw [compact, compactItems_eq_map, String.toList_append, String.toList_append]
  rfl

theorem toList_compact_object (members : List (String × Json)) :
    (Json.object members).compact.toList =
      '\x7b' :: ((Text.joined "," (members.map memberText)).toList ++ ['\x7d']) := by
  rw [compact, compactMembers_eq_map, String.toList_append, String.toList_append]
  rfl

theorem toList_stringText (text : String) :
    (stringText text).toList = '"' :: (text.toList.flatMap escapedChar ++ ['"']) :=
  String.toList_ofList

theorem toList_memberText (m : String × Json) :
    (memberText m).toList = (stringText m.1).toList ++ ':' :: m.2.compact.toList := by
  rw [memberText, String.toList_append, String.toList_append, List.append_assoc]
  rfl

/-! ## The first character -/

/-- The kinds of values. -/
inductive Kind where
  | null | bool | number | string | array | object
  deriving DecidableEq

def kind : Json → Kind
  | .null => .null
  | .bool _ => .bool
  | .number _ => .number
  | .string _ => .string
  | .array _ => .array
  | .object _ => .object

/-- The kind of value that a character begins. -/
def kindOf? (c : Char) : Option Kind :=
  if c.isDigit || c == '-' then some .number
  else match c with
    | 'n' => some .null
    | 't' | 'f' => some .bool
    | '"' => some .string
    | '[' => some .array
    | '\x7b' => some .object
    | _ => none

theorem exists_head {x : Json} (h : x.Finite) :
    ∃ c rest, x.compact.toList = c :: rest ∧ kindOf? c = some x.kind := by
  cases x with
  | null => exact ⟨'n', _, rfl, rfl⟩
  | bool value =>
      cases value with
      | false => exact ⟨'f', _, rfl, rfl⟩
      | true => exact ⟨'t', _, rfl, rfl⟩
  | number value =>
      obtain ⟨negative, c, rest, htext, hc, -⟩ := Number.exists_text_eq h
      cases negative with
      | false => exact ⟨c, rest, htext, by simp [kindOf?, hc, kind]⟩
      | true => exact ⟨'-', c :: rest, htext, rfl⟩
  | string value => exact ⟨'"', _, toList_stringText value, rfl⟩
  | array items => exact ⟨'[', _, toList_compact_array items, rfl⟩
  | object members => exact ⟨'\x7b', _, toList_compact_object members, rfl⟩

theorem kind_eq {x y : Json} {u v : List Char} (hx : x.Finite) (hy : y.Finite)
    (h : x.compact.toList ++ u = y.compact.toList ++ v) : x.kind = y.kind := by
  obtain ⟨c, rest, hc, hkind⟩ := exists_head hx
  obtain ⟨d, tail, hd, hkind'⟩ := exists_head hy
  rw [hc, hd] at h
  obtain rfl := (List.cons.inj h).1
  exact Option.some.inj (hkind.symm.trans hkind')

/-! ## Entries of a container -/

theorem stopsNumber_comma : StopsNumber ',' := rfl

theorem stopsNumber_bracket : StopsNumber ']' := rfl

theorem stopsNumber_brace : StopsNumber '\x7d' := rfl

theorem readable_member {name : String} {x : Json} (hx : Readable StopsNumber Finite compact x) :
    Readable StopsNumber (fun m => m.2.Finite) memberText (name, x) := by
  rintro ⟨name', y⟩ u v hy hu hv h
  simp only [toList_memberText, List.append_assoc] at h
  obtain ⟨rfl, hrest⟩ := stringText_append_injective h
  obtain ⟨rfl, huv⟩ := hx y u v hy hu hv (List.cons.inj hrest).2
  exact ⟨rfl, huv⟩

theorem compact_append_ne {x : Json} (hx : x.Finite) (u v : List Char) :
    x.compact.toList ++ u ≠ ']' :: v := by
  intro h
  obtain ⟨c, rest, hc, hkind⟩ := exists_head hx
  rw [hc] at h
  obtain rfl := (List.cons.inj h).1
  have hnone : kindOf? ']' = none := rfl
  exact nomatch hnone.symm.trans hkind

theorem memberText_append_ne (m : String × Json) (u v : List Char) :
    (memberText m).toList ++ u ≠ '\x7d' :: v := by
  intro h
  rw [toList_memberText, toList_stringText] at h
  exact absurd (List.cons.inj h).1 (by decide)

/-! ## Documents -/

mutual

/-- A document and what follows it can be told from the text. -/
theorem readable : ∀ {x : Json}, x.Finite → Readable StopsNumber Finite compact x
  | .null, hx => by
      intro y u v hy _ _ h
      -- the first characters agree, so the other document is of the same kind
      cases y with
      | null => exact ⟨rfl, List.append_cancel_left h⟩
      | _ => exact nomatch kind_eq hx hy h
  | .bool value, hx => by
      intro y u v hy _ _ h
      cases y with
      | bool value' =>
          cases value with
          | false =>
              cases value' with
              | false => exact ⟨rfl, List.append_cancel_left h⟩
              | true => exact absurd (List.cons.inj h).1 (by decide)
          | true =>
              cases value' with
              | false => exact absurd (List.cons.inj h).1 (by decide)
              | true => exact ⟨rfl, List.append_cancel_left h⟩
      | _ => exact nomatch kind_eq hx hy h
  | .number value, hx => by
      intro y u v hy hu hv h
      cases y with
      | number value' =>
          obtain ⟨rfl, huv⟩ := Number.text_append_injective hx hy hu hv h
          exact ⟨rfl, huv⟩
      | _ => exact nomatch kind_eq hx hy h
  | .string value, hx => by
      intro y u v hy _ _ h
      cases y with
      | string value' =>
          obtain ⟨rfl, huv⟩ := stringText_append_injective h
          exact ⟨rfl, huv⟩
      | _ => exact nomatch kind_eq hx hy h
  | .array items, hx => by
      intro y u v hy _ _ h
      cases y with
      | array items' =>
          rw [Finite] at hx hy
          simp only [toList_compact_array, List.cons_append, List.append_assoc,
            List.nil_append] at h
          obtain ⟨rfl, huv⟩ := joined_append_injective rfl stopsNumber_comma stopsNumber_bracket
            (by decide) (fun _ => compact_append_ne) (readable_items hx) (finiteItems_iff.mp hy)
            (List.cons.inj h).2
          exact ⟨rfl, huv⟩
      | _ => exact nomatch kind_eq hx hy h
  | .object members, hx => by
      intro y u v hy _ _ h
      cases y with
      | object members' =>
          rw [Finite] at hx hy
          simp only [toList_compact_object, List.cons_append, List.append_assoc,
            List.nil_append] at h
          obtain ⟨rfl, huv⟩ := joined_append_injective rfl stopsNumber_comma stopsNumber_brace
            (by decide) (fun m _ => memberText_append_ne m) (readable_members hx)
            (finiteMembers_iff.mp hy) (List.cons.inj h).2
          exact ⟨rfl, huv⟩
      | _ => exact nomatch kind_eq hx hy h

theorem readable_items : ∀ {items : List Json}, FiniteItems items →
    ∀ x ∈ items, x.Finite ∧ Readable StopsNumber Finite compact x
  | [], _ => List.forall_mem_nil _
  | x :: rest, h => by
      rw [FiniteItems] at h
      exact List.forall_mem_cons.mpr ⟨⟨h.1, readable h.1⟩, readable_items h.2⟩

theorem readable_members : ∀ {members : List (String × Json)}, FiniteMembers members →
    ∀ m ∈ members, m.2.Finite ∧ Readable StopsNumber (fun m => m.2.Finite) memberText m
  | [], _ => List.forall_mem_nil _
  | (_, x) :: rest, h => by
      rw [FiniteMembers] at h
      exact List.forall_mem_cons.mpr ⟨⟨h.1, readable_member (readable h.1)⟩, readable_members h.2⟩

end

/-- No two documents have the same text. -/
theorem compact_injective {x y : Json} (hx : x.Finite) (hy : y.Finite)
    (h : x.compact = y.compact) : x = y :=
  (readable hx y [] [] hy (ends_nil _) (ends_nil _) (by rw [h])).1

end Reql.Json
