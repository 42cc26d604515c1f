/-
# `Reql.Proofs.Datum` — literals can be told apart on one line

The text of a literal with finite numbers determines the literal and where it ends, if what
follows could follow it in a list (`Datum.readable`).  The first character says which kind of
literal begins.  Strings and keys may hold anything, brackets and commas included, because they
end at their closing quote.
-/
import Reql.Proofs.Double.Plain
import Reql.Proofs.Term.Wire
import Reql.Proofs.Text.Quoted

namespace Reql

open Text

/-! ## What follows in a list -/

/-- The characters that end an entry or the whole list. -/
def Text.Closes (c : Char) : Prop := c ∈ [',', ')', ']', '\x7d']

instance (c : Char) : Decidable (Text.Closes c) :=
  inferInstanceAs (Decidable (c ∈ [',', ')', ']', '\x7d']))

/-- What is so of the four characters is so of each that ends an entry. -/
theorem Text.Closes.of_all {p : Char → Bool}
    (h : [',', ')', ']', '\x7d'].all p = true) {c : Char} (hc : Closes c) : p c = true :=
  List.all_eq_true.mp h c hc

namespace Datum

/-! ## Literals with finite numbers -/

theorem finiteItems_iff {items : List Datum} : FiniteItems items ↔ ∀ d ∈ items, d.Finite := by
  induction items with
  | nil => simp [FiniteItems]
  | cons d items ih => rw [FiniteItems, ih, List.forall_mem_cons]

theorem finiteFields_iff {fields : List (String × Datum)} :
    FiniteFields fields ↔ ∀ f ∈ fields, f.2.Finite := by
  induction fields with
  | nil => simp [FiniteFields]
  | cons f fields ih => rw [FiniteFields, ih, List.forall_mem_cons]

/-! ## The characters of a literal -/

theorem itemTexts_eq_map (items : List Datum) : itemTexts items = items.map text := by
  induction items with
  | nil => rfl
  | cons d items ih => rw [itemTexts, ih, List.map_cons]

/-- The text of a field: its key between quotes, a colon and its value. -/
def fieldText (f : String × Datum) : String := quoted f.1 ++ ": " ++ f.2.text

theorem fieldTexts_eq_map (fields : List (String × Datum)) :
    fieldTexts fields = fields.map fieldText := by
  induction fields with
  | nil => rfl
  | cons f fields ih => rw [fieldTexts, ih, List.map_cons, fieldText]

theorem toList_text_array (items : List Datum) : (array items).text.toList =
    '[' :: ((joined ", " (items.map text)).toList ++ [']']) := by
  rw [text, itemTexts_eq_map, String.toList_append, String.toList_append]
  rfl

theorem toList_text_object (fields : List (String × Datum)) : (object fields).text.toList =
    '\x7b' :: ((joined ", " (fields.map fieldText)).toList ++ ['\x7d']) := by
  rw [text, fieldTexts_eq_map, String.toList_append, String.toList_append]
  rfl

theorem toList_fieldText (f : String × Datum) :
    (fieldText f).toList = (quoted f.1).toList ++ ':' :: ' ' :: f.2.text.toList := by
  rw [fieldText, String.toList_append, String.toList_append, List.append_assoc]
  rfl

theorem toList_text_string (value : String) : (string value).text.toList =
    '"' :: (value.toList.flatMap escapedChar ++ ['"']) := by
  rw [text, toList_quoted]

/-! ## One line -/

mutual

/-- A literal has no newline, whatever its strings and keys have. -/
theorem newline_not_mem_text : ∀ d : Datum, '\n' ∉ d.text.toList
  | .null => by decide
  | .bool false | .bool true => by decide
  | .number value => value.newline_not_mem_plain
  | .string value => newline_not_mem_quoted value
  | .array items => by
      have hitems :=
        not_mem_joined (by decide : '\n' ∉ ", ".toList) (newline_not_mem_itemTexts items)
      rw [itemTexts_eq_map] at hitems
      rw [toList_text_array]
      simp [hitems]
  | .object fields => by
      have hfields :=
        not_mem_joined (by decide : '\n' ∉ ", ".toList) (newline_not_mem_fieldTexts fields)
      rw [fieldTexts_eq_map] at hfields
      rw [toList_text_object]
      simp [hfields]

theorem newline_not_mem_itemTexts :
    ∀ items : List Datum, ∀ t ∈ itemTexts items, '\n' ∉ t.toList
  | [] => List.forall_mem_nil _
  | d :: rest => by
      rw [itemTexts]
      exact List.forall_mem_cons.mpr ⟨newline_not_mem_text d, newline_not_mem_itemTexts rest⟩

theorem newline_not_mem_fieldTexts :
    ∀ fields : List (String × Datum), ∀ t ∈ fieldTexts fields, '\n' ∉ t.toList
  | [] => List.forall_mem_nil _
  | (key, d) :: rest => by
      have hkey := newline_not_mem_quoted key
      have hvalue := newline_not_mem_text d
      have hfield : '\n' ∉ (fieldText (key, d)).toList := by
        rw [toList_fieldText]
        simp [hkey, hvalue]
      exact List.forall_mem_cons.mpr ⟨hfield, newline_not_mem_fieldTexts rest⟩

end

/-! ## The first character -/

/-- The kind of a literal, as of the document that it is. -/
def kind : Datum → Json.Kind
  | .null => .null
  | .bool _ => .bool
  | .number _ => .number
  | .string _ => .string
  | .array _ => .array
  | .object _ => .object

theorem exists_head {d : Datum} (h : d.Finite) :
    ∃ c rest, d.text.toList = c :: rest ∧ Json.kindOf? c = some d.kind := by
  cases d with
  | null => exact ⟨'n', _, rfl, rfl⟩
  | bool value =>
      cases value with
      | false => exact ⟨'f', _, rfl, rfl⟩
      | true => exact ⟨'t', _, rfl, rfl⟩
  | number value =>
      obtain ⟨c, rest, htext, hc⟩ := Double.exists_plain_head h
      refine ⟨c, rest, htext, ?_⟩
      rcases hc with hc | rfl
      · simp [Json.kindOf?, hc, kind]
      · rfl
  | string value => exact ⟨'"', _, toList_text_string value, rfl⟩
  | array items => exact ⟨'[', _, toList_text_array items, rfl⟩
  | object fields => exact ⟨'\x7b', _, toList_text_object fields, rfl⟩

theorem kind_eq {d e : Datum} {u v : List Char} (hd : d.Finite) (he : e.Finite)
    (h : d.text.toList ++ u = e.text.toList ++ v) : d.kind = e.kind := by
  obtain ⟨c, rest, hc, hkind⟩ := exists_head hd
  obtain ⟨c', rest', hc', hkind'⟩ := exists_head he
  rw [hc, hc'] at h
  obtain rfl := (List.cons.inj h).1
  exact Option.some.inj (hkind.symm.trans hkind')

/-- A literal does not begin like the end of a list. -/
theorem text_append_ne {d : Datum} (hd : d.Finite) {close : Char} (hclose : Closes close)
    (u v : List Char) : d.text.toList ++ u ≠ close :: v := by
  intro h
  obtain ⟨c, rest, hc, hkind⟩ := exists_head hd
  rw [hc] at h
  obtain rfl := (List.cons.inj h).1
  have hnone : (Json.kindOf? c).isNone = true :=
    hclose.of_all (p := fun c => (Json.kindOf? c).isNone) rfl
  simp [hkind] at hnone

theorem fieldText_append_ne (f : String × Datum) (u v : List Char) :
    (fieldText f).toList ++ u ≠ '\x7d' :: v := by
  intro h
  rw [toList_fieldText, toList_quoted] at h
  exact absurd (List.cons.inj h).1 (by decide)

/-! ## Literals -/

theorem not_isPlainChar_of_ends {u : List Char} (hu : Ends Closes u) :
    ∀ c ∈ u.head?, Double.isPlainChar c = false := by
  intro c hc
  have h := (hu c hc).of_all (p := fun c => !Double.isPlainChar c) rfl
  simpa using h

theorem readable_field {key : String} {d : Datum} (hd : Readable Closes Finite text d) :
    Readable Closes (fun f => f.2.Finite) fieldText (key, d) := by
  rintro ⟨key', e⟩ u v he hu hv h
  simp only [toList_fieldText, List.append_assoc] at h
  obtain ⟨rfl, hrest⟩ := quoted_append_injective h
  obtain ⟨rfl, huv⟩ := hd e u v he hu hv (List.cons.inj (List.cons.inj hrest).2).2
  exact ⟨rfl, huv⟩

mutual

/-- A literal and what follows it in a list can be told from the text. -/
theorem readable : ∀ {d : Datum}, d.Finite → Readable Closes Finite text d
  | .null, hd => by
      intro e u v he _ _ h
      -- the first characters agree, so the other literal is of the same kind
      cases e with
      | null => exact ⟨rfl, List.append_cancel_left h⟩
      | _ => exact nomatch kind_eq hd he h
  | .bool value, hd => by
      intro e u v he _ _ h
      cases e with
      | bool value' =>
          cases value with
          | false =>
              cases value' with
              | false => exact ⟨rfl, List.append_cancel_left h⟩
              | true => exact absurd (List.cons.inj h).1 (by decide)
          | true =>
              cases value' with
              | false => exact absurd (List.cons.inj h).1 (by decide)
              | true => exact ⟨rfl, List.append_cancel_left h⟩
      | _ => exact nomatch kind_eq hd he h
  | .number value, hd => by
      intro e u v he hu hv h
      cases e with
      | number value' =>
          obtain ⟨rfl, huv⟩ := Double.plain_append_injective hd he (not_isPlainChar_of_ends hu)
            (not_isPlainChar_of_ends hv) h
          exact ⟨rfl, huv⟩
      | _ => exact nomatch kind_eq hd he h
  | .string value, hd => by
      intro e u v he _ _ h
      cases e with
      | string value' =>
          obtain ⟨rfl, huv⟩ := quoted_append_injective h
          exact ⟨rfl, huv⟩
      | _ => exact nomatch kind_eq hd he h
  | .array items, hd => by
      intro e u v he _ _ h
      cases e with
      | array items' =>
          rw [Finite] at hd he
          have hclose : Closes ']' := by decide
          simp only [toList_text_array, List.cons_append, List.append_assoc, List.nil_append] at h
          obtain ⟨rfl, huv⟩ := joined_append_injective rfl (by decide) hclose (by decide)
            (fun _ hd => text_append_ne hd hclose) (readable_items hd) (finiteItems_iff.mp he)
            (List.cons.inj h).2
          exact ⟨rfl, huv⟩
      | _ => exact nomatch kind_eq hd he h
  | .object fields, hd => by
      intro e u v he _ _ h
      cases e with
      | object fields' =>
          rw [Finite] at hd he
          have hclose : Closes '\x7d' := by decide
          simp only [toList_text_object, List.cons_append, List.append_assoc, List.nil_append] at h
          obtain ⟨rfl, huv⟩ := joined_append_injective rfl (by decide) hclose (by decide)
            (fun f _ => fieldText_append_ne f) (readable_fields hd) (finiteFields_iff.mp he)
            (List.cons.inj h).2
          exact ⟨rfl, huv⟩
      | _ => exact nomatch kind_eq hd he h

theorem readable_items : ∀ {items : List Datum}, FiniteItems items →
    ∀ d ∈ items, d.Finite ∧ Readable Closes Finite text d
  | [], _ => List.forall_mem_nil _
  | d :: rest, h => by
      rw [FiniteItems] at h
      exact List.forall_mem_cons.mpr ⟨⟨h.1, readable h.1⟩, readable_items h.2⟩

theorem readable_fields : ∀ {fields : List (String × Datum)}, FiniteFields fields →
    ∀ f ∈ fields, f.2.Finite ∧ Readable Closes (fun f => f.2.Finite) fieldText f
  | [], _ => List.forall_mem_nil _
  | (_, d) :: rest, h => by
      rw [FiniteFields] at h
      exact List.forall_mem_cons.mpr ⟨⟨h.1, readable_field (readable h.1)⟩, readable_fields h.2⟩

end

end Datum

end Reql
