/-
# `Reql.Proofs.Recovery` — a value can be read back from its term

A term that makes an array or an object out of literals says which value it was made of
(`Term.raw?`): the items are its arguments, the entries its options.  So nothing about a value is
lost on the way, as long as no term is in it (`raw?_of_normalize`).  A term in a value stays as it
is, and it may be just the term that other values have.

Values compare as their terms do, both as such and under the comparison of IEEE arithmetic, where
the two zeros are equal.
-/
import Reql.Proofs.Translation
import Reql.Proofs.Validity

namespace Reql

/-! ## Reading back -/

namespace Term

mutual

/-- The value that a term is made of: a scalar literal, or an array or an object of such values.
Other terms are not made of a value. -/
def raw? : Term → Option Value
  | .literal .null => some .null
  | .literal (.bool value) => some (.bool value)
  | .literal (.number value) => some (.number value)
  | .literal (.string value) => some (.string value)
  | .literal (.array _) => none
  | .literal (.object _) => none
  | .apply .makeArray args [] => (rawItems? args).map .array
  | .apply .makeObj [] options => (rawFields? options).map .object
  | .apply _ _ _ => none

def rawItems? : List Term → Option (List Value)
  | [] => some []
  | t :: rest => do
    let item ← t.raw?
    let items ← rawItems? rest
    return item :: items

def rawFields? : List (String × Term) → Option (List (String × Value))
  | [] => some []
  | (key, t) :: rest => do
    let value ← t.raw?
    let fields ← rawFields? rest
    return (key, value) :: fields

end

end Term

namespace Value

mutual

theorem raw?_translation : ∀ {v : Value}, v.terms = [] → v.translation.raw? = some v
  | .null, _ | .bool _, _ | .number _, _ | .string _, _ => rfl
  | .array items, h => by
      rw [translation, Term.raw?, rawItems?_itemTranslations h, Option.map_some]
  | .object fields, h => by
      rw [translation, Term.raw?, rawFields?_fieldTranslations h, Option.map_some]

theorem rawItems?_itemTranslations : ∀ {items : List Value}, itemTerms items = [] →
    Term.rawItems? (itemTranslations items) = some items
  | [], _ => rfl
  | item :: rest, h => by
      obtain ⟨hitem, hrest⟩ := List.append_eq_nil_iff.mp h
      rw [itemTranslations, Term.rawItems?, raw?_translation hitem,
        rawItems?_itemTranslations hrest]
      rfl

theorem rawFields?_fieldTranslations : ∀ {fields : List (String × Value)},
    fieldTerms fields = [] → Term.rawFields? (fieldTranslations fields) = some fields
  | [], _ => rfl
  | (key, value) :: rest, h => by
      obtain ⟨hvalue, hrest⟩ := List.append_eq_nil_iff.mp h
      rw [fieldTranslations, Term.rawFields?, raw?_translation hvalue,
        rawFields?_fieldTranslations hrest]
      rfl

end

/-! ## Counting -/

mutual

/-- Each part of a value becomes a node. -/
theorem nodeCount_translation : ∀ {v : Value} (level : Nat), v.terms = [] →
    v.translation.nodeCount = (v.partsAt level).length
  | .null, _, _ | .bool _, _, _ | .number _, _, _ | .string _, _, _ => rfl
  | .array items, level, h => by
      rw [translation, Term.nodeCount, countArgs_itemTranslations (level + 1) h, partsAt,
        List.length_cons, Term.countOptions]
      omega
  | .object fields, level, h => by
      rw [translation, Term.nodeCount, countOptions_fieldTranslations (level + 1) h, partsAt,
        List.length_cons, Term.countArgs]
      omega

theorem countArgs_itemTranslations : ∀ {items : List Value} (level : Nat),
    itemTerms items = [] →
      Term.countArgs (itemTranslations items) = (itemPartsAt level items).length
  | [], _, _ => rfl
  | item :: rest, level, h => by
      obtain ⟨hitem, hrest⟩ := List.append_eq_nil_iff.mp h
      rw [itemTranslations, Term.countArgs, nodeCount_translation level hitem,
        countArgs_itemTranslations level hrest, itemPartsAt, List.length_append]

theorem countOptions_fieldTranslations : ∀ {fields : List (String × Value)} (level : Nat),
    fieldTerms fields = [] →
      Term.countOptions (fieldTranslations fields) = (fieldPartsAt level fields).length
  | [], _, _ => rfl
  | (key, value) :: rest, level, h => by
      obtain ⟨hvalue, hrest⟩ := List.append_eq_nil_iff.mp h
      rw [fieldTranslations, Term.countOptions, nodeCount_translation level hvalue,
        countOptions_fieldTranslations level hrest, fieldPartsAt, List.length_append]

end

/-! ## Comparing -/

mutual

theorem equals_translation : ∀ {v w : Value}, v.terms = [] → w.terms = [] →
    v.translation.equals w.translation = v.equals w
  | .null, w, _, hw | .bool _, w, _, hw | .number _, w, _, hw | .string _, w, _, hw => by
      cases w with
      | term _ => exact nomatch hw
      | _ => rfl
  | .array as, w, hv, hw => by
      cases w with
      | array bs =>
          rw [translation, translation, Term.equals, equals,
            equalsArgs_itemTranslations hv hw]
          simp [Term.equalsOptions]
      | term _ => exact nomatch hw
      | _ => rfl
  | .object as, w, hv, hw => by
      cases w with
      | object bs =>
          rw [translation, translation, Term.equals, equals,
            equalsOptions_fieldTranslations hv hw]
          simp [Term.equalsArgs]
      | term _ => exact nomatch hw
      | _ => rfl

theorem equalsArgs_itemTranslations : ∀ {as bs : List Value}, itemTerms as = [] →
    itemTerms bs = [] →
      Term.equalsArgs (itemTranslations as) (itemTranslations bs) = equalsItems as bs
  | [], [], _, _ | [], _ :: _, _, _ | _ :: _, [], _, _ => rfl
  | a :: as, b :: bs, has, hbs => by
      obtain ⟨ha, has⟩ := List.append_eq_nil_iff.mp has
      obtain ⟨hb, hbs⟩ := List.append_eq_nil_iff.mp hbs
      rw [itemTranslations, itemTranslations, Term.equalsArgs, equalsItems,
        equals_translation ha hb, equalsArgs_itemTranslations has hbs]

theorem equalsOptions_fieldTranslations : ∀ {as bs : List (String × Value)},
    fieldTerms as = [] → fieldTerms bs = [] →
      Term.equalsOptions (fieldTranslations as) (fieldTranslations bs) = equalsFields as bs
  | [], [], _, _ | [], (_, _) :: _, _, _ | (_, _) :: _, [], _, _ => rfl
  | (k, a) :: as, (l, b) :: bs, has, hbs => by
      obtain ⟨ha, has⟩ := List.append_eq_nil_iff.mp has
      obtain ⟨hb, hbs⟩ := List.append_eq_nil_iff.mp hbs
      rw [fieldTranslations, fieldTranslations, Term.equalsOptions, equalsFields,
        equals_translation ha hb, equalsOptions_fieldTranslations has hbs]

end

end Value

open Value

/-- The term of a value without terms gives the value back and has a node for each of its parts.
Two such values are the same exactly if their terms are, whatever the limits, and equal exactly if
their terms are equal. -/
theorem raw?_of_normalize {n : Normalizer} {v : Value} {t : Term} (hv : v.terms = [])
    (h : n.normalize v = .ok t) :
    t.raw? = some v ∧ t.nodeCount = v.parts.length ∧
      ∀ (n' : Normalizer) (w : Value) (u : Term), w.terms = [] → n'.normalize w = .ok u →
        (t = u ↔ v = w) ∧ t.equals u = v.equals w := by
  obtain rfl := Normalizer.eq_translation h
  refine ⟨raw?_translation hv, nodeCount_translation 0 hv, ?_⟩
  intro n' w u hw hu
  obtain rfl := Normalizer.eq_translation hu
  refine ⟨⟨?_, congrArg translation⟩, equals_translation hv hw⟩
  intro heq
  have hback := congrArg Term.raw? heq
  rw [raw?_translation hv, raw?_translation hw] at hback
  exact Option.some.inj hback

/-- Null, an empty array and an object with a negative zero; with the other zero the value is not
the same, though equal. -/
theorem raw?_of_normalize_zero :
    let v (negative : Bool) : Value :=
      .array [.null, .array [], .object [("k", .number (Double.zero negative))]]
    let t (negative : Bool) : Term := (v negative).translation
    (v true).terms = [] ∧ (default : Normalizer).normalize (v true) = .ok (t true) ∧
      (t true).raw? = some (v true) ∧ (t true).nodeCount = 5 ∧
      t true ≠ t false ∧ (t true).equals (t false) = true := by
  intro v t
  have hmade : (default : Normalizer).normalize (v true) = .ok (t true) := rfl
  have hother : (⟨2⟩ : Normalizer).normalize (v false) = .ok (t false) := rfl
  obtain ⟨hback, hcount, hsame⟩ := raw?_of_normalize (v := v true) rfl hmade
  obtain ⟨hiff, hequal⟩ := hsame ⟨2⟩ (v false) (t false) rfl hother
  have hne : v true ≠ v false := by simp [v, Double.zero]
  exact ⟨rfl, hmade, hback, hcount, fun heq => hne (hiff.mp heq), hequal.trans rfl⟩

end Reql
