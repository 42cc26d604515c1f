/-
# `Reql.Proofs.Literal` — a container of literals is one only before normalization

A raw value is a literal exactly if its numbers are finite and the terms in it are literals, at
whatever depth they are.  A term is a literal only if its root is.  So a scalar and a term keep
their answer when they are normalized, but an array or an object becomes an operation and is no
literal any more, even if it is empty (`isDatum_of_normalize`).

Hence the test for literals is not among the questions that `Value.Alike` settles, and a check for a
literal refuses the containers that normalization has made.
-/
import Reql.Command.Check
import Reql.Proofs.Translation
import Reql.Proofs.Validity

namespace Reql

namespace Value

/-! ## Raw literals -/

mutual

theorem isDatum_iff_of_partsAt : ∀ (level : Nat) (v : Value), v.isDatum = true ↔
    (∀ part ∈ v.partsAt level, ∀ x, part.value = .number x → x.isFinite = true) ∧
      ∀ u ∈ v.terms, u.isLiteral = true
  | _, .null | _, .bool _ | _, .number _ | _, .string _ | _, .term _ => by
      simp [isDatum, partsAt, terms]
  | level, .array items => by
      rw [isDatum, partsAt, terms, List.forall_mem_cons, allDatum_iff_of_partsAt (level + 1) items]
      simp
  | level, .object fields => by
      rw [isDatum, partsAt, terms, List.forall_mem_cons,
        allDatumFields_iff_of_partsAt (level + 1) fields]
      simp

theorem allDatum_iff_of_partsAt : ∀ (level : Nat) (items : List Value), allDatum items = true ↔
    (∀ part ∈ itemPartsAt level items, ∀ x, part.value = .number x → x.isFinite = true) ∧
      ∀ u ∈ itemTerms items, u.isLiteral = true
  | _, [] => by simp [allDatum, itemPartsAt, itemTerms]
  | level, item :: rest => by
      rw [allDatum, Bool.and_eq_true, isDatum_iff_of_partsAt level item,
        allDatum_iff_of_partsAt level rest, itemPartsAt, itemTerms, List.forall_mem_append,
        List.forall_mem_append, and_and_and_comm]

theorem allDatumFields_iff_of_partsAt : ∀ (level : Nat) (fields : List (String × Value)),
    allDatumFields fields = true ↔
      (∀ part ∈ fieldPartsAt level fields, ∀ x, part.value = .number x → x.isFinite = true) ∧
        ∀ u ∈ fieldTerms fields, u.isLiteral = true
  | _, [] => by simp [allDatumFields, fieldPartsAt, fieldTerms]
  | level, (_, value) :: rest => by
      rw [allDatumFields, Bool.and_eq_true, isDatum_iff_of_partsAt level value,
        allDatumFields_iff_of_partsAt level rest, fieldPartsAt, fieldTerms, List.forall_mem_append,
        List.forall_mem_append, and_and_and_comm]

end

/-- Numbers and terms alone decide whether a value is a literal. -/
theorem isDatum_iff {v : Value} :
    v.isDatum = true ↔ v.NumbersFinite ∧ v.AllTerms fun u => u.isLiteral = true :=
  isDatum_iff_of_partsAt 0 v

/-! ## Literals once normalized -/

theorem numbersFinite_number {x : Double} (h : (number x).NumbersFinite) : x.isFinite = true :=
  h ⟨0, .number x⟩ (List.mem_singleton_self _) x rfl

/-- A scalar and a term have the answer of their term.  The term of a container is an operation. -/
theorem isDatum_translation {v : Value} (h : v.NumbersFinite) :
    (term v.translation).isDatum = (v.isDatum && !v.isContainer) := by
  cases v with
  | null | bool _ | string _ => rfl
  | number x =>
      rw [isDatum, numbersFinite_number h]
      rfl
  | array items => exact (Bool.and_false _).symm
  | object fields => exact (Bool.and_false _).symm
  | term t => exact (Bool.and_true _).symm

end Value

open Value

/-- The error names what came, which after normalization is a term. -/
theorem Check.verify_datum_translation {v : Value} (h : v.NumbersFinite) (command : String)
    (place : Place) : Check.datum.verify command place (.term v.translation) =
      if v.isContainer then .error (.mustBe command place "datum" "term")
      else Check.datum.verify command place v := by
  cases v with
  | null | bool _ | string _ | array _ | object _ | term _ => rfl
  | number x =>
      have hraw : Check.datum.admits (.number x) = true := numbersFinite_number h
      exact (if_pos hraw).symm

/-- A value that can be normalized is a literal if the terms in it are.  Its term is a literal as
well, unless the value is a raw container; a check for a literal then refuses what it would have
let pass. -/
theorem isDatum_of_normalize {n : Normalizer} {v : Value} {t : Term} (h : n.normalize v = .ok t) :
    (v.isDatum = true ↔ v.AllTerms fun u => u.isLiteral = true) ∧
      (term t).isDatum = (v.isDatum && !v.isContainer) ∧
      ∀ command place, Check.datum.verify command place (.term t) =
        if v.isContainer then .error (.mustBe command place "datum" "term")
        else Check.datum.verify command place v := by
  obtain ⟨⟨-, hfinite⟩, rfl⟩ := Normalizer.normalize_eq_ok_iff.mp h
  have hraw : v.isDatum = true ↔ v.AllTerms fun u => u.isLiteral = true := by
    rw [isDatum_iff]
    exact and_iff_right hfinite
  exact ⟨hraw, isDatum_translation hfinite, Check.verify_datum_translation hfinite⟩

/-- A record and a name in an array. -/
theorem isDatum_of_normalize_array :
    let v : Value := .array [.object [("k", .null)], .string "a"]
    let t : Term := .apply .makeArray
      [.apply .makeObj [] [("k", .literal .null)], .literal (.string "a")] []
    (default : Normalizer).normalize v = .ok t ∧ v.isDatum = true ∧ (term t).isDatum = false ∧
      Check.datum.verify "lit" (.argument 0) (.term t) =
        .error (.mustBe "lit" (.argument 0) "datum" "term") := by
  intro v t
  have hmade : (default : Normalizer).normalize v = .ok t := rfl
  obtain ⟨hraw, hterm, hverify⟩ := isDatum_of_normalize hmade
  have hliteral : v.isDatum = true := hraw.mpr nofun
  exact ⟨hmade, hliteral, by rw [hterm, hliteral]; rfl, hverify "lit" (.argument 0)⟩

/-- Normalization does not keep the answer. -/
theorem not_isDatum_of_normalize : ¬ ∀ (n : Normalizer) (v : Value) (t : Term),
    n.normalize v = .ok t → (v.isDatum = true ↔ (term t).isDatum = true) := by
  intro hkeeps
  have hiff := hkeeps default (.array [.object [("k", .null)], .string "a"]) _ rfl
  exact Bool.false_ne_true (hiff.mp rfl)

end Reql
