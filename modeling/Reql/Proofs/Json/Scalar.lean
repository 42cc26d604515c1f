/-
# `Reql.Proofs.Json.Scalar` — strings and numbers told from their texts

Two facts carry the reading of documents.  A string between quotes ends at the first quote
that is not part of an escape, so its text determines the string and where it ends
(`stringText_append_injective`).  A number ends at the first character that numbers are not
written with, and its text determines it: an integer is never written like a double
(`Number.text_append_injective`).
-/
import Reql.Json.Printer
import Reql.Proofs.Double.Wire
import Reql.Proofs.Text.Readable

namespace Reql.Json

open Double (isNumberChar signText digitText)
open Text (Ends hexValue)

/-! ## Strings -/

/-- Reads the first character of the inside of a string. -/
def readChar? : List Char → Option (Char × List Char)
  | '\\' :: 'u' :: _ :: _ :: a :: b :: rest => some (Char.ofNat (16 * hexValue a + hexValue b), rest)
  | '\\' :: 'b' :: rest => some ('\x08', rest)
  | '\\' :: 'f' :: rest => some ('\x0c', rest)
  | '\\' :: 'n' :: rest => some ('\n', rest)
  | '\\' :: 'r' :: rest => some ('\r', rest)
  | '\\' :: 't' :: rest => some ('\t', rest)
  | '\\' :: c :: rest => some (c, rest)
  | c :: rest => some (c, rest)
  | [] => none

theorem readChar?_cons {c : Char} (rest : List Char) (h : c ≠ '\\') :
    readChar? (c :: rest) = some (c, rest) := by
  unfold readChar?
  split <;> simp_all

theorem hex4_of_lt : ∀ code < 32,
    hex4 code = ['0', '0', Nat.digitChar (code / 16), Nat.digitChar (code % 16)] ∧
      16 * hexValue (Nat.digitChar (code / 16)) + hexValue (Nat.digitChar (code % 16)) = code := by
  decide

/-- The characters with a letter of their own. -/
def lettered : List Char := ['"', '\\', '\x08', '\x0c', '\n', '\r', '\t']

theorem escapedChar_of_not_mem {c : Char} (h : c ∉ lettered) :
    escapedChar c = if c.toNat < 0x20 then '\\' :: 'u' :: hex4 c.toNat else [c] := by
  simp only [lettered, List.mem_cons, List.not_mem_nil, or_false, not_or] at h
  simp only [escapedChar, h, if_false]

/-- Every escape reads back, whatever follows it. -/
theorem readChar?_escapedChar (c : Char) (rest : List Char) :
    readChar? (escapedChar c ++ rest) = some (c, rest) := by
  by_cases hletter : c ∈ lettered
  · simp only [lettered, List.mem_cons, List.not_mem_nil, or_false] at hletter
    rcases hletter with rfl | rfl | rfl | rfl | rfl | rfl | rfl <;> rfl
  · rw [escapedChar_of_not_mem hletter]
    split
    next hcontrol =>
      obtain ⟨hhex, hvalue⟩ := hex4_of_lt c.toNat hcontrol
      simp only [hhex, List.cons_append, List.nil_append, readChar?, hvalue, Char.ofNat_toNat]
    next =>
      refine readChar?_cons rest ?_
      rintro rfl
      exact hletter (by decide)

/-- An escape does not begin like the end of the string. -/
theorem escapedChar_append_ne {c : Char} {rest tail : List Char} :
    escapedChar c ++ rest ≠ '"' :: tail := by
  intro h
  have hread := congrArg readChar? h
  rw [readChar?_escapedChar, readChar?_cons tail (by decide)] at hread
  obtain ⟨rfl, -⟩ := Prod.mk.inj (Option.some.inj hread)
  exact absurd (List.cons.inj h).1 (by decide)

/-- A string and what follows it can be told from the text. -/
theorem stringText_append_injective {s t : String} {u v : List Char}
    (h : (stringText s).toList ++ u = (stringText t).toList ++ v) : s = t ∧ u = v := by
  simp only [stringText, String.toList_ofList, List.cons_append, List.append_assoc,
    List.nil_append] at h
  obtain ⟨hchars, hrest⟩ := Text.chars_append_injective readChar?_escapedChar
    (fun _ _ _ => escapedChar_append_ne) (List.cons.inj h).2
  exact ⟨String.toList_inj.mp hchars, hrest⟩

/-! ## Numbers -/

/-- Only finite doubles have a text of their own. -/
def Number.Finite : Number → Prop
  | .int _ => True
  | .double value => value.isFinite = true

/-- No number has the character in it. -/
def StopsNumber (c : Char) : Prop := isNumberChar c = false

theorem exists_wire? {x : Double} (h : x.isFinite = true) : ∃ text, x.wire? = some text := by
  cases x with
  | nan => exact nomatch h
  | infinity negative => exact nomatch h
  | finite negative rank => exact ⟨_, rfl⟩

theorem text_double {x : Double} {text : String} (h : x.wire? = some text) :
    (Number.double x).text = text := by
  rw [Number.text, h, Option.getD_some]

/-- The text of a number is a sign and characters of numbers, the first of them a digit. -/
theorem Number.exists_text_eq {n : Number} (h : n.Finite) : ∃ negative c rest,
    n.text.toList = (signText negative).toList ++ c :: rest ∧ c.isDigit = true ∧
      ∀ d ∈ c :: rest, isNumberChar d = true := by
  cases n with
  | int value =>
      have hdigits := Double.toDigits_isDigit (n := value.natAbs)
      obtain ⟨c, rest, hcons⟩ := List.exists_cons_of_ne_nil
        (Nat.toDigits_ne_nil (n := value.natAbs) (b := 10))
      rw [hcons] at hdigits
      refine ⟨decide (value < 0), c, rest, ?_, hdigits c List.mem_cons_self,
        fun d hd => Double.isNumberChar_of_isDigit (hdigits d hd)⟩
      rw [Number.text, String.toList_append, digitText, String.toList_ofList, hcons]
  | double value =>
      obtain ⟨text, htext⟩ := exists_wire? h
      obtain ⟨negative, l, hchars, -⟩ := Double.exists_layout_of_wire? htext
      obtain ⟨c, rest, hc, hcons⟩ := l.chars_eq_cons
      refine ⟨negative, c, rest, ?_, hc, hcons ▸ l.isNumberChar_of_mem⟩
      rw [text_double htext, hchars, hcons]

theorem Number.isNumberChar_of_mem_text {n : Number} (h : n.Finite) :
    ∀ c ∈ n.text.toList, isNumberChar c = true := by
  obtain ⟨negative, c, rest, htext, -, hrest⟩ := Number.exists_text_eq h
  rw [htext]
  refine List.forall_mem_append.mpr ⟨?_, hrest⟩
  cases negative with
  | true => exact List.forall_mem_singleton.mpr rfl
  | false => exact List.forall_mem_nil _

theorem splitSign_text_int (value : Int) :
    Double.Numeral.splitSign (Number.int value).text.toList =
      (decide (value < 0), Nat.toDigits 10 value.natAbs) := by
  obtain ⟨c, rest, hcons⟩ := List.exists_cons_of_ne_nil
    (Nat.toDigits_ne_nil (n := value.natAbs) (b := 10))
  have hc : c.isDigit = true := Double.toDigits_isDigit c (hcons ▸ List.mem_cons_self)
  rw [Number.text, String.toList_append, digitText, String.toList_ofList, hcons,
    Double.splitSign_signText _ hc]

/-- An integer has no point and no exponent. -/
theorem text_int_ne {value : Int} {x : Double} {text : String} (hx : x.wire? = some text) :
    (Number.int value).text ≠ text := by
  intro h
  obtain ⟨negative, l, hchars, -⟩ := Double.exists_layout_of_wire? hx
  obtain ⟨c, rest, hc, hcons⟩ := l.chars_eq_cons
  have hsplit := splitSign_text_int value
  rw [h, hchars, hcons, Double.splitSign_signText negative hc, ← hcons] at hsplit
  obtain ⟨d, hd, hnot⟩ := l.exists_not_isDigit
  rw [(Prod.mk.inj hsplit).2] at hd
  exact absurd (Double.toDigits_isDigit d hd) (Bool.eq_false_iff.mp hnot)

theorem text_int_injective {v w : Int} (h : (Number.int v).text = (Number.int w).text) : v = w := by
  have hsplit := splitSign_text_int v
  rw [h, splitSign_text_int w] at hsplit
  obtain ⟨hsign, hdigits⟩ := Prod.mk.inj hsplit
  have habs : w.natAbs = v.natAbs := by
    rw [← Double.Numeral.natOfDigits_toDigits w.natAbs, hdigits,
      Double.Numeral.natOfDigits_toDigits]
  have hiff : w < 0 ↔ v < 0 := decide_eq_decide.mp hsign
  omega

/-- A number can be told from its text. -/
theorem Number.text_injective {m n : Number} (hm : m.Finite) (hn : n.Finite)
    (h : m.text = n.text) : m = n := by
  cases m with
  | int v =>
      cases n with
      | int w => rw [text_int_injective h]
      | double y =>
          obtain ⟨text, hy⟩ := exists_wire? hn
          rw [text_double hy] at h
          exact absurd h (text_int_ne hy)
  | double x =>
      obtain ⟨text, hx⟩ := exists_wire? hm
      rw [text_double hx] at h
      cases n with
      | int w => exact absurd h.symm (text_int_ne hx)
      | double y =>
          obtain ⟨text', hy⟩ := exists_wire? hn
          rw [text_double hy] at h
          rw [Double.wire?_injective hx (h ▸ hy)]

/-- A number and what follows it can be told from the text. -/
theorem Number.text_append_injective {m n : Number} {u v : List Char} (hm : m.Finite)
    (hn : n.Finite) (hu : Ends StopsNumber u) (hv : Ends StopsNumber v)
    (h : m.text.toList ++ u = n.text.toList ++ v) : m = n ∧ u = v := by
  have hspan := congrArg (List.span isNumberChar) h
  rw [Double.span_append (Number.isNumberChar_of_mem_text hm) hu,
    Double.span_append (Number.isNumberChar_of_mem_text hn) hv] at hspan
  obtain ⟨htext, hrest⟩ := Prod.mk.inj hspan
  exact ⟨Number.text_injective hm hn (String.toList_inj.mp htext), hrest⟩

end Reql.Json
