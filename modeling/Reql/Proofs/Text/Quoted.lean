/-
# `Reql.Proofs.Text.Quoted` — quoted strings can be told apart

Between the quotes each character is written as itself or as an escape, and the two cannot be
confused: an escape begins with a backslash, which is itself always escaped.  An escape by code
point ends at its closing brace, which is no hexadecimal digit.  So the characters read back one
by one, and a quoted string ends at the first quote that is not part of an escape
(`quoted_append_injective`).
-/
import Mathlib.Algebra.Order.Ring.Nat
import Reql.Proofs.Text.Readable
import Reql.Text.Quoted

namespace Reql.Text

/-! ## Hexadecimal numbers -/

/-- The number that hexadecimal digits write. -/
def hexNumber (digits : List Char) : Nat := digits.foldl (fun n c => 16 * n + hexValue c) 0

theorem hexValue_digitChar : ∀ d < 16, hexValue (Nat.digitChar d) = d := by decide

theorem hexNumber_toDigits (n : Nat) : hexNumber (Nat.toDigits 16 n) = n := by
  induction n using Nat.strongRecOn with
  | _ n ih =>
    rw [Nat.toDigits_eq_if (by decide)]
    split
    next h => simpa [hexNumber] using hexValue_digitChar n h
    next h =>
      have hlast := hexValue_digitChar (n % 16) (Nat.mod_lt n (by decide))
      have hrest := ih (n / 16) (by omega)
      rw [hexNumber] at hrest
      rw [hexNumber, List.foldl_append, hrest, List.foldl_cons, List.foldl_nil, hlast]
      omega

/-- What holds of the sixteen digits holds of every digit of a number. -/
theorem forall_mem_toDigits {P : Char → Prop} (h : ∀ d < 16, P (Nat.digitChar d)) (n : Nat) :
    ∀ c ∈ Nat.toDigits 16 n, P c := by
  induction n using Nat.strongRecOn with
  | _ n ih =>
    rw [Nat.toDigits_eq_if (by decide)]
    split
    next hn => exact List.forall_mem_singleton.mpr (h n hn)
    next hn =>
      have hlast := h (n % 16) (Nat.mod_lt n (by decide))
      exact List.forall_mem_append.mpr ⟨ih (n / 16) (by omega), List.forall_mem_singleton.mpr hlast⟩

/-! ## Characters -/

/-- Reads the first character of the inside of a quoted string. -/
def readEscaped? : List Char → Option (Char × List Char)
  | '\\' :: 'u' :: '\x7b' :: rest =>
    some (Char.ofNat (hexNumber (rest.takeWhile (· ≠ '\x7d'))),
      (rest.dropWhile (· ≠ '\x7d')).drop 1)
  | '\\' :: 'n' :: rest => some ('\n', rest)
  | '\\' :: 'r' :: rest => some ('\r', rest)
  | '\\' :: 't' :: rest => some ('\t', rest)
  | '\\' :: '0' :: rest => some ('\x00', rest)
  | '\\' :: c :: rest => some (c, rest)
  | c :: rest => some (c, rest)
  | [] => none

theorem readEscaped?_cons {c : Char} (rest : List Char) (h : c ≠ '\\') :
    readEscaped? (c :: rest) = some (c, rest) := by
  unfold readEscaped?
  split <;> simp_all

theorem readEscaped?_codeEscape (c : Char) (rest : List Char) :
    readEscaped? (codeEscape c ++ rest) = some (c, rest) := by
  have hdigits : ∀ d ∈ Nat.toDigits 16 c.toNat, decide (d ≠ '\x7d') = true :=
    forall_mem_toDigits (by decide) c.toNat
  have hescape : codeEscape c ++ rest =
      '\\' :: 'u' :: '\x7b' :: (Nat.toDigits 16 c.toNat ++ '\x7d' :: rest) := by
    simp [codeEscape]
  rw [hescape, readEscaped?, List.takeWhile_append_of_pos hdigits,
    List.dropWhile_append_of_pos hdigits]
  simp [hexNumber_toDigits]

/-- The characters with a letter of their own. -/
def lettered : List Char := ['"', '\\', '\n', '\r', '\t', '\x00']

theorem escapedChar_of_not_mem {c : Char} (h : c ∉ lettered) :
    escapedChar c = if isExtender c || !isPrintable c then codeEscape c else [c] := by
  simp only [lettered, List.mem_cons, List.not_mem_nil, or_false, not_or] at h
  simp only [escapedChar, h, if_false]

/-- Every character reads back, whatever follows it. -/
theorem readEscaped?_escapedChar (c : Char) (rest : List Char) :
    readEscaped? (escapedChar c ++ rest) = some (c, rest) := by
  by_cases hletter : c ∈ lettered
  · simp only [lettered, List.mem_cons, List.not_mem_nil, or_false] at hletter
    rcases hletter with rfl | rfl | rfl | rfl | rfl | rfl <;> rfl
  · rw [escapedChar_of_not_mem hletter]
    split
    next => exact readEscaped?_codeEscape c rest
    next =>
      refine readEscaped?_cons rest ?_
      rintro rfl
      exact hletter (by decide)

/-- No character is written like the end of the string. -/
theorem escapedChar_append_ne (c : Char) (rest tail : List Char) :
    escapedChar c ++ rest ≠ '"' :: tail := by
  intro h
  have hread := congrArg readEscaped? h
  rw [readEscaped?_escapedChar, readEscaped?_cons tail (by decide)] at hread
  obtain ⟨rfl, -⟩ := Prod.mk.inj (Option.some.inj hread)
  exact absurd (List.cons.inj h).1 (by decide)

/-! ## Strings -/

theorem toList_quoted (s : String) :
    (quoted s).toList = '"' :: (s.toList.flatMap escapedChar ++ ['"']) :=
  String.toList_ofList

/-- A quoted string and what follows it can be told from the text. -/
theorem quoted_append_injective {s t : String} {u v : List Char}
    (h : (quoted s).toList ++ u = (quoted t).toList ++ v) : s = t ∧ u = v := by
  simp only [toList_quoted, List.cons_append, List.append_assoc, List.nil_append] at h
  obtain ⟨hchars, hrest⟩ := chars_append_injective readEscaped?_escapedChar escapedChar_append_ne
    (List.cons.inj h).2
  exact ⟨String.toList_inj.mp hchars, hrest⟩

/-! ## One line -/

theorem newline_not_mem_codeEscape (c : Char) : '\n' ∉ codeEscape c := by
  have hdigits : ∀ d ∈ Nat.toDigits 16 c.toNat, '\n' ≠ d := forall_mem_toDigits (by decide) c.toNat
  have hnot : '\n' ∉ Nat.toDigits 16 c.toNat := fun h => hdigits '\n' h rfl
  simp [codeEscape, hnot]

theorem newline_not_mem_escapedChar (c : Char) : '\n' ∉ escapedChar c := by
  by_cases hletter : c ∈ lettered
  · simp only [lettered, List.mem_cons, List.not_mem_nil, or_false] at hletter
    rcases hletter with rfl | rfl | rfl | rfl | rfl | rfl <;> decide
  · rw [escapedChar_of_not_mem hletter]
    split
    next => exact newline_not_mem_codeEscape c
    next =>
      rw [List.mem_singleton]
      rintro rfl
      exact hletter (by decide)

/-- A quoted string has no newline, whatever the string has. -/
theorem newline_not_mem_quoted (s : String) : '\n' ∉ (quoted s).toList := by
  rw [toList_quoted]
  simp [newline_not_mem_escapedChar]

end Reql.Text
