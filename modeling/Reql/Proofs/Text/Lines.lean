/-
# `Reql.Proofs.Text.Lines` — lines and indentation

A text with a pad in front of every line has the lines of the text, each with the pad in front,
if the pad itself is on one line (`splitOn_indented`).  The pads in the middle of the text stand
behind its newlines (`padded`), so they can be put in piece by piece, and how the text was put
together does not matter.
-/
import Reql.Proofs.Text.Readable

namespace Reql.Text

/-- The lines of a text: what its newlines are between. -/
def lines (text : String) : List String := (text.toList.splitOn '\n').map String.ofList

/-- As many spaces. -/
def spaces (n : Nat) : String := String.ofList (List.replicate n ' ')

theorem toList_spaces (n : Nat) : (spaces n).toList = List.replicate n ' ' :=
  String.toList_ofList

theorem newline_not_mem_spaces (n : Nat) : '\n' ∉ (spaces n).toList := by
  rw [toList_spaces]
  exact fun h => absurd (List.eq_of_mem_replicate h) (by decide)

/-! ## Line by line -/

/-- A text is its last line, or a line, a newline and a text. -/
@[elab_as_elim]
theorem lines_induction {motive : List Char → Prop}
    (last : ∀ line, '\n' ∉ line → motive line)
    (line : ∀ line rest, '\n' ∉ line → motive rest → motive (line ++ '\n' :: rest))
    (cs : List Char) : motive cs := by
  by_cases h : '\n' ∈ cs
  · obtain ⟨first, rest, rfl, hfirst⟩ := List.eq_append_cons_of_mem h
    exact line first rest hfirst (lines_induction last line rest)
  · exact last cs h
termination_by cs.length
decreasing_by
  subst_vars
  rw [List.length_append, List.length_cons]
  omega

/-- There is one line more than there are newlines. -/
theorem length_splitOn_newline (cs : List Char) :
    (cs.splitOn '\n').length = cs.count '\n' + 1 := by
  induction cs using lines_induction with
  | last line hline =>
      rw [List.splitOn_eq_singleton hline, List.count_eq_zero_of_not_mem hline]
      rfl
  | line line rest hline ih =>
      rw [List.splitOn_append_cons_self_of_not_mem hline, List.length_cons, ih, List.count_append,
        List.count_eq_zero_of_not_mem hline, List.count_cons_self, Nat.zero_add]

theorem length_lines (text : String) : (lines text).length = text.toList.count '\n' + 1 := by
  rw [lines, List.length_map, length_splitOn_newline]

/-! ## Indentation -/

variable {pad : List Char}

/-- The text with a pad behind every newline. -/
def padded (pad cs : List Char) : List Char :=
  cs.flatMap fun c => if c = '\n' then c :: pad else [c]

theorem padded_append (pad cs ds : List Char) :
    padded pad (cs ++ ds) = padded pad cs ++ padded pad ds :=
  List.flatMap_append

theorem padded_newline (pad cs : List Char) :
    padded pad ('\n' :: cs) = '\n' :: (pad ++ padded pad cs) := by
  rw [padded, List.flatMap_cons, if_pos rfl, List.cons_append, padded]

theorem padded_of_not_mem {cs : List Char} (h : '\n' ∉ cs) : padded pad cs = cs := by
  induction cs with
  | nil => rfl
  | cons c cs ih =>
      rw [List.mem_cons, not_or] at h
      have hc : ¬ c = '\n' := fun hc => h.1 hc.symm
      have hcs := ih h.2
      rw [padded] at hcs
      rw [padded, List.flatMap_cons, if_neg hc, hcs, List.singleton_append]

/-- A pad in front of every line. -/
theorem splitOn_indented (hpad : '\n' ∉ pad) (cs : List Char) :
    (pad ++ padded pad cs).splitOn '\n' = (cs.splitOn '\n').map (pad ++ ·) := by
  have hline {line : List Char} (h : '\n' ∉ line) : '\n' ∉ pad ++ line := by
    simp [hpad, h]
  induction cs using lines_induction with
  | last line h =>
      rw [padded_of_not_mem h, List.splitOn_eq_singleton (hline h), List.splitOn_eq_singleton h]
      rfl
  | line line rest h ih =>
      rw [padded_append, padded_of_not_mem h, padded_newline, ← List.append_assoc,
        List.splitOn_append_cons_self_of_not_mem (hline h), ih,
        List.splitOn_append_cons_self_of_not_mem h, List.map_cons]

/-- An indented text has the lines of the text, further in. -/
theorem lines_indented {text text' : String} {indent : String} (hindent : '\n' ∉ indent.toList)
    (h : text'.toList = indent.toList ++ padded indent.toList text.toList) :
    lines text' = (lines text).map (indent ++ ·) := by
  rw [lines, h, splitOn_indented hindent, lines, List.map_map, List.map_map]
  refine List.map_congr_left fun line _ => ?_
  rw [Function.comp_apply, Function.comp_apply, String.ofList_append, String.ofList_toList]

end Reql.Text
