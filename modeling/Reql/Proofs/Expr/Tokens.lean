/-
# `Reql.Proofs.Expr.Tokens` — a text is read line by line

Whatever the lexer is in the middle of at the end of a line, if the text could end there then what
comes on the next line is read as on its own.  So a newline joins two texts token by token, and a
fault in the second one is reported as far on as its line is (`tokenize_line_by_line`).

Where the tokens are follows from the layout of the text: each has a spelling of at least one
character, and the next comes after it.
-/
import Reql.Proofs.Expr.Positions

namespace Reql

namespace Token

open Text

/-- No token is written with nothing. -/
theorem Spelled.ne_nil {token : Token} {letters : List Char} (h : Spelled token letters) :
    letters ≠ [] := by
  cases hword : token.isWord with
  | true => exact (isWord_of_spelled h hword).1
  | false => exact (breaks_of_spelled h hword).1

theorem Spelled.byteCount_pos {token : Token} {letters : List Char} (h : Spelled token letters) :
    0 < byteCount letters := by
  obtain ⟨c, rest, rfl⟩ := List.exists_cons_of_ne_nil h.ne_nil
  rw [byteCount_cons]
  exact Nat.add_pos_left c.utf8Size_pos _

/-- The tokens of a layout are from where it begins on, each further on than the ones before. -/
theorem offsets_of_layout {offset : Nat} {ts : List (Placed Token)} {cs : List Char}
    (h : Layout offset ts cs) :
    (∀ t ∈ ts, offset ≤ t.offset) ∧ ts.Pairwise fun s t => s.offset < t.offset := by
  induction h with
  | gap _ | comment _ _ => exact ⟨List.forall_mem_nil _, .nil⟩
  | @token offset gap letters token ts cs hgap hspelled hends _ ih =>
      obtain ⟨hfrom, hpairs⟩ := ih
      have hpos : 0 < byteCount letters := hspelled.byteCount_pos
      have hlater : ∀ t ∈ ts, offset + byteCount gap < t.offset :=
        fun t ht => Nat.lt_of_lt_of_le (Nat.lt_add_of_pos_right hpos) (hfrom t ht)
      refine ⟨List.forall_mem_cons.mpr ⟨Nat.le_add_right _ _, ?_⟩, .cons hlater hpairs⟩
      intro t ht
      exact Nat.le_of_lt (Nat.lt_of_le_of_lt (Nat.le_add_right _ _) (hlater t ht))

end Token

/-- A line after a text adds the tokens that it has on its own, further on by the text and the
newline, or fails with its own fault, as much further on.  Of the tokens of a text each is further
on than the ones before, and is written where it is said to be. -/
theorem tokenize_line_by_line :
    (∀ {a : String} {ts : List (Placed Token)}, tokenize a = .ok ts → ∀ b,
      (∀ us, tokenize b = .ok us →
        tokenize (a ++ "\n" ++ b) = .ok (ts ++ us.map (.later (a.utf8ByteSize + 1)))) ∧
      ∀ fault, tokenize b = .error fault →
        tokenize (a ++ "\n" ++ b) = .error (fault.later (a.utf8ByteSize + 1))) ∧
    ∀ {text : String} {ts : List (Placed Token)}, tokenize text = .ok ts →
      (ts.Pairwise fun s t => s.offset < t.offset) ∧ ∀ t ∈ ts, StandsIn text t := by
  constructor
  · intro a ts ha b
    have hlines := tokenize_lines ha b
    constructor
    · intro us hb
      rw [hlines, hb]
      rfl
    · intro fault hb
      rw [hlines, hb]
      rfl
  · intro text ts htext
    have hlayout : Token.Layout 0 ts text.toList := tokenize_eq_ok_iff.mp htext
    exact ⟨(Token.offsets_of_layout hlayout).2, fun t ht => standsIn_of_mem htext ht⟩

/-- A comment is cut by the newline, and the string after it is closed or not. -/
theorem tokenize_line_by_line_string :
    tokenize ("(é ; \"" ++ "\n" ++ " \"\\n\")") =
        .ok [⟨0, .openList⟩, ⟨1, .symbol "é"⟩, ⟨9, .string "\n"⟩, ⟨13, .closeList⟩] ∧
      tokenize ("(é ; \"" ++ "\n" ++ " \"\\n)") = .error ⟨9, .unterminatedString⟩ ∧
      StandsIn "(é ; \"" ⟨1, .symbol "é"⟩ := by
  have hfirst : tokenize "(é ; \"" = .ok [⟨0, .openList⟩, ⟨1, .symbol "é"⟩] := rfl
  have hclosed : tokenize " \"\\n\")" = .ok [⟨1, .string "\n"⟩, ⟨5, .closeList⟩] := rfl
  have hopen : tokenize " \"\\n)" = .error ⟨1, .unterminatedString⟩ := rfl
  refine ⟨?_, ?_, (tokenize_line_by_line.2 hfirst).2 _ (.tail _ (.head _))⟩
  · exact (tokenize_line_by_line.1 hfirst _).1 _ hclosed
  · exact (tokenize_line_by_line.1 hfirst _).2 _ hopen

end Reql
