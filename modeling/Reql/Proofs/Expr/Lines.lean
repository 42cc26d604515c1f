/-
# `Reql.Proofs.Expr.Lines` — one expression a text

The end of a line is a cut.  Where a text could end, a newline leaves the lexer between
two tokens, whatever it was in the middle of, and what follows is read as on its own,
only further on (`tokenize_lines`).

The reader stops at the first complete expression: what it has taken so far decides how
it goes on (`Reader.run_append`), and from a complete expression no token leads on.  So a
text of two lines is refused at the second if both have an expression, and no proper
prefix of an expression is one (`Expr.parse_single`).
-/
import Mathlib.Data.String.Basic
import Reql.Proofs.Expr.Layout
import Reql.Proofs.Expr.Moves

namespace Reql

theorem Text.utf8ByteSize_eq (text : String) : text.utf8ByteSize = byteCount text.toList := by
  conv_lhs => rw [← String.ofList_toList (s := text)]
  rw [String.utf8ByteSize_ofList]
  induction text.toList with
  | nil => rfl
  | cons c cs ih => rw [String.utf8Len_cons, ih, byteCount_cons, Nat.add_comm]

open Text

/-! ## Further on in a text -/

/-- The same thing further on in a text. -/
def Placed.later {α : Type} (k : Nat) (x : Placed α) : Placed α := ⟨x.offset + k, x.value⟩

namespace Lexer

/-- The machine in the middle of the same thing further on. -/
def State.later (k : Nat) : State → State
  | .between => .between
  | .comment => .comment
  | .word start letters => .word (start + k) letters
  | .string start letters => .string (start + k) letters
  | .escape start backslash letters => .escape (start + k) (backslash + k) letters

/-- What the machine comes to further on. -/
def outcomeLater (k : Nat) (outcome : Except (Placed ReadError) (List (Placed Token))) :
    Except (Placed ReadError) (List (Placed Token)) :=
  match outcome with
  | .ok ts => .ok (ts.map (.later k))
  | .error fault => .error (fault.later k)

variable {offset k start : Nat} {c : Char} {state next : State} {ts : List (Placed Token)}

theorem wordToken_later (letters : List Char) :
    wordToken (start + k) letters =
      match wordToken start letters with
      | .ok token => .ok (token.later k)
      | .error fault => .error (fault.later k) := by
  unfold wordToken
  cases Token.ofWord letters.reverse <;> rfl

theorem begin_later :
    begin (offset + k) c = ((begin offset c).1.map (.later k), (begin offset c).2.later k) := by
  unfold begin
  split
  · rfl
  · split
    · rfl
    · split
      · rfl
      · cases Token.bracket? c <;> rfl

/-- The machine does the same further on. -/
theorem step_later :
    step (offset + k) c (state.later k) =
      match step offset c state with
      | .ok (ts, next) => .ok (ts.map (.later k), next.later k)
      | .error fault => .error (fault.later k) := by
  cases state with
  | between => exact congrArg Except.ok begin_later
  | comment =>
      simp only [State.later, step]
      split <;> rfl
  | word start letters =>
      simp only [State.later, step]
      split
      · rw [wordToken_later, begin_later]
        cases wordToken start letters <;> rfl
      · rfl
  | string start letters =>
      simp only [State.later, step]
      split
      · rfl
      · split <;> rfl
  | escape start backslash letters =>
      simp only [State.later, step]
      cases unescape? c <;> rfl

theorem finish_later : finish (state.later k) = outcomeLater k (finish state) := by
  cases state with
  | word start letters =>
      simp only [State.later, finish, wordToken_later]
      cases wordToken start letters <;> rfl
  | _ => rfl

theorem run_later (state : State) (cs : List Char) :
    run (offset + k) (state.later k) cs = outcomeLater k (run offset state cs) := by
  induction cs generalizing offset state with
  | nil => exact finish_later
  | cons c cs ih =>
      rw [run, run, step_later]
      cases step offset c state with
      | error fault => rfl
      | ok taken =>
          obtain ⟨ts, next⟩ := taken
          simp only [Nat.add_right_comm offset k c.utf8Size, ih]
          cases run (offset + c.utf8Size) next cs with
          | error fault => rfl
          | ok us => simp [outcomeLater]

/-! ## The end of a line -/

/-- Where the text could end, a newline completes the same tokens. -/
theorem step_newline (h : finish state = .ok ts) :
    step offset '\n' state = .ok (ts, .between) := by
  cases state with
  | between =>
      obtain rfl := Except.ok.inj h
      rfl
  | comment =>
      obtain rfl := Except.ok.inj h
      rfl
  | word start letters =>
      have hdelimiter : Token.isDelimiter '\n' = true := rfl
      have hbegin : begin offset '\n' = ([], .between) := rfl
      rw [finish] at h
      rw [step, if_pos hdelimiter, hbegin]
      cases hword : wordToken start letters with
      | error fault =>
          rw [hword] at h
          cases h
      | ok token =>
          rw [hword] at h
          obtain rfl := Except.ok.inj h
          rfl
  | string start letters => cases h
  | escape start backslash letters => cases h

theorem run_line {cs : List Char} (h : run offset state cs = .ok ts) (ds : List Char) :
    run offset state (cs ++ '\n' :: ds) =
      (run (offset + byteCount cs + 1) .between ds).map (ts ++ ·) := by
  induction cs generalizing offset state ts with
  | nil => exact run_of_step (step_newline h) ds
  | cons c cs ih =>
      rw [run] at h
      split at h
      · cases h
      · next tokens next hstep =>
          split at h
          · cases h
          · next later hlater =>
              obtain rfl := Except.ok.inj h
              rw [List.cons_append, run_of_step hstep, ih hlater, byteCount_cons,
                Nat.add_assoc offset]
              cases run (offset + (c.utf8Size + byteCount cs) + 1) .between ds with
              | error fault => rfl
              | ok us => simp only [Except.map, List.append_assoc]

end Lexer

/-- A line after a text adds its own tokens, further on, or fails with its own fault. -/
theorem tokenize_lines {a : String} {ts : List (Placed Token)} (h : tokenize a = .ok ts)
    (b : String) :
    tokenize (a ++ "\n" ++ b) =
      (Lexer.outcomeLater (a.utf8ByteSize + 1) (tokenize b)).map (ts ++ ·) := by
  have hline := Lexer.run_line h b.toList
  have hlater : Lexer.run (0 + (byteCount a.toList + 1)) .between b.toList =
      Lexer.outcomeLater (byteCount a.toList + 1) (Lexer.run 0 .between b.toList) :=
    Lexer.run_later .between b.toList
  have htext : (a ++ "\n" ++ b).toList = a.toList ++ '\n' :: b.toList := by simp
  rw [tokenize, htext, hline, Text.utf8ByteSize_eq, tokenize, ← hlater, Nat.zero_add, Nat.zero_add]

/-! ## The end of an expression -/

namespace Reader

variable {length : Nat} {state next : State} {ts us : List (Placed Token)}

/-- Tokens lead to one state only. -/
theorem Run.unique {last : State} (h : Run state ts next) (h' : Run state ts last) :
    next = last := by
  induction h with
  | nil => cases h' with | nil => rfl
  | cons hmove _ ih =>
      cases h' with
      | cons hmove' hrest =>
          obtain rfl := Except.ok.inj (hmove.step_eq_ok.symm.trans hmove'.step_eq_ok)
          exact ih hrest

/-- From a complete expression no token leads on. -/
theorem Run.of_done {e : Expr} (h : Run (.done e) ts next) : ts = [] := by
  cases h with
  | nil => rfl
  | cons hmove _ => exact nomatch hmove.step_eq_ok

/-- No expression is a proper prefix of another. -/
theorem Run.prefix_free {d e : Expr} (h : Run state ts (.done d))
    (h' : Run state (ts ++ us) (.done e)) : us = [] := by
  obtain ⟨middle, hfirst, hsecond⟩ := h'.split
  obtain rfl := h.unique hfirst
  exact hsecond.of_done

end Reader

/-- A text has exactly one expression.  If a line is added to it, the expression is the same
as long as there is no token in the line, and otherwise the first token there is at fault.
No proper prefix of the tokens of an expression is an expression. -/
theorem Expr.parse_single :
    (∀ {t u : String} {e : Expr} {us : List (Placed Token)}, Expr.parse t = .ok e →
      tokenize u = .ok us →
        (us = [] → Expr.parse (t ++ "\n" ++ u) = .ok e) ∧
        ∀ token rest, us = token :: rest →
          Expr.parse (t ++ "\n" ++ u) =
            .error ⟨t.utf8ByteSize + 1 + token.offset, .trailingInput⟩) ∧
    ∀ {length : Nat} {ts : List (Placed Token)} {e : Expr}, Reader.run length .start ts = .ok e →
      ∀ ps, ps <+: ts → ps ≠ ts → ∀ length' d, Reader.run length' .start ps ≠ .ok d := by
  constructor
  · intro t u e us ht hu
    rw [Expr.parse] at ht
    split at ht
    · next ts hts =>
        have hrun := Reader.run_eq_ok_iff.mp ht
        have hlines := tokenize_lines hts u
        rw [hu] at hlines
        have hparse : Expr.parse (t ++ "\n" ++ u) =
            Reader.run (t ++ "\n" ++ u).utf8ByteSize (.done e)
              (us.map (.later (t.utf8ByteSize + 1))) := by
          rw [Expr.parse, hlines]
          exact Reader.run_append hrun _
        constructor
        · rintro rfl
          exact hparse
        · rintro token rest rfl
          rw [hparse, Nat.add_comm _ token.offset]
          rfl
    · exact nomatch ht
  · rintro length ts e hts ps ⟨us, rfl⟩ hne length' d hps
    refine hne ?_
    rw [Reader.run_eq_ok_iff] at hts hps
    rw [hps.prefix_free hts, List.append_nil]

/-- A comment at the end of the first line, a second line with and without a token, and a
bracket that is not closed. -/
theorem Expr.parse_single_vector :
    Expr.parse "[] ; é" = .ok (.vector []) ∧
      Expr.parse ("[] ; é" ++ "\n" ++ ", ; b") = .ok (.vector []) ∧
      Expr.parse ("[] ; é" ++ "\n" ++ " nil)") = .error ⟨9, .trailingInput⟩ ∧
      Reader.run 2 .start [⟨0, .openVector⟩, ⟨1, .closeVector⟩] = .ok (.vector []) ∧
      ∀ length e, Reader.run length .start [⟨0, .openVector⟩] ≠ .ok e := by
  have hfirst : Expr.parse "[] ; é" = .ok (.vector []) := rfl
  have hcomment : tokenize ", ; b" = .ok [] := rfl
  have htokens : tokenize " nil)" = .ok [⟨1, .null⟩, ⟨4, .closeList⟩] := rfl
  have hread : Reader.run 2 .start [⟨0, .openVector⟩, ⟨1, .closeVector⟩] = .ok (.vector []) := rfl
  refine ⟨hfirst, (parse_single.1 hfirst hcomment).1 rfl, ?_, hread, ?_⟩
  · exact (parse_single.1 hfirst htokens).2 _ _ rfl
  · exact parse_single.2 hread _ ⟨[⟨1, .closeVector⟩], rfl⟩ (by simp)

end Reql
