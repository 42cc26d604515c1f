/-
# `Reql.Proofs.Expr.Layout` — how tokens stand in a text

`Layout` says how a text is written around given tokens: gaps, then a spelling of a
token, then gaps again.  A gap is any run of white space, commas and comments.  Words
must not touch, so a word is followed by a delimiter or the end.

The main statement is `tokenize_eq_ok_iff`: the tokens of a text are the ones that it
is laid out with.  From left to right the invariant is `Seen`, what the machine has read
since the last token was complete.
-/
import Mathlib.Algebra.GroupWithZero.Nat
import Mathlib.Tactic.SplitIfs
import Reql.Expr.Lexer
import Reql.Proofs.Double.Numeral

namespace Reql

/-! ## Bytes -/

/-- How many bytes characters take. -/
def Text.byteCount (cs : List Char) : Nat := (cs.map Char.utf8Size).sum

namespace Text

@[simp] theorem byteCount_nil : byteCount [] = 0 := rfl

@[simp] theorem byteCount_cons (c : Char) (cs : List Char) :
    byteCount (c :: cs) = c.utf8Size + byteCount cs := rfl

@[simp] theorem byteCount_append (cs ds : List Char) :
    byteCount (cs ++ ds) = byteCount cs + byteCount ds := by
  simp [byteCount]

end Text

/-! ## Spelling -/

namespace Token

/-- Letters of a word: some, and no delimiter among them. -/
def IsWord (letters : List Char) : Prop := letters ≠ [] ∧ ∀ c ∈ letters, isDelimiter c = false

instance (letters : List Char) : Decidable (IsWord letters) :=
  decidable_of_iff (letters ≠ [] ∧ letters.all (fun c => !isDelimiter c) = true)
    (by simp [IsWord])

/-- The words that mean a constant. -/
def constants : List String := ["true", "false", "nil", "null"]

/-- A word that is no constant, no number and no keyword. -/
structure IsName (name : String) : Prop where
  word : IsWord name.toList
  keyword : name.toList.head? ≠ some ':'
  constant : name ∉ constants
  number : beginsNumber name.toList = false

/-- What a letter after a backslash means. -/
inductive Escape : Char → Char → Prop where
  | quote : Escape '"' '"'
  | backslash : Escape '\\' '\\'
  | newline : Escape 'n' '\n'
  | tab : Escape 't' '\t'

/-- How the characters of a string are written: an escape, or the character itself
unless it is a quote or a backslash. -/
inductive Quoted : List Char → List Char → Prop where
  | nil : Quoted [] []
  | plain {c : Char} {raw content : List Char} : c ≠ '"' → c ≠ '\\' → Quoted raw content →
      Quoted (raw ++ [c]) (content ++ [c])
  | escape {letter c : Char} {raw content : List Char} : Escape letter c → Quoted raw content →
      Quoted (raw ++ ['\\', letter]) (content ++ [c])

/-- The ways of writing a token. -/
inductive Spelled : Token → List Char → Prop where
  | openList : Spelled .openList ['(']
  | closeList : Spelled .closeList [')']
  | openVector : Spelled .openVector ['[']
  | closeVector : Spelled .closeVector [']']
  | openMap : Spelled .openMap ['\x7b']
  | closeMap : Spelled .closeMap ['\x7d']
  | true : Spelled (.bool true) "true".toList
  | false : Spelled (.bool false) "false".toList
  | nil : Spelled .null "nil".toList
  | null : Spelled .null "null".toList
  | number {letters : List Char} {value : Double} : IsWord letters → beginsNumber letters = true →
      Double.ofText? (String.ofList letters) = some value → Spelled (.number value) letters
  | string {raw content : List Char} : Quoted raw content →
      Spelled (.string (String.ofList content)) ('"' :: (raw ++ ['"']))
  | keyword {name : String} : IsWord name.toList → Spelled (.keyword name) (':' :: name.toList)
  | symbol {name : String} : IsName name → Spelled (.symbol name) name.toList

/-- Whether a token is a word. -/
def isWord : Token → Bool
  | .null => true
  | .bool _ => true
  | .number _ => true
  | .keyword _ => true
  | .symbol _ => true
  | _ => false

/-! ## Layout -/

/-- What may stand between tokens: separators, and comments with the ends of their lines. -/
inductive Gap : List Char → Prop where
  | nil : Gap []
  | separator {c : Char} {gap : List Char} : isSeparator c = true → Gap gap → Gap (c :: gap)
  | comment {body gap : List Char} : '\n' ∉ body → Gap gap → Gap (';' :: (body ++ '\n' :: gap))

/-- No letter of a word can come next. -/
def Ends (cs : List Char) : Prop := ∀ c ∈ cs.head?, isDelimiter c = true

/-- From an offset on, the characters are the given tokens with gaps around them.  The last
comment may lack the end of its line. -/
inductive Layout : Nat → List (Placed Token) → List Char → Prop where
  | gap {offset : Nat} {gap : List Char} : Gap gap → Layout offset [] gap
  | comment {offset : Nat} {gap body : List Char} : Gap gap → '\n' ∉ body →
      Layout offset [] (gap ++ ';' :: body)
  | token {offset : Nat} {gap letters : List Char} {token : Token} {ts : List (Placed Token)}
      {cs : List Char} : Gap gap → Spelled token letters → (token.isWord = true → Ends cs) →
      Layout (offset + Text.byteCount gap + Text.byteCount letters) ts cs →
      Layout offset (⟨offset + Text.byteCount gap, token⟩ :: ts) (gap ++ (letters ++ cs))

end Token

open Token Text

/-! ## Delimiters and brackets -/

namespace Token

theorem isDelimiter_eq_false_iff {c : Char} :
    isDelimiter c = false ↔ isSeparator c = false ∧ c ≠ ';' ∧ c ≠ '"' ∧ bracket? c = none := by
  simp [isDelimiter, and_assoc]

theorem spelled_of_bracket? {c : Char} {token : Token} (h : bracket? c = some token) :
    Spelled token [c] ∧ token.isWord = false := by
  unfold bracket? at h
  split_ifs at h with hc hc hc hc hc hc
  all_goals
    subst hc
    obtain rfl := Option.some.inj h
  · exact ⟨.openList, rfl⟩
  · exact ⟨.closeList, rfl⟩
  · exact ⟨.openVector, rfl⟩
  · exact ⟨.closeVector, rfl⟩
  · exact ⟨.openMap, rfl⟩
  · exact ⟨.closeMap, rfl⟩

/-! ## Words -/

theorem not_isWord_of_delimiter {c : Char} {letters : List Char} (hc : isDelimiter c = true) :
    ¬ IsWord (c :: letters) := by
  intro h
  simp [h.2 c (.head _)] at hc

theorem toList_of_ofList_eq {letters : List Char} {word : String}
    (h : String.ofList letters = word) : letters = word.toList := by
  rw [← h, String.toList_ofList]

/-- A word that is no constant. -/
theorem ofWord_of_not_constant {letters : List Char} : String.ofList letters ∉ constants →
    ofWord letters =
      if beginsNumber letters then
        match Double.ofText? (String.ofList letters) with
        | some value => .ok (.number value)
        | none => .error (.invalidNumber (String.ofList letters))
      else
        match letters with
        | [':'] => .error .emptyKeyword
        | ':' :: name => .ok (.keyword (String.ofList name))
        | _ => .ok (.symbol (String.ofList letters)) := by
  intro h
  simp only [constants, List.mem_cons, List.not_mem_nil, or_false, not_or] at h
  obtain ⟨htrue, hfalse, hnil, hnull⟩ := h
  exact (if_neg htrue).trans ((if_neg hfalse).trans (if_neg (not_or.mpr ⟨hnil, hnull⟩)))

theorem spelled_of_ofWord {letters : List Char} (h : IsWord letters) {token : Token}
    (htoken : ofWord letters = .ok token) : Spelled token letters := by
  by_cases hconstant : String.ofList letters ∈ constants
  · simp only [constants, List.mem_cons, List.not_mem_nil, or_false] at hconstant
    rcases hconstant with hword | hword | hword | hword
    all_goals
      obtain rfl := toList_of_ofList_eq hword
      obtain rfl := Except.ok.inj htoken
    · exact .true
    · exact .false
    · exact .nil
    · exact .null
  · rw [ofWord_of_not_constant hconstant] at htoken
    split at htoken
    · next hnumber =>
        split at htoken
        · next hvalue =>
            obtain rfl := Except.ok.inj htoken
            exact .number h hnumber hvalue
        · exact nomatch htoken
    · next hnumber =>
        split at htoken
        · exact nomatch htoken
        · next name hname =>
            obtain rfl := Except.ok.inj htoken
            have hword : IsWord (String.ofList name).toList := by
              rw [String.toList_ofList]
              refine ⟨?_, fun c hc => h.2 c (.tail _ hc)⟩
              rintro rfl
              exact hname rfl
            simpa using Spelled.keyword hword
        · next _ hkeyword =>
            obtain rfl := Except.ok.inj htoken
            have hname : IsName (String.ofList letters) := by
              refine ⟨?_, ?_, hconstant, ?_⟩
              · rwa [String.toList_ofList]
              · rw [String.toList_ofList]
                intro hhead
                obtain ⟨name, rfl⟩ := List.head?_eq_some_iff.mp hhead
                exact hkeyword name rfl
              · rw [String.toList_ofList]
                simpa using hnumber
            simpa using Spelled.symbol hname

theorem ofWord_of_spelled {letters : List Char} (h : IsWord letters) {token : Token}
    (htoken : Spelled token letters) : ofWord letters = .ok token := by
  cases htoken with
  | openList | closeList | openVector | closeVector | openMap | closeMap =>
      exact absurd h (not_isWord_of_delimiter rfl)
  | string _ => exact absurd h (not_isWord_of_delimiter rfl)
  | true | false | nil | null => rfl
  | number _ hnumber hvalue =>
      have hconstant : String.ofList letters ∉ constants := by
        intro hconstant
        simp only [constants, List.mem_cons, List.not_mem_nil, or_false] at hconstant
        rcases hconstant with hword | hword | hword | hword
        all_goals
          obtain rfl := toList_of_ofList_eq hword
          exact nomatch hnumber
      rw [ofWord_of_not_constant hconstant, if_pos hnumber, hvalue]
  | @keyword name hname =>
      have hconstant : String.ofList (':' :: name.toList) ∉ constants := by
        intro hconstant
        simp only [constants, List.mem_cons, List.not_mem_nil, or_false] at hconstant
        rcases hconstant with hword | hword | hword | hword
        all_goals exact nomatch toList_of_ofList_eq hword
      have hnumber : beginsNumber (':' :: name.toList) = false := rfl
      rw [ofWord_of_not_constant hconstant, hnumber]
      simp [hname.1]
  | @symbol name hname =>
      have hconstant : String.ofList name.toList ∉ constants := by
        rw [String.ofList_toList]
        exact hname.constant
      rw [ofWord_of_not_constant hconstant, hname.number]
      have hkeyword := hname.keyword
      simp only [Bool.false_eq_true, if_false, String.ofList_toList]
      split
      · next hletters => simp [hletters] at hkeyword
      · next hletters => simp [hletters] at hkeyword
      · rfl

/-- What a word means is what it spells. -/
theorem ofWord_eq_ok_iff {letters : List Char} (h : IsWord letters) {token : Token} :
    ofWord letters = .ok token ↔ Spelled token letters :=
  ⟨spelled_of_ofWord h, ofWord_of_spelled h⟩

/-- Words have no delimiter, other tokens do. -/
theorem isWord_of_spelled {token : Token} {letters : List Char} (h : Spelled token letters)
    (hword : token.isWord = true) : IsWord letters := by
  cases h with
  | openList | closeList | openVector | closeVector | openMap | closeMap | string _ =>
      exact nomatch hword
  | true | false | nil | null => decide
  | number hletters _ _ => exact hletters
  | keyword hname =>
      refine ⟨nofun, ?_⟩
      intro c hc
      rcases List.mem_cons.mp hc with rfl | hc
      · rfl
      · exact hname.2 c hc
  | symbol hname => exact hname.word

end Token

/-! ## The machine on one token -/

namespace Lexer

theorem begin_of_not_delimiter {c : Char} (h : isDelimiter c = false) (offset : Nat) :
    begin offset c = ([], .word offset [c]) := by
  obtain ⟨hseparator, hcomment, hquote, hbracket⟩ := isDelimiter_eq_false_iff.mp h
  simp [begin, hseparator, hcomment, hquote, hbracket]

theorem begin_of_bracket? {c : Char} {token : Token} (h : bracket? c = some token) (offset : Nat) :
    begin offset c = ([⟨offset, token⟩], .between) := by
  have hseparator : isSeparator c = false ∧ c ≠ ';' ∧ c ≠ '"' := by
    unfold bracket? at h
    split_ifs at h with hc hc hc hc hc hc
    all_goals
      subst hc
      decide
  simp [begin, hseparator, h]

theorem run_of_step {offset : Nat} {c : Char} {state next : State} {ts : List (Placed Token)}
    (h : step offset c state = .ok (ts, next)) (cs : List Char) :
    run offset state (c :: cs) = (run (offset + c.utf8Size) next cs).map (ts ++ ·) := by
  rw [run, h]
  simp only
  cases run (offset + c.utf8Size) next cs <;> rfl

/-- A character that completes no token. -/
theorem run_silent {offset : Nat} {c : Char} {state next : State}
    (h : step offset c state = .ok ([], next)) (cs : List Char) :
    run offset state (c :: cs) = run (offset + c.utf8Size) next cs := by
  rw [run_of_step h]
  cases run (offset + c.utf8Size) next cs <;> rfl

theorem run_separator {c : Char} (h : isSeparator c = true) (offset : Nat) (cs : List Char) :
    run offset .between (c :: cs) = run (offset + c.utf8Size) .between cs :=
  run_silent (by simp [step, begin, h]) cs

theorem run_bracket {c : Char} {token : Token} (h : bracket? c = some token) (offset : Nat)
    (cs : List Char) : run offset .between (c :: cs) =
      (run (offset + c.utf8Size) .between cs).map (⟨offset, token⟩ :: ·) := by
  have hstep : step offset c .between = .ok ([⟨offset, token⟩], .between) := by
    rw [step, begin_of_bracket? h]
  exact run_of_step hstep cs

theorem run_comment {body : List Char} (h : '\n' ∉ body) (offset : Nat) (cs : List Char) :
    run offset .comment (body ++ cs) = run (offset + byteCount body) .comment cs := by
  induction body generalizing offset with
  | nil => rfl
  | cons c body ih =>
      simp only [List.mem_cons, not_or] at h
      have hc : step offset c .comment = .ok ([], .comment) := by simp [step, Ne.symm h.1]
      rw [List.cons_append, run_silent hc, ih h.2, byteCount_cons, Nat.add_assoc]

theorem run_gap {gap : List Char} (h : Gap gap) (offset : Nat) (cs : List Char) :
    run offset .between (gap ++ cs) = run (offset + byteCount gap) .between cs := by
  induction h generalizing offset with
  | nil => rfl
  | @separator c gap hc _ ih =>
      rw [List.cons_append, run_separator hc, ih, byteCount_cons, Nat.add_assoc]
  | @comment body gap hbody _ ih =>
      have hopen : step offset ';' .between = .ok ([], .comment) := rfl
      have hclose (offset : Nat) : step offset '\n' .comment = .ok ([], .between) := rfl
      rw [List.cons_append, List.append_assoc, List.cons_append, run_silent hopen,
        run_comment hbody, run_silent (hclose _), ih]
      simp [Nat.add_assoc]

theorem run_quoted {raw content : List Char} (h : Quoted raw content) (offset start : Nat)
    (letters cs : List Char) :
    run offset (.string start letters) (raw ++ cs) =
      run (offset + byteCount raw) (.string start (content.reverse ++ letters)) cs := by
  induction h generalizing cs with
  | nil => rfl
  | @plain c raw content hquote hbackslash _ ih =>
      have hc (offset : Nat) (letters : List Char) :
          step offset c (.string start letters) = .ok ([], .string start (c :: letters)) := by
        simp [step, hquote, hbackslash]
      rw [List.append_assoc, ih, List.singleton_append, run_silent (hc _ _)]
      simp [Nat.add_assoc]
  | @escape letter c raw content hescape _ ih =>
      have hbackslash (offset : Nat) (letters : List Char) :
          step offset '\\' (.string start letters) = .ok ([], .escape start offset letters) := rfl
      have hc (offset backslash : Nat) (letters : List Char) :
          step offset letter (.escape start backslash letters) =
            .ok ([], .string start (c :: letters)) := by
        cases hescape <;> rfl
      rw [List.append_assoc, ih, List.cons_append, List.cons_append, List.nil_append,
        run_silent (hbackslash _ _), run_silent (hc _ _ _)]
      simp [Nat.add_assoc]

theorem run_letters {letters : List Char} (h : ∀ c ∈ letters, isDelimiter c = false)
    (offset start : Nat) (before cs : List Char) :
    run offset (.word start before) (letters ++ cs) =
      run (offset + byteCount letters) (.word start (letters.reverse ++ before)) cs := by
  induction letters generalizing offset before with
  | nil => rfl
  | cons c letters ih =>
      obtain ⟨hc, hletters⟩ := List.forall_mem_cons.mp h
      have hstep : step offset c (.word start before) = .ok ([], .word start (c :: before)) := by
        simp [step, hc]
      rw [List.cons_append, run_silent hstep, ih hletters]
      simp [Nat.add_assoc]

/-- A word is over when a delimiter or the end comes next. -/
theorem run_word_end {start : Nat} {letters : List Char} {token : Token}
    (h : ofWord letters.reverse = .ok token) {cs : List Char} (hcs : Ends cs) (offset : Nat) :
    run offset (.word start letters) cs =
      (run offset .between cs).map (⟨start, token⟩ :: ·) := by
  have htoken : wordToken start letters = .ok ⟨start, token⟩ := by simp [wordToken, h]
  cases cs with
  | nil => simp [run, finish, htoken, Except.map]
  | cons c cs =>
      have hc : isDelimiter c = true := hcs c rfl
      have hstep : step offset c (.word start letters) =
          .ok (⟨start, token⟩ :: (begin offset c).1, (begin offset c).2) := by
        simp [step, hc, htoken]
      have hbetween : step offset c .between = .ok ((begin offset c).1, (begin offset c).2) := rfl
      rw [run_of_step hstep, run_of_step hbetween]
      cases run (offset + c.utf8Size) (begin offset c).2 cs <;> rfl

/-- A spelled token is read as that token. -/
theorem run_spelled {token : Token} {letters : List Char} (h : Spelled token letters)
    {cs : List Char} (hcs : token.isWord = true → Ends cs) (offset : Nat) :
    run offset .between (letters ++ cs) =
      (run (offset + byteCount letters) .between cs).map (⟨offset, token⟩ :: ·) := by
  cases hword : token.isWord with
  | true =>
      have hletters := isWord_of_spelled h hword
      obtain ⟨c, rest, rfl⟩ := List.exists_cons_of_ne_nil hletters.1
      obtain ⟨hc, hrest⟩ := List.forall_mem_cons.mp hletters.2
      have hbegin : step offset c .between = .ok ([], .word offset [c]) := by
        rw [step, begin_of_not_delimiter hc]
      have hmeant : ofWord (rest.reverse ++ [c]).reverse = .ok token := by
        simpa using ofWord_of_spelled hletters h
      rw [List.cons_append, run_silent hbegin, run_letters hrest, run_word_end hmeant (hcs hword),
        byteCount_cons, Nat.add_assoc]
  | false =>
      cases h with
      | openList | closeList | openVector | closeVector | openMap | closeMap =>
          exact run_bracket rfl offset cs
      | @string raw content hraw =>
          have hopen : step offset '"' .between = .ok ([], .string offset []) := rfl
          have hclose (place : Nat) : step place '"' (.string offset (content.reverse ++ [])) =
              .ok ([⟨offset, .string (String.ofList content)⟩], .between) := by
            simp [step]
          rw [List.cons_append, List.append_assoc, run_silent hopen, run_quoted hraw,
            List.singleton_append, run_of_step (hclose _)]
          simp [Nat.add_assoc]
      | true | false | nil | null | number _ _ _ | keyword _ | symbol _ => exact nomatch hword

/-- The tokens that characters are laid out with are read. -/
theorem run_of_layout {offset : Nat} {ts : List (Placed Token)} {cs : List Char}
    (h : Layout offset ts cs) : run offset .between cs = .ok ts := by
  induction h with
  | @gap offset gap hgap =>
      have h := run_gap hgap offset []
      rwa [List.append_nil] at h
  | @comment offset gap body hgap hbody =>
      have hopen (offset : Nat) : step offset ';' .between = .ok ([], .comment) := rfl
      have h := run_comment hbody (offset + byteCount gap + 1) []
      rw [List.append_nil] at h
      rw [run_gap hgap, run_silent (hopen _)]
      exact h
  | token hgap hspelled hends _ ih =>
      rw [run_gap hgap, run_spelled hspelled hends, ih]
      rfl

/-! ## What the machine has seen -/

/-- The characters read since the last token was complete. -/
inductive Seen : State → Nat → List Char → Prop where
  | between (start : Nat) : Seen .between start []
  | comment (start : Nat) {body : List Char} : '\n' ∉ body → Seen .comment start (';' :: body)
  | word (start : Nat) {letters : List Char} : IsWord letters.reverse →
      Seen (.word start letters) start letters.reverse
  | string (start : Nat) {raw letters : List Char} : Quoted raw letters.reverse →
      Seen (.string start letters) start ('"' :: raw)
  | escape (start backslash : Nat) {raw letters : List Char} : Quoted raw letters.reverse →
      Seen (.escape start backslash letters) start ('"' :: (raw ++ ['\\']))

theorem gap_append {gap gap' : List Char} (h : Gap gap) (h' : Gap gap') : Gap (gap ++ gap') := by
  induction h with
  | nil => exact h'
  | separator hc _ ih => exact .separator hc ih
  | comment hbody _ ih =>
      rw [List.cons_append, List.append_assoc]
      exact .comment hbody ih

/-- A gap before a layout belongs to it. -/
theorem layout_of_gap {gap : List Char} (hgap : Gap gap) {offset : Nat}
    {ts : List (Placed Token)} {cs : List Char} (h : Layout (offset + byteCount gap) ts cs) :
    Layout offset ts (gap ++ cs) := by
  generalize hstart : offset + byteCount gap = start at h
  cases h with
  | gap hgap' => exact .gap (gap_append hgap hgap')
  | comment hgap' hbody =>
      rw [← List.append_assoc]
      exact .comment (gap_append hgap hgap') hbody
  | @token _ gap' letters token ts cs hgap' hspelled hends hrest =>
      subst hstart
      rw [← List.append_assoc]
      rw [Nat.add_assoc offset, ← byteCount_append] at hrest ⊢
      exact .token (gap_append hgap hgap') hspelled hends hrest

theorem ends_nil : Ends [] := by
  simp [Ends]

theorem layout_of_spelled {token : Token} {letters : List Char} (hspelled : Spelled token letters)
    {offset : Nat} {ts : List (Placed Token)} {cs : List Char}
    (hends : token.isWord = true → Ends cs) (h : Layout (offset + byteCount letters) ts cs) :
    Layout offset (⟨offset, token⟩ :: ts) (letters ++ cs) :=
  .token .nil hspelled hends h

theorem exists_of_map_eq_ok {α β : Type} {x : Except (Placed ReadError) α} {f : α → β} {b : β}
    (h : x.map f = .ok b) : ∃ a, x = .ok a ∧ f a = b := by
  cases x with
  | ok a => exact ⟨a, rfl, Except.ok.inj h⟩
  | error _ => exact nomatch h

theorem escape_of_unescape? {letter c : Char} (h : unescape? letter = some c) :
    Escape letter c := by
  unfold unescape? at h
  split_ifs at h with hletter hletter hletter hletter
  all_goals
    subst hletter
    obtain rfl := Option.some.inj h
  · exact .quote
  · exact .backslash
  · exact .newline
  · exact .tab

/-- The end of the text. -/
theorem layout_of_finish {state : State} {start : Nat} {seen : List Char}
    (hseen : Seen state start seen) {ts : List (Placed Token)} (h : finish state = .ok ts) :
    Layout start ts seen := by
  cases hseen with
  | between =>
      obtain rfl := Except.ok.inj h
      exact .gap .nil
  | comment _ hbody =>
      obtain rfl := Except.ok.inj h
      exact .comment .nil hbody
  | @word _ letters hletters =>
      cases hmeant : ofWord letters.reverse with
      | error cause => simp [finish, wordToken, hmeant] at h
      | ok token =>
          obtain rfl : [⟨start, token⟩] = ts := by simpa [finish, wordToken, hmeant] using h
          have hspelled := spelled_of_ofWord hletters hmeant
          have hlayout : Layout start [⟨start, token⟩] (letters.reverse ++ []) :=
            layout_of_spelled hspelled (fun _ => ends_nil) (.gap .nil)
          rwa [List.append_nil] at hlayout
  | string | escape => exact nomatch h

/-- Whatever has been seen before them, characters are laid out as they are read. -/
def LaidOut (cs : List Char) : Prop :=
  ∀ {state : State} {start : Nat} {seen : List Char} {ts : List (Placed Token)},
    Seen state start seen → run (start + byteCount seen) state cs = .ok ts →
      Layout start ts (seen ++ cs)

section

variable {c : Char} {cs : List Char} {start : Nat} {ts : List (Placed Token)}

/-- A character that goes on with what was seen. -/
theorem layout_of_silent (ih : LaidOut cs) {state next : State} {seen : List Char}
    (hstep : step (start + byteCount seen) c state = .ok ([], next))
    (hnext : Seen next start (seen ++ [c]))
    (h : run (start + byteCount seen) state (c :: cs) = .ok ts) :
    Layout start ts (seen ++ c :: cs) := by
  rw [run_silent hstep] at h
  rw [← List.singleton_append, ← List.append_assoc]
  refine ih hnext ?_
  simpa [Nat.add_assoc] using h

theorem layout_of_begin (ih : LaidOut cs) {offset : Nat}
    (h : run offset .between (c :: cs) = .ok ts) : Layout offset ts (c :: cs) := by
  cases hseparator : isSeparator c with
  | true =>
      rw [run_separator hseparator] at h
      exact layout_of_gap (.separator hseparator .nil) (ih (.between _) h)
  | false =>
      by_cases hcomment : c = ';'
      · subst hcomment
        have hopen : step offset ';' .between = .ok ([], .comment) := rfl
        rw [run_silent hopen] at h
        exact ih (.comment offset List.not_mem_nil) h
      · by_cases hquote : c = '"'
        · subst hquote
          have hopen : step offset '"' .between = .ok ([], .string offset []) := rfl
          rw [run_silent hopen] at h
          have hseen : Seen (.string offset []) offset ['"'] := .string offset .nil
          exact ih hseen h
        · cases hbracket : bracket? c with
          | some token =>
              rw [run_bracket hbracket] at h
              obtain ⟨later, hlater, rfl⟩ := exists_of_map_eq_ok h
              obtain ⟨hspelled, hword⟩ := spelled_of_bracket? hbracket
              have hends : token.isWord = true → Ends cs :=
                fun htrue => nomatch hword.symm.trans htrue
              exact layout_of_spelled hspelled hends (ih (.between _) hlater)
          | none =>
              have hdelimiter : isDelimiter c = false :=
                isDelimiter_eq_false_iff.mpr ⟨hseparator, hcomment, hquote, hbracket⟩
              have hopen : step offset c .between = .ok ([], .word offset [c]) := by
                rw [step, begin_of_not_delimiter hdelimiter]
              rw [run_silent hopen] at h
              have hword : IsWord [c].reverse := ⟨nofun, by simpa using hdelimiter⟩
              exact ih (.word offset hword) h

theorem layout_in_comment (ih : LaidOut cs) {body : List Char} (hbody : '\n' ∉ body)
    (h : run (start + byteCount (';' :: body)) .comment (c :: cs) = .ok ts) :
    Layout start ts (';' :: body ++ c :: cs) := by
  by_cases hc : c = '\n'
  · subst hc
    have hclose (place : Nat) : step place '\n' .comment = .ok ([], .between) := rfl
    rw [run_silent (hclose _)] at h
    have hgap : Gap (';' :: (body ++ ['\n'])) := .comment hbody .nil
    have hrest := ih (.between (start + byteCount (';' :: (body ++ ['\n']))))
      (by simpa [Nat.add_assoc] using h)
    simpa using layout_of_gap hgap hrest
  · have hstep (place : Nat) : step place c .comment = .ok ([], .comment) := by
      simp [step, hc]
    refine layout_of_silent ih (hstep _) ?_ h
    exact .comment start (by simpa [eq_comm] using ⟨hbody, hc⟩)

theorem layout_in_word (ih : LaidOut cs) {letters : List Char} (hletters : IsWord letters.reverse)
    (h : run (start + byteCount letters.reverse) (.word start letters) (c :: cs) = .ok ts) :
    Layout start ts (letters.reverse ++ c :: cs) := by
  cases hc : isDelimiter c with
  | true =>
      cases hmeant : ofWord letters.reverse with
      | error cause => simp [run, step, hc, wordToken, hmeant] at h
      | ok token =>
          have hends : Ends (c :: cs) := by simpa [Ends] using hc
          rw [run_word_end hmeant hends] at h
          obtain ⟨later, hlater, rfl⟩ := exists_of_map_eq_ok h
          have hspelled := spelled_of_ofWord hletters hmeant
          exact layout_of_spelled hspelled (fun _ => hends) (layout_of_begin ih hlater)
  | false =>
      have hstep (place : Nat) : step place c (.word start letters) =
          .ok ([], .word start (c :: letters)) := by
        simp [step, hc]
      have hmore : IsWord (c :: letters).reverse := by
        obtain ⟨-, hall⟩ := hletters
        refine ⟨by simp, ?_⟩
        rw [List.reverse_cons]
        exact List.forall_mem_append.mpr ⟨hall, List.forall_mem_singleton.mpr hc⟩
      refine layout_of_silent ih (hstep _) ?_ h
      rw [← List.reverse_cons]
      exact .word start hmore

theorem layout_in_string (ih : LaidOut cs) {raw letters : List Char}
    (hraw : Quoted raw letters.reverse)
    (h : run (start + byteCount ('"' :: raw)) (.string start letters) (c :: cs) = .ok ts) :
    Layout start ts ('"' :: raw ++ c :: cs) := by
  by_cases hquote : c = '"'
  · subst hquote
    have hclose (place : Nat) : step place '"' (.string start letters) =
        .ok ([⟨start, .string (String.ofList letters.reverse)⟩], .between) := by
      simp [step]
    rw [run_of_step (hclose _)] at h
    obtain ⟨later, hlater, rfl⟩ := exists_of_map_eq_ok h
    have hspelled := Spelled.string hraw
    have hrest := ih (.between (start + byteCount ('"' :: (raw ++ ['"']))))
      (by simpa [Nat.add_assoc] using hlater)
    simpa using layout_of_spelled hspelled nofun hrest
  · by_cases hbackslash : c = '\\'
    · subst hbackslash
      have hstep (place : Nat) : step place '\\' (.string start letters) =
          .ok ([], .escape start place letters) := by
        simp [step]
      exact layout_of_silent ih (hstep _) (.escape start _ hraw) h
    · have hstep (place : Nat) : step place c (.string start letters) =
          .ok ([], .string start (c :: letters)) := by
        simp [step, hquote, hbackslash]
      refine layout_of_silent ih (hstep _) (.string start ?_) h
      rw [List.reverse_cons]
      exact .plain hquote hbackslash hraw

theorem layout_in_escape (ih : LaidOut cs) {backslash : Nat} {raw letters : List Char}
    (hraw : Quoted raw letters.reverse)
    (h : run (start + byteCount ('"' :: (raw ++ ['\\']))) (.escape start backslash letters)
      (c :: cs) = .ok ts) :
    Layout start ts ('"' :: (raw ++ ['\\']) ++ c :: cs) := by
  cases hmeant : unescape? c with
  | none => simp [run, step, hmeant] at h
  | some meant =>
      have hstep (place : Nat) : step place c (.escape start backslash letters) =
          .ok ([], .string start (meant :: letters)) := by
        simp [step, hmeant]
      refine layout_of_silent ih (hstep _) ?_ h
      rw [List.cons_append, List.append_assoc]
      refine .string start ?_
      rw [List.reverse_cons]
      exact .escape (escape_of_unescape? hmeant) hraw

end

/-- What is read is laid out. -/
theorem laidOut (cs : List Char) : LaidOut cs := by
  induction cs with
  | nil =>
      intro state start seen ts hseen h
      rw [List.append_nil]
      exact layout_of_finish hseen h
  | cons c cs ih =>
      intro state start seen ts hseen h
      cases hseen with
      | between => exact layout_of_begin ih h
      | comment _ hbody => exact layout_in_comment ih hbody h
      | word _ hletters => exact layout_in_word ih hletters h
      | string _ hraw => exact layout_in_string ih hraw h
      | escape _ _ hraw => exact layout_in_escape ih hraw h

end Lexer

/-- The tokens of a text are the ones that it is laid out with. -/
theorem tokenize_eq_ok_iff {text : String} {ts : List (Placed Token)} :
    tokenize text = .ok ts ↔ Layout 0 ts text.toList :=
  ⟨fun h => Lexer.laidOut text.toList (.between 0) h, Lexer.run_of_layout⟩

/-! ## What a token can be -/

namespace Token

/-- A token that has a spelling. -/
def Proper : Token → Prop
  | .number value => value ≠ .nan
  | .keyword name => IsWord name.toList
  | .symbol name => IsName name
  | _ => True

/-- What begins like a number never means that there is none. -/
theorem ofText?_ne_nan {letters : List Char} (h : beginsNumber letters = true) {value : Double}
    (hvalue : Double.ofText? (String.ofList letters) = some value) : value ≠ .nan := by
  rw [Double.ofText?, Double.Format.read?_eq, String.toList_ofList] at hvalue
  -- the sign is off, and a digit or a point comes next
  have hdigits : ∃ c rest, (Double.Numeral.splitSign letters).2 = c :: rest ∧
      (c.isDigit = true ∨ c = '.') := by
    cases letters with
    | nil => exact nomatch h
    | cons c rest =>
        simp only [beginsNumber, Bool.or_eq_true, Bool.and_eq_true, beq_iff_eq,
          Option.any_eq_true] at h
        rcases h with hdigit | ⟨(rfl | rfl) | rfl, d, hd, hdigit⟩
        · refine ⟨c, rest, ?_, .inl hdigit⟩
          unfold Double.Numeral.splitSign
          split
          · next hminus =>
              obtain rfl := (List.cons.inj hminus).1
              exact absurd hdigit (by decide)
          · next hplus =>
              obtain rfl := (List.cons.inj hplus).1
              exact absurd hdigit (by decide)
          · rfl
        · obtain ⟨digits, rfl⟩ := List.head?_eq_some_iff.mp hd
          exact ⟨d, digits, rfl, .inl hdigit⟩
        · obtain ⟨digits, rfl⟩ := List.head?_eq_some_iff.mp hd
          exact ⟨d, digits, rfl, .inl hdigit⟩
        · exact ⟨'.', rest, rfl, .inr rfl⟩
  obtain ⟨c, rest, hrest, hc⟩ := hdigits
  rw [hrest] at hvalue
  exact Double.Numeral.round_decimal_ne_nan _ hc hvalue

theorem proper_of_spelled {token : Token} {letters : List Char} (h : Spelled token letters) :
    token.Proper := by
  cases h with
  | number _ hnumber hvalue => exact ofText?_ne_nan hnumber hvalue
  | keyword hname => exact hname
  | symbol hname => exact hname
  | _ => trivial

theorem proper_of_layout {offset : Nat} {ts : List (Placed Token)} {cs : List Char}
    (h : Layout offset ts cs) : ∀ t ∈ ts, t.value.Proper := by
  induction h with
  | gap _ => exact List.forall_mem_nil _
  | comment _ _ => exact List.forall_mem_nil _
  | token _ hspelled _ _ ih => exact List.forall_mem_cons.mpr ⟨proper_of_spelled hspelled, ih⟩

end Token

end Reql
