/-
# `Reql.Proofs.Expr.Positions` — the positions in errors and expressions are real

An offset is made in one way only, by counting the bytes before a character or before the
end.  The lexer and the reader remember offsets and pass them on, and a fault is reported
at one that was remembered.  So whatever holds of all places between characters (`P` below)
holds of every offset: in the states (`State.At`), in tokens, and in faults (`Positions`).

A name in an expression has the offset of the token it was read from.  The layout of the text
says where the token stands, and that there is no more of a word on either side of it.
-/
import Reql.Proofs.Expr.Lines
import Reql.Proofs.Expr.Reading
import Reql.Proofs.Hygiene.Binding

namespace Reql

variable {α : Type} {P : Nat → Prop}

/-- An answer that is as it should be, or a fault in a place that is. -/
def Positions (P : Nat → Prop) (Q : α → Prop) : Except (Placed ReadError) α → Prop
  | .ok a => Q a
  | .error fault => P fault.offset

namespace Positions

variable {Q : α → Prop} {x : Except (Placed ReadError) α}

theorem ok (h : Positions P Q x) {a : α} (hx : x = .ok a) : Q a := by
  rw [hx] at h
  exact h

theorem error (h : Positions P Q x) {fault : Placed ReadError} (hx : x = .error fault) :
    P fault.offset := by
  rw [hx] at h
  exact h

end Positions

/-! ## The lexer -/

namespace Lexer

/-- The places that the machine remembers have the property. -/
def State.At (P : Nat → Prop) : State → Prop
  | .between => True
  | .comment => True
  | .word start _ => P start
  | .string start _ => P start
  | .escape start backslash _ => P start ∧ P backslash

variable {offset : Nat} {state : State}

theorem wordToken_at {start : Nat} (h : P start) (letters : List Char) :
    Positions P (fun token => P token.offset) (wordToken start letters) := by
  unfold wordToken
  cases Token.ofWord letters.reverse <;> exact h

theorem begin_at (h : P offset) (c : Char) :
    (∀ t ∈ (begin offset c).1, P t.offset) ∧ (begin offset c).2.At P := by
  unfold begin
  split
  · exact ⟨List.forall_mem_nil _, trivial⟩
  · split
    · exact ⟨List.forall_mem_nil _, trivial⟩
    · split
      · exact ⟨List.forall_mem_nil _, h⟩
      · cases Token.bracket? c with
        | some token => exact ⟨List.forall_mem_singleton.mpr h, trivial⟩
        | none => exact ⟨List.forall_mem_nil _, h⟩

theorem step_at (h : P offset) (hstate : state.At P) (c : Char) :
    Positions P (fun taken => (∀ t ∈ taken.1, P t.offset) ∧ taken.2.At P)
      (step offset c state) := by
  cases state with
  | between => exact begin_at h c
  | comment =>
      refine ⟨List.forall_mem_nil _, ?_⟩
      split <;> trivial
  | word start letters =>
      rw [step]
      split
      · have hword := wordToken_at hstate letters
        cases hmeant : wordToken start letters with
        | error fault => exact hword.error hmeant
        | ok token =>
            obtain ⟨htokens, hnext⟩ := begin_at h c
            exact ⟨List.forall_mem_cons.mpr ⟨hword.ok hmeant, htokens⟩, hnext⟩
      · exact ⟨List.forall_mem_nil _, hstate⟩
  | string start letters =>
      rw [step]
      split
      · exact ⟨List.forall_mem_singleton.mpr hstate, trivial⟩
      · split
        · exact ⟨List.forall_mem_nil _, hstate, h⟩
        · exact ⟨List.forall_mem_nil _, hstate⟩
  | escape start backslash letters =>
      rw [step]
      cases unescape? c with
      | some meant => exact ⟨List.forall_mem_nil _, hstate.1⟩
      | none => exact hstate.2

theorem finish_at (hstate : state.At P) :
    Positions P (fun ts => ∀ t ∈ ts, P t.offset) (finish state) := by
  cases state with
  | between => exact List.forall_mem_nil _
  | comment => exact List.forall_mem_nil _
  | word start letters =>
      have hword := wordToken_at hstate letters
      rw [finish]
      cases hmeant : wordToken start letters with
      | error fault => exact hword.error hmeant
      | ok token => exact List.forall_mem_singleton.mpr (hword.ok hmeant)
  | string start letters => exact hstate
  | escape start backslash letters => exact hstate.1

/-- Tokens and faults are where characters begin, if the machine began there. -/
theorem run_at {cs : List Char}
    (h : ∀ before after, cs = before ++ after → P (offset + Text.byteCount before))
    (hstate : state.At P) : Positions P (fun ts => ∀ t ∈ ts, P t.offset) (run offset state cs) := by
  induction cs generalizing offset state with
  | nil => exact finish_at hstate
  | cons c cs ih =>
      have hplace : P offset := h [] (c :: cs) rfl
      have hstep := step_at hplace hstate c
      rw [run]
      split
      · next fault hfault => exact hstep.error hfault
      · next tokens next hnext =>
          obtain ⟨htokens, hstate⟩ := hstep.ok hnext
          have hplaces : ∀ before after, cs = before ++ after →
              P (offset + c.utf8Size + Text.byteCount before) := by
            rintro before after rfl
            simpa [Nat.add_assoc] using h (c :: before) after rfl
          have hrest := ih hplaces hstate
          split
          · next fault hfault => exact hrest.error hfault
          · next later hlater => exact List.forall_mem_append.mpr ⟨htokens, hrest.ok hlater⟩

end Lexer

/-! ## The reader -/

namespace Reader

/-- The places that a frame remembers for its faults. -/
def Frame.At (P : Nat → Prop) : Frame → Prop
  | .vector opened _ => P opened
  | .value opened _ key => P opened ∧ P key.offset
  | .argument i => P i.opened
  | .option i keyword => P i.opened ∧ P keyword.offset
  | .body opened _ => P opened

def Position.At (P : Nat → Prop) : Position → Prop
  | .item frame => frame.At P
  | .key opened _ => P opened
  | .head opened => P opened
  | .bracket opened => P opened
  | .parameter opened vector _ => P opened ∧ P vector
  | .close opened _ _ => P opened

def State.At (P : Nat → Prop) : State → Prop
  | .start => True
  | .within position outer => position.At P ∧ ∀ frame ∈ outer, frame.At P
  | .done _ => True

variable {offset : Nat} {outer : List Frame}

theorem deliver_at {frames : List Frame} (h : ∀ frame ∈ frames, frame.At P) (e : Expr) :
    (deliver e frames).At P := by
  cases frames with
  | nil => trivial
  | cons frame outer =>
      obtain ⟨hframe, houter⟩ := List.forall_mem_cons.mp h
      refine ⟨?_, houter⟩
      cases frame with
      | value opened entries key => exact hframe.1
      | option i keyword => exact hframe.1
      | _ => exact hframe

theorem expression_at {frames : List Frame} (h : P offset) (hframes : ∀ frame ∈ frames, frame.At P)
    (token : Token) : Positions P (State.At P) (expression frames offset token) := by
  cases token with
  | null | bool _ | number _ | string _ | symbol _ => exact deliver_at hframes _
  | keyword _ | closeList | closeVector | closeMap => exact h
  | openVector | openMap | openList =>
      simp only [expression]
      split
      · exact h
      · exact ⟨h, hframes⟩

theorem Frame.step_at {frame : Frame} (h : P offset) (hframe : frame.At P)
    (houter : ∀ frame ∈ outer, frame.At P) (token : Token) :
    Positions P (State.At P) (frame.step outer offset token) := by
  unfold Frame.step
  split
  · exact deliver_at houter _
  · exact hframe.2
  · exact deliver_at houter _
  · exact ⟨⟨hframe, h⟩, houter⟩
  · exact hframe.2
  · exact hframe
  · exact expression_at h (List.forall_mem_cons.mpr ⟨hframe, houter⟩) token

theorem Position.step_at {position : Position} (h : P offset) (hposition : position.At P)
    (houter : ∀ frame ∈ outer, frame.At P) (token : Token) :
    Positions P (State.At P) (position.step outer offset token) := by
  cases position with
  | item frame => exact frame.step_at h hposition houter token
  | key opened entries =>
      cases token with
      | closeMap => exact deliver_at houter _
      | string name | keyword name =>
          simp only [Position.step]
          split
          · exact h
          · exact ⟨⟨hposition, h⟩, houter⟩
      | _ => exact h
  | head opened =>
      cases token with
      | symbol name =>
          simp only [Position.step]
          split
          · exact ⟨hposition, houter⟩
          · exact ⟨hposition, houter⟩
      | closeList => exact hposition
      | _ => exact h
  | bracket opened =>
      cases token with
      | openVector => exact ⟨⟨hposition, h⟩, houter⟩
      | _ => exact h
  | parameter opened vector params =>
      cases token with
      | closeVector => exact ⟨hposition.1, houter⟩
      | symbol name =>
          simp only [Position.step]
          split
          · exact h
          · exact ⟨hposition, houter⟩
      | _ => exact h
  | close opened params body =>
      cases token with
      | closeList => exact deliver_at houter _
      | _ => exact h

theorem step_at {token : Placed Token} {state : State} (h : P token.offset) (hstate : state.At P) :
    Positions P (State.At P) (step token state) := by
  cases state with
  | start => exact expression_at h (List.forall_mem_nil _) token.value
  | within position outer => exact position.step_at h hstate.1 hstate.2 token.value
  | done e => exact h

theorem Position.missing_at {length : Nat} {position : Position} (hlength : P length)
    (hposition : position.At P) : P (position.missing length).offset := by
  cases position with
  | item frame =>
      cases frame with
      | value opened entries key => exact hposition.2
      | option i keyword => exact hposition.2
      | body opened params => exact hlength
      | _ => exact hposition
  | parameter opened vector params => exact hposition.2
  | _ => exact hposition

/-- A fault is where a token stands, or at the beginning or the end. -/
theorem run_at {length : Nat} {state : State} {ts : List (Placed Token)} (hstart : P 0)
    (hlength : P length) (h : ∀ t ∈ ts, P t.offset) (hstate : state.At P) :
    Positions P (fun _ => True) (run length state ts) := by
  induction ts generalizing state with
  | nil =>
      cases state with
      | start => exact hstart
      | within position outer => exact position.missing_at hlength hstate.1
      | done e => trivial
  | cons token rest ih =>
      obtain ⟨htoken, hrest⟩ := List.forall_mem_cons.mp h
      have hstep := step_at htoken hstate
      rw [run]
      split
      · next next hnext => exact ih hrest (hstep.ok hnext)
      · next fault hfault => exact hstep.error hfault

end Reader

/-! ## Between two characters -/

/-- The offset is between two characters of the text, or at one of its ends. -/
def Boundary (text : String) (offset : Nat) : Prop := (⟨offset⟩ : String.Pos.Raw).IsValid text

theorem boundary_of_append {text : String} {before after : List Char}
    (h : text.toList = before ++ after) : Boundary text (Text.byteCount before) := by
  refine String.Pos.Raw.isValid_iff_exists_append.mpr
    ⟨String.ofList before, String.ofList after, ?_, ?_⟩
  · rw [← String.ofList_append, ← h, String.ofList_toList]
  · rw [String.rawEndPos, Text.utf8ByteSize_eq, String.toList_ofList]

theorem tokenize_at (text : String) :
    Positions (Boundary text) (fun ts => ∀ t ∈ ts, Boundary text t.offset) (tokenize text) := by
  refine Lexer.run_at ?_ trivial
  intro before after h
  rw [Nat.zero_add]
  exact boundary_of_append h

/-- Whatever a text is, a fault in it is reported in a place that it has. -/
theorem Expr.parse_at (text : String) :
    Positions (Boundary text) (fun _ => True) (Expr.parse text) := by
  have htokens := tokenize_at text
  rw [Expr.parse]
  split
  · next ts hts =>
      have hend : Boundary text text.utf8ByteSize := by
        rw [Text.utf8ByteSize_eq]
        exact boundary_of_append (List.append_nil _).symm
      have hbegin : Boundary text (Text.byteCount []) := boundary_of_append rfl
      exact Reader.run_at hbegin hend (htokens.ok hts) trivial
  · next fault hfault => exact htokens.error hfault

/-! ## Names in a text -/

namespace Token

/-- No word goes on after these characters. -/
def Breaks (cs : List Char) : Prop := ∀ c ∈ cs.getLast?, isDelimiter c = true

theorem breaks_append (cs : List Char) {ds : List Char} (hne : ds ≠ []) (h : Breaks ds) :
    Breaks (cs ++ ds) := by
  intro c hc
  rw [List.getLast?_append_of_ne_nil _ hne] at hc
  exact h c hc

theorem breaks_gap {gap : List Char} (h : Gap gap) : Breaks gap := by
  have hcons {c : Char} {gap : List Char} (hc : isDelimiter c = true) (ih : Breaks gap) :
      Breaks (c :: gap) := by
    cases gap with
    | nil =>
        intro d hd
        obtain rfl := Option.mem_some.mp hd
        exact hc
    | cons d gap => exact breaks_append [c] (List.cons_ne_nil d gap) ih
  induction h with
  | nil =>
      intro c hc
      exact absurd hc (Option.not_mem_none c)
  | separator hc _ ih =>
      refine hcons ?_ ih
      simp only [isDelimiter, hc, Bool.true_or]
  | @comment body gap _ _ ih =>
      exact breaks_append (';' :: body) (List.cons_ne_nil '\n' gap) (hcons rfl ih)

/-- A bracket or a string ends with a delimiter of its own. -/
theorem breaks_of_spelled {token : Token} {letters : List Char} (h : Spelled token letters)
    (hword : token.isWord = false) : letters ≠ [] ∧ Breaks letters := by
  have hquote (cs : List Char) : Breaks (cs ++ ['"']) := by
    refine breaks_append cs nofun ?_
    intro c hc
    obtain rfl := Option.mem_some.mp hc
    rfl
  cases h with
  | @string raw content hraw => exact ⟨nofun, hquote ('"' :: raw)⟩
  | openList | closeList | openVector | closeVector | openMap | closeMap =>
      refine ⟨nofun, ?_⟩
      intro c hc
      obtain rfl := Option.mem_some.mp hc
      rfl
  | _ => exact nomatch hword

/-- Each token of a layout stands at its offset, and there is no more of a word on either side. -/
theorem stands_of_layout {offset : Nat} {ts : List (Placed Token)} {cs : List Char}
    (h : Layout offset ts cs) {seen : List Char} (hseen : Text.byteCount seen = offset)
    (hedge : Breaks seen ∨ Ends cs) {t : Placed Token} (ht : t ∈ ts) :
    ∃ before letters after, seen ++ cs = before ++ letters ++ after ∧
      Text.byteCount before = t.offset ∧ Spelled t.value letters ∧
      (t.value.isWord = true → Breaks before ∧ Ends after) := by
  induction h generalizing seen with
  | gap _ => exact nomatch ht
  | comment _ _ => exact nomatch ht
  | @token offset gap letters token ts cs hgap hspelled hends _ ih =>
      rcases List.mem_cons.mp ht with rfl | ht
      · refine ⟨seen ++ gap, letters, cs, by simp, by simp [hseen], hspelled, ?_⟩
        intro hword
        refine ⟨?_, hends hword⟩
        by_cases hne : gap = []
        · subst hne
          rw [List.append_nil]
          refine hedge.resolve_right ?_
          -- right after a word there could be no other
          intro hends
          obtain ⟨hletters, hall⟩ := isWord_of_spelled hspelled hword
          obtain ⟨c, rest, rfl⟩ := List.exists_cons_of_ne_nil hletters
          exact Bool.false_ne_true ((hall c (.head _)).symm.trans (hends c rfl))
        · exact breaks_append seen hne (breaks_gap hgap)
      · have hsum : Text.byteCount (seen ++ gap ++ letters) =
            offset + Text.byteCount gap + Text.byteCount letters := by simp [hseen, Nat.add_assoc]
        have hafter : Breaks (seen ++ gap ++ letters) ∨ Ends cs := by
          cases hkind : token.isWord with
          | true => exact .inr (hends hkind)
          | false =>
              obtain ⟨hne, hbreaks⟩ := breaks_of_spelled hspelled hkind
              exact .inl (breaks_append _ hne hbreaks)
        obtain ⟨before, word, after, heq, hstands⟩ := ih hsum hafter ht
        exact ⟨before, word, after, by simpa using heq, hstands⟩

end Token

/-- The token is written in the text from its offset on.  A word has an end of the text or a
delimiter on either side. -/
def StandsIn (text : String) (t : Placed Token) : Prop :=
  ∃ before letters after, text = before ++ letters ++ after ∧ before.utf8ByteSize = t.offset ∧
    Token.Spelled t.value letters.toList ∧
    (t.value.isWord = true → Token.Breaks before.toList ∧ Token.Ends after.toList)

theorem standsIn_of_mem {text : String} {ts : List (Placed Token)} (h : tokenize text = .ok ts)
    {t : Placed Token} (ht : t ∈ ts) : StandsIn text t := by
  have hbegin : Token.Breaks [] := by simp [Token.Breaks]
  obtain ⟨before, letters, after, heq, hoffset, hspelled, hword⟩ :=
    Token.stands_of_layout (tokenize_eq_ok_iff.mp h) rfl (.inl hbegin) ht
  refine ⟨String.ofList before, String.ofList letters, String.ofList after, ?_, ?_, ?_, ?_⟩
  · simpa [String.append_assoc] using congrArg String.ofList heq
  · rw [Text.utf8ByteSize_eq, String.toList_ofList, hoffset]
  · rwa [String.toList_ofList]
  · rwa [String.toList_ofList, String.toList_ofList]

/-- The name is in the text at the offset, with an end of the text or a delimiter on either
side. -/
def StandsAt (text : String) (offset : Nat) (name : String) : Prop :=
  ∃ before after, text = before ++ name ++ after ∧ before.utf8ByteSize = offset ∧
    (∀ c ∈ before.toList.getLast?, Token.isDelimiter c = true) ∧
    ∀ c ∈ after.toList.head?, Token.isDelimiter c = true

theorem StandsAt.boundary {text name : String} {offset : Nat} (h : StandsAt text offset name) :
    Boundary text offset := by
  obtain ⟨before, after, rfl, rfl, -, -⟩ := h
  refine String.Pos.Raw.isValid_iff_exists_append.mpr ⟨before, name ++ after, ?_, rfl⟩
  rw [String.append_assoc]

/-- A symbol is spelled in one way only. -/
theorem standsAt_of_mem {text name : String} {ts : List (Placed Token)}
    (h : tokenize text = .ok ts) {offset : Nat} (hmem : ⟨offset, .symbol name⟩ ∈ ts) :
    StandsAt text offset name := by
  obtain ⟨before, letters, after, htext, hoffset, hspelled, hword⟩ := standsIn_of_mem h hmem
  obtain ⟨hbreaks, hends⟩ := hword rfl
  generalize hletters : letters.toList = spelling at hspelled
  cases hspelled
  obtain rfl := String.toList_injective hletters
  exact ⟨before, after, htext, hoffset, hbreaks, hends⟩

/-! ## Names in an expression -/

namespace Expr

theorem Everywhere.imp {P Q : Expr → Prop} {e : Expr} (h : e.Everywhere P)
    (hPQ : ∀ d, P d → Q d) : e.Everywhere Q :=
  fun q d hq => hPQ d (h q d hq)

theorem children_of_leaf? {token : Placed Token} {e : Expr} (h : token.leaf? = some e) :
    e.children = [] := by
  obtain ⟨offset, value⟩ := token
  cases value with
  | null | bool _ | number _ | string _ | symbol _ =>
      obtain rfl := Option.some.inj h
      rfl
  | _ => exact nomatch h

/-- Each part of a phrase is a phrase of some of its tokens. -/
theorem Phrase.part {e : Expr} {ts : List (Placed Token)} (h : Phrase e ts) :
    e.Everywhere fun d => ∃ us, Phrase d us ∧ us ⊆ ts := by
  have hmore {c : Expr} {us ts : List (Placed Token)} (hsub : us ⊆ ts)
      (hc : c.Everywhere fun d => ∃ vs, Phrase d vs ∧ vs ⊆ us) :
      c.Everywhere fun d => ∃ vs, Phrase d vs ∧ vs ⊆ ts :=
    hc.imp fun _ ⟨vs, hvs, h⟩ => ⟨vs, hvs, List.Subset.trans h hsub⟩
  induction h with
  | @leaf token e hleaf =>
      exact everywhere_of_leaf (children_of_leaf? hleaf) ⟨_, .leaf hleaf, List.Subset.refl _⟩
  | @vector opened closed parts hparts ih =>
      refine everywhere_iff.mpr ⟨⟨_, .vector hparts, List.Subset.refl _⟩, ?_⟩
      intro c hc
      obtain ⟨p, hp, rfl⟩ := List.mem_map.mp hc
      refine hmore ?_ (ih p hp)
      intro t ht
      exact .tail _ (List.mem_append_left _ (List.mem_flatMap.mpr ⟨p, hp, ht⟩))
  | @map opened closed parts hparts ih =>
      refine everywhere_iff.mpr ⟨⟨_, .map hparts, List.Subset.refl _⟩, ?_⟩
      intro c hc
      rw [children, List.map_map] at hc
      obtain ⟨p, hp, rfl⟩ := List.mem_map.mp hc
      refine hmore ?_ (ih p hp)
      intro t ht
      exact .tail _ (List.mem_append_left _ (List.mem_flatMap.mpr ⟨p, hp, .tail _ ht⟩))
  | @call opened closed head parts hparts ih =>
      refine everywhere_iff.mpr ⟨⟨_, .call hparts, List.Subset.refl _⟩, ?_⟩
      intro c hc
      obtain ⟨p, hp, rfl⟩ := mem_operands.mp hc
      refine hmore ?_ (ih p hp)
      intro t ht
      refine .tail _ (.tail _ (List.mem_append_left _ (List.mem_flatMap.mpr ⟨p, hp, ?_⟩)))
      exact List.mem_append_right _ ht
  | @fn opened word openedVector closedVector closed params body ts hbody ih =>
      refine everywhere_iff.mpr ⟨⟨_, .fn hbody, List.Subset.refl _⟩, ?_⟩
      intro c hc
      obtain rfl := List.mem_singleton.mp hc
      refine hmore ?_ ih
      intro t ht
      refine .tail _ (.tail _ (.tail _ (List.mem_append_right _ (.tail _ ?_))))
      exact List.mem_append_left _ ht

/-- Where an expression itself has a name, the text has it. -/
def NameStands (text : String) : Expr → Prop
  | .symbol name offset => StandsAt text offset name
  | .call head offset _ _ => StandsAt text offset head
  | _ => True

theorem Phrase.nameStands {text : String} {ts us : List (Placed Token)}
    (htext : tokenize text = .ok ts) {d : Expr} (h : Phrase d us) (hsub : us ⊆ ts) :
    d.NameStands text := by
  cases h with
  | @leaf token d hleaf =>
      obtain ⟨offset, value⟩ := token
      cases value with
      | symbol name =>
          obtain rfl := Option.some.inj hleaf
          exact standsAt_of_mem htext (hsub (.head _))
      | null | bool _ | number _ | string _ =>
          obtain rfl := Option.some.inj hleaf
          trivial
      | _ => exact nomatch hleaf
  | @call opened closed head parts _ => exact standsAt_of_mem htext (hsub (.tail _ (.head _)))
  | _ => trivial

/-- Symbols and heads of an expression are in the text at their offsets. -/
theorem everywhere_nameStands {text : String} {e : Expr} (h : Expr.parse text = .ok e) :
    e.Everywhere (NameStands text) := by
  obtain ⟨ts, hts, hphrase, -⟩ := parse_eq_ok_iff.mp h
  refine hphrase.part.imp ?_
  rintro d ⟨us, hus, hsub⟩
  exact hus.nameStands hts hsub

/-- A symbol that is looked up is a part of the expression. -/
theorem Everywhere.symbol {P : Expr → Prop} {e : Expr} (h : e.Everywhere P) {name : String}
    {offset : Nat} {reach reach' : List String}
    (hmention : Mention.symbol name offset reach' ∈ e.mentions reach) :
    P (.symbol name offset) := by
  induction e using children_induction generalizing reach with
  | step e ih =>
      obtain ⟨hown, hchildren⟩ := everywhere_iff.mp h
      cases e with
      | symbol other place =>
          cases hmention with
          | head => exact hown
          | tail _ hmention => exact nomatch hmention
      | vector items =>
          obtain ⟨c, hc, hmention⟩ := mem_itemMentions.mp hmention
          exact ih c hc (hchildren c hc) hmention
      | map entries =>
          rw [mentions, entryMentions_eq] at hmention
          obtain ⟨c, hc, hmention⟩ := mem_itemMentions.mp hmention
          exact ih c hc (hchildren c hc) hmention
      | call head place args options =>
          rw [mentions, entryMentions_eq, List.mem_cons, List.mem_append] at hmention
          rcases hmention with hhead | hargs | hoptions
          · exact nomatch hhead
          · obtain ⟨c, hc, hmention⟩ := mem_itemMentions.mp hargs
            have hchild := List.mem_append_left (options.map Prod.snd) hc
            exact ih c hchild (hchildren c hchild) hmention
          · obtain ⟨c, hc, hmention⟩ := mem_itemMentions.mp hoptions
            have hchild := List.mem_append_right args hc
            exact ih c hchild (hchildren c hchild) hmention
      | fn params body =>
          have hbody := List.mem_singleton_self body
          exact ih body hbody (hchildren body hbody) hmention
      | _ => exact nomatch hmention

end Expr

/-! ## Building -/

/-- A symbol that is reported unbound is in the text at the offset that is reported. -/
theorem Registry.build_read_error {text : String} {e : Expr} (h : Expr.parse text = .ok e)
    {r : Registry} {start offset : Nat} {cause : ReadError}
    (hbuild : ((r.build text).runFrom start).1 = .error (.read offset cause)) :
    ∃ name, cause = .unboundSymbol name ∧ StandsAt text offset name := by
  rw [build_of_parse h, Expr.build, Drawing.runFrom_bind] at hbuild
  have hplan := Expr.plan_settles r e []
  cases hfault : (e.mentions []).findSome? (Mention.fault? r) with
  | some fault =>
      rw [List.map_nil, hfault] at hplan
      obtain ⟨next, hnext⟩ := hplan start
      rw [hnext] at hbuild
      obtain rfl := Except.error.inj hbuild
      obtain ⟨mention, hmention, hfault⟩ := List.exists_of_findSome?_eq_some hfault
      cases mention with
      | head name =>
          rw [Mention.fault?] at hfault
          split at hfault
          · cases hfault
          · cases hfault
      | symbol name place reach =>
          rw [Mention.fault?] at hfault
          split at hfault
          · cases hfault
          · obtain ⟨rfl, rfl⟩ := Error.read.inj (Option.some.inj hfault)
            exact ⟨name, rfl, (Expr.everywhere_nameStands h).symbol hmention⟩
  | none =>
      rw [List.map_nil, hfault] at hplan
      obtain ⟨p, hp⟩ := hplan start
      rw [hp] at hbuild
      simp only [Drawing.runFrom_ofOutcome] at hbuild
      cases hterm : p.term r.normalizer with
      | ok t =>
          rw [hterm] at hbuild
          cases hbuild
      | error fault =>
          rw [hterm] at hbuild
          cases hbuild

/-- Every text is read or is at fault in one place, and building it fails with that fault.  The
places that are reported for faults lie between characters of the text, whether reading it
or looking up its symbols failed.  The names in an expression stand where it says. -/
theorem Expr.parse_positions (text : String) :
    ((∃ e, Expr.parse text = .ok e) ∨ ∃ fault, Expr.parse text = .error fault ∧
      fault.offset ≤ text.utf8ByteSize ∧ Boundary text fault.offset ∧
      ∀ (r : Registry) start,
        ((r.build text).runFrom start).1 = .error (.read fault.offset fault.value)) ∧
    (∀ (r : Registry) start offset cause,
      ((r.build text).runFrom start).1 = .error (.read offset cause) →
        offset ≤ text.utf8ByteSize ∧ Boundary text offset) ∧
    ∀ e, Expr.parse text = .ok e →
      (∀ q name offset, e.at? q = some (.symbol name offset) → StandsAt text offset name) ∧
      ∀ q head offset args options, e.at? q = some (.call head offset args options) →
        StandsAt text offset head := by
  have hplaces := parse_at text
  refine ⟨?_, ?_, ?_⟩
  · cases hparse : Expr.parse text with
    | ok e => exact .inl ⟨e, rfl⟩
    | error fault =>
        have hplace := hplaces.error hparse
        refine .inr ⟨fault, rfl, hplace.le_utf8ByteSize, hplace, ?_⟩
        intro r start
        rw [Registry.build, hparse]
        rfl
  · intro r start offset cause hbuild
    suffices hboundary : Boundary text offset from ⟨hboundary.le_utf8ByteSize, hboundary⟩
    cases hparse : Expr.parse text with
    | ok e =>
        obtain ⟨name, -, hstands⟩ := Registry.build_read_error hparse hbuild
        exact hstands.boundary
    | error fault =>
        rw [Registry.build, hparse] at hbuild
        obtain ⟨rfl, -⟩ := Error.read.inj (Except.error.inj hbuild)
        exact hplaces.error hparse
  · intro e he
    have hnames := everywhere_nameStands he
    exact ⟨fun q name offset hq => hnames q _ hq,
      fun q head offset args options hq => hnames q _ hq⟩

/-- A symbol of two bytes that is not bound, and a head after it. -/
theorem Expr.parse_positions_unbound :
    Expr.parse "[é (f)]" = .ok (.vector [.symbol "é" 1, .call "f" 5 [] []]) ∧
      ((Registry.blank.build "[é (f)]").runFrom 1).1 = .error (.read 1 (.unboundSymbol "é")) ∧
      Boundary "[é (f)]" 1 ∧ StandsAt "[é (f)]" 1 "é" ∧ StandsAt "[é (f)]" 5 "f" := by
  have hparse : Expr.parse "[é (f)]" = .ok (.vector [.symbol "é" 1, .call "f" 5 [] []]) := rfl
  have hbuild : ((Registry.blank.build "[é (f)]").runFrom 1).1 =
      .error (.read 1 (.unboundSymbol "é")) := by
    rw [Registry.build_of_parse hparse]
    rfl
  obtain ⟨-, hfaults, hnames⟩ := parse_positions "[é (f)]"
  exact ⟨hparse, hbuild, (hfaults .blank 1 1 _ hbuild).2, (hnames _ hparse).1 [0] _ _ rfl,
    (hnames _ hparse).2 [1] _ _ _ _ rfl⟩

end Reql
