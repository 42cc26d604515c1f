/-
# `Reql.Proofs.Expr.Nesting` — where a text nests too deeply

How many brackets are open is a count over the tokens, up for one that opens and down for one that
closes (`openCount`).  The reader does not count, but its frames are as many as the count says
(`Run.depth_eq`), and so it stops where the count says that a bracket is too deep.

Nothing opens between the brackets of parameters.  Wherever another bracket opens they are closed
again, and count for nothing.  What is left to say of them is that they may open inside of any
number of brackets (`TooDeep`).

The reader does not get past an expression that nests too deeply.  What can be said of all
expressions, by induction on the phrase, is that the tokens take the reader past it or to a bracket
for which there is no room (`Advances`).
-/
import Reql.Proofs.Expr.Written

namespace Reql

/-! ## Open brackets -/

/-- What a token does to the number of open brackets. -/
def Token.balance : Token → Int
  | .openList => 1
  | .openVector => 1
  | .openMap => 1
  | .closeList => -1
  | .closeVector => -1
  | .closeMap => -1
  | _ => 0

/-- How many brackets are open after tokens. -/
def openCount : List (Placed Token) → Int
  | [] => 0
  | t :: rest => t.value.balance + openCount rest

/-- A bracket opens inside of as many as may be open.  A bracket around parameters is none of these:
it comes after the word for a function.  Earlier ones have closed, so they are not in the count. -/
structure TooDeep (before : List (Placed Token)) (t : Placed Token) : Prop where
  opening : t.value.isOpening = true
  not_parameters : ¬ ∃ earlier, before.map Placed.value = earlier ++ [.openList, .symbol "fn"]
  full : 128 ≤ openCount before

/-- The first bracket that is too deep. -/
def FirstTooDeep (ts : List (Placed Token)) (t : Placed Token) : Prop :=
  ∃ before after, ts = before ++ t :: after ∧ TooDeep before t ∧
    ∀ earlier u later, before = earlier ++ u :: later → ¬ TooDeep earlier u

namespace Reader

open Reql.Expr

variable {state next last : State} {token : Placed Token} {ts us : List (Placed Token)}

/-! ## The reader keeps the count -/

/-- How many brackets belong to a position. -/
def Position.depth : Position → Nat
  | .parameter _ _ _ => 2
  | _ => 1

/-- How many brackets are open. -/
def State.depth : State → Nat
  | .start => 0
  | .within position outer => outer.length + position.depth
  | .done _ => 0

@[simp] theorem depth_within (position : Position) (outer : List Frame) :
    (State.within position outer).depth = outer.length + position.depth := rfl

@[simp] theorem depth_expecting (frames : List Frame) :
    (expecting frames).depth = frames.length := by
  cases frames <;> rfl

@[simp] theorem depth_deliver (e : Expr) (frames : List Frame) :
    (deliver e frames).depth = frames.length := by
  cases frames with
  | nil => rfl
  | cons frame outer => cases frame <;> rfl

theorem balance_of_leaf? {e : Expr} (h : token.leaf? = some e) : token.value.balance = 0 := by
  obtain ⟨offset, value⟩ := token
  cases value with
  | null | bool _ | number _ | string _ | symbol _ | keyword _ => rfl
  | _ => exact nomatch h

theorem Move.depth_eq (h : Move state token next) :
    (next.depth : Int) = state.depth + token.value.balance := by
  cases h with
  | leaf frames hleaf => simp [balance_of_leaf? hleaf]
  | key hkey _ => rcases hkey with rfl | rfl <;> simp [Position.depth, Token.balance]
  | openParameters | closeParameters =>
      simp only [depth_within, Position.depth, Token.balance]
      omega
  | _ => simp [Position.depth, Token.balance]

theorem Run.depth_eq (h : Run state ts next) : (next.depth : Int) = state.depth + openCount ts := by
  induction h with
  | nil => simp [openCount]
  | cons hmove _ ih =>
      rw [openCount, ih, hmove.depth_eq]
      omega

/-! ## Where the reader has no room -/

theorem length_le_of_run {frames : List Frame} (h : Run .start ts (expecting frames)) :
    frames.length ≤ maxNesting := by
  obtain ⟨room, hframes⟩ := FramesRead.of_expecting (State.Read.start.run h)
  have hroom := hframes.room_add_length
  omega

theorem openCount_of_run {frames : List Frame} (h : Run .start ts (expecting frames)) :
    openCount ts = frames.length := by
  have hdepth := h.depth_eq
  rw [depth_expecting, State.depth] at hdepth
  omega

/-- A bracket opens where an expression is expected, or else around parameters. -/
theorem Move.of_opening (h : Move state token next) (hopening : token.value.isOpening = true) :
    (∃ frames, state = expecting frames ∧ frames.length ≠ maxNesting) ∨
      ∃ opened outer, state = .within (.bracket opened) outer := by
  cases h with
  | leaf frames hleaf =>
      obtain ⟨offset, value⟩ := token
      cases value with
      | openList | openVector | openMap => exact nomatch hleaf
      | _ => exact nomatch hopening
  | openVector hroom | openMap hroom | openList hroom => exact .inl ⟨_, rfl, hroom⟩
  | openParameters => exact .inr ⟨_, _, rfl⟩
  | key hkey _ => rcases hkey with rfl | rfl <;> exact nomatch hopening
  | _ => exact nomatch hopening

/-- The reader takes no bracket that is too deep. -/
theorem not_tooDeep_of_move (hrun : Run .start ts state) (hmove : Move state token next) :
    ¬ TooDeep ts token := by
  rintro ⟨hopening, hparameters, hfull⟩
  rcases hmove.of_opening hopening with ⟨frames, rfl, hroom⟩ | ⟨opened, outer, rfl⟩
  · have hle := length_le_of_run hrun
    rw [openCount_of_run hrun] at hfull
    unfold maxNesting at hle hroom
    omega
  · -- the reader has just read the word for a function
    cases State.Read.start.run hrun with
    | @within room _ _ before _ _ hposition => cases hposition with
      | bracket => exact hparameters ⟨before.map Placed.value, by simp⟩

theorem Move.of_openList {offset : Nat} (h : Move state ⟨offset, .openList⟩ next) :
    ∃ outer, next = .within (.head offset) outer := by
  cases h with
  | leaf frames hleaf => exact nomatch hleaf
  | openList => exact ⟨_, rfl⟩
  | key hkey _ => rcases hkey with hkey | hkey <;> exact nomatch hkey

/-- After the word for a function no expression is expected. -/
theorem not_expecting_of_fn {offset word : Nat} {frames : List Frame} :
    ¬ Run state [⟨offset, .openList⟩, ⟨word, .symbol "fn"⟩] (expecting frames) := by
  intro h
  cases h with
  | cons hlist hrest =>
      obtain ⟨outer, rfl⟩ := hlist.of_openList
      cases hrest with
      | cons hfn hnil =>
          obtain rfl := Except.ok.inj (hfn.step_eq_ok.symm.trans Move.fn.step_eq_ok)
          cases frames <;> cases hnil

theorem tooDeep_of_full {frames : List Frame} (hrun : Run .start ts (expecting frames))
    (hfull : frames.length = maxNesting) (hopening : token.value.isOpening = true) :
    TooDeep ts token where
  opening := hopening
  not_parameters := by
    rintro ⟨earlier, hts⟩
    obtain ⟨us, vs, rfl, -, hvs⟩ := List.map_eq_append_iff.mp hts
    obtain ⟨⟨offset, _⟩, rest, rfl, rfl, hrest⟩ := List.map_eq_cons_iff.mp hvs
    obtain ⟨⟨word, _⟩, rest, rfl, rfl, hnil⟩ := List.map_eq_cons_iff.mp hrest
    obtain rfl := List.map_eq_nil_iff.mp hnil
    obtain ⟨middle, -, hlast⟩ := hrun.split
    exact not_expecting_of_fn hlast
  full := by
    rw [openCount_of_run hrun, hfull]
    rfl

/-- The tokens take the reader to a bracket for which there is no room. -/
def Stops (state : State) (ts : List (Placed Token)) : Prop :=
  ∃ before t after frames, ts = before ++ t :: after ∧ Run state before (expecting frames) ∧
    frames.length = maxNesting ∧ t.value.isOpening = true

theorem Stops.append (h : Stops state ts) (us : List (Placed Token)) : Stops state (ts ++ us) := by
  obtain ⟨before, t, after, frames, rfl, hrun, hfull, hopening⟩ := h
  exact ⟨before, t, after ++ us, frames, by simp, hrun, hfull, hopening⟩

theorem Stops.after (hrun : Run state ts next) (h : Stops next us) : Stops state (ts ++ us) := by
  obtain ⟨before, t, after, frames, rfl, hbefore, hfull, hopening⟩ := h
  exact ⟨ts ++ before, t, after, frames, by simp, hrun.append hbefore, hfull, hopening⟩

theorem step_full {frames : List Frame} (hfull : frames.length = maxNesting)
    (hopening : token.value.isOpening = true) :
    step token (expecting frames) = .error ⟨token.offset, .nestedTooDeeply⟩ := by
  obtain ⟨offset, value⟩ := token
  rw [step_expecting (begins_of_isOpening hopening)]
  cases value with
  | openList | openVector | openMap => exact if_pos hfull
  | _ => cases hopening

/-- The reader refuses the first bracket that is too deep. -/
theorem Stops.firstTooDeep (h : Stops .start ts) (length : Nat) :
    ∃ t, FirstTooDeep ts t ∧ run length .start ts = .error ⟨t.offset, .nestedTooDeeply⟩ := by
  obtain ⟨before, t, after, frames, rfl, hrun, hfull, hopening⟩ := h
  refine ⟨t, ⟨before, after, rfl, tooDeep_of_full hrun hfull hopening, ?_⟩, ?_⟩
  · rintro earlier u later rfl
    obtain ⟨state, hearlier, hlater⟩ := hrun.split
    cases hlater with
    | cons hmove _ => exact not_tooDeep_of_move hearlier hmove
  · rw [run_append hrun, run, step_full hfull hopening]

/-! ## As far as there is room -/

/-- The tokens take the reader to a state, or to a bracket for which there is no room. -/
def Advances (state : State) (ts : List (Placed Token)) (next : State) : Prop :=
  Run state ts next ∨ Stops state ts

theorem follows_advances : Follows Advances where
  nil state := .inl (.nil state)
  cons hmove h := h.imp (.cons hmove) (.after (.single hmove))
  append := by
    rintro state next last ts us (hts | hts) hus
    · exact hus.imp hts.append (.after hts)
    · exact .inr (hts.append us)

theorem opening_regular : Opening Advances fun _ e => e.Everywhere Regular := by
  intro frames e _ hregular
  by_cases hfull : frames.length = maxNesting
  · refine .inr fun token ts last hopening => .inr ?_
    exact ⟨[], token, ts, frames, rfl, .nil _, hfull, hopening⟩
  · obtain ⟨hown, hchildren⟩ := everywhere_iff.mp hregular
    exact .inl ⟨hfull, hown, fun c hc _ => hchildren c hc⟩

/-- The phrase of an expression that only nests too deeply stops the reader. -/
theorem stops_of_phrase {e : Expr} (h : Phrase e ts) (hregular : e.Everywhere Regular)
    (hnesting : maxNesting < e.nesting) : Stops .start ts := by
  have hadvances : Advances .start ts (.done e) :=
    @Follows.reads _ _ _ follows_advances _ opening_regular h [] hregular
  rcases hadvances with hrun | hstops
  · exact absurd (run_start_iff.mp hrun).2.nesting_le (Nat.not_le_of_lt hnesting)
  · exact hstops

end Reader

/-! ## Texts -/

namespace Expr

/-- An expression that is well formed but for how deep it nests is read if it nests no deeper than
allowed.  Otherwise the error is at the first bracket that is too deep. -/
theorem parse_nesting {e : Expr} {ts : List (Placed Token)} {text : String}
    (hregular : e.Everywhere Regular) (hlayout : Token.Layout 0 ts text.toList)
    (hwords : e.Words (ts.map Placed.value)) :
    (e.nesting ≤ 128 → ∃ d, Expr.parse text = .ok d ∧ d.unplaced = e.unplaced) ∧
      (128 < e.nesting → ∃ t cause, FirstTooDeep ts t ∧
        Expr.parse text = .error ⟨t.offset, cause⟩ ∧
        cause.message = "expression nested too deeply") := by
  obtain ⟨d, hd, heq⟩ := hwords.exists_phrase
  have htokens : tokenize text = .ok ts := tokenize_eq_ok_iff.mpr hlayout
  constructor
  · intro hnesting
    have hfits : Fits Reader.maxNesting e := ⟨hnesting, hregular⟩
    exact ⟨d, parse_eq_ok_iff.mpr ⟨ts, htokens, hd, hfits.of_unplaced_eq heq⟩, heq⟩
  · intro hnesting
    rw [← everywhere_regular_unplaced, ← heq, everywhere_regular_unplaced] at hregular
    rw [← nesting_unplaced, ← heq, nesting_unplaced] at hnesting
    have hstops := Reader.stops_of_phrase hd hregular hnesting
    obtain ⟨t, ht, herror⟩ := hstops.firstTooDeep text.utf8ByteSize
    refine ⟨t, .nestedTooDeeply, ht, ?_, rfl⟩
    rw [Expr.parse, htokens]
    exact herror

theorem everywhere_regular_vectors {e : Expr} (h : e.Everywhere Regular) (depth : Nat) :
    ((fun d => vector [d])^[depth] e).Everywhere Regular := by
  induction depth with
  | zero => exact h
  | succ depth ih =>
      rw [Function.iterate_succ_apply']
      exact everywhere_iff.mpr ⟨trivial, List.forall_mem_singleton.mpr ih⟩

theorem words_vectors {e : Expr} {words : List Token} (h : e.Words words) (depth : Nat) :
    ((fun d => vector [d])^[depth] e).Words
      (List.replicate depth .openVector ++ words ++ List.replicate depth .closeVector) := by
  induction depth with
  | zero => simpa using h
  | succ depth ih =>
      obtain ⟨us, hus, hwords⟩ := ih
      rw [Function.iterate_succ_apply']
      have hparts : ∀ p ∈ [((fun d => vector [d])^[depth] e, us)], Phrase p.1 p.2 :=
        List.forall_mem_singleton.mpr hus
      refine ⟨_, @Phrase.vector 0 0 _ hparts, ?_⟩
      rw [List.replicate_succ, List.replicate_succ']
      simp [hwords]

/-- A function of a list inside of as many lists as leave room for the function alone.  The bracket
of its parameters may still open, and the list is too deep. -/
theorem parse_nesting_fn :
    let fn : List (Placed Token) := [⟨127, .openList⟩, ⟨128, .symbol "fn"⟩, ⟨131, .openVector⟩,
      ⟨132, .symbol "x"⟩, ⟨133, .closeVector⟩, ⟨135, .openVector⟩, ⟨136, .symbol "x"⟩,
      ⟨137, .closeVector⟩, ⟨138, .closeList⟩]
    let ts : List (Placed Token) := (List.range 127).map (⟨·, .openVector⟩) ++ fn ++
      (List.range' 139 127).map (⟨·, .closeVector⟩)
    let text := String.ofList (List.replicate 127 '[' ++ "(fn [x] [x])".toList ++
      List.replicate 127 ']')
    ∃ t cause, FirstTooDeep ts t ∧ t.offset = 135 ∧ Expr.parse text = .error ⟨t.offset, cause⟩ ∧
      cause.message = "expression nested too deeply" := by
  intro fn ts text
  let body : Expr := .vector [.symbol "x" 0]
  have hx : (Expr.symbol "x" 0).Everywhere Regular := everywhere_of_leaf rfl trivial
  have hregular : (Expr.fn ["x"] body).Everywhere Regular :=
    everywhere_iff.mpr ⟨List.nodup_singleton _, List.forall_mem_singleton.mpr
      (everywhere_iff.mpr ⟨trivial, List.forall_mem_singleton.mpr hx⟩)⟩
  have hphrase : Phrase (.symbol "x" 0) [⟨0, .symbol "x"⟩] := .leaf rfl
  have hbody := @Phrase.vector 0 0 [(.symbol "x" 0, _)] (List.forall_mem_singleton.mpr hphrase)
  have hfn : (Expr.fn ["x"] body).Words (fn.map Placed.value) :=
    ⟨_, @Phrase.fn 0 0 0 0 0 [⟨0, "x"⟩] _ _ hbody, rfl⟩
  have hwords := words_vectors hfn 127
  have htokens : tokenize text = .ok ts := by
    rw [tokenize, String.toList_ofList]
    decide +kernel
  have hvalues : ts.map Placed.value = List.replicate 127 .openVector ++ fn.map Placed.value ++
      List.replicate 127 .closeVector := by decide +kernel
  rw [← hvalues] at hwords
  obtain ⟨-, hdeep⟩ := parse_nesting (everywhere_regular_vectors hregular 127)
    (tokenize_eq_ok_iff.mp htokens) hwords
  obtain ⟨t, cause, ht, herror, hmessage⟩ := hdeep (by decide +kernel)
  have heval : (Expr.parse text).map (fun _ => ()) = .error ⟨135, .nestedTooDeeply⟩ := by
    rw [Expr.parse, htokens]
    decide +kernel
  rw [herror] at heval
  have hoffset := congrArg Placed.offset (Except.error.inj heval)
  exact ⟨t, cause, ht, hoffset, herror, hmessage⟩

end Expr

end Reql
