/-
# `Reql.Proofs.Expr.Moves` — what a token can do to the reader

`Move` lists the moves of the reader, one constructor for each, with what it checks.
`step_eq_ok_iff` says that these are the tokens it takes, and `Run` puts moves together.
Proofs about the reader go by cases on moves and never open its functions.
-/
import Reql.Expr.Reader

namespace Reql

/-- The expression that is a single token. -/
def Placed.leaf? (token : Placed Token) : Option Expr :=
  match token.value with
  | .null => some .null
  | .bool value => some (.bool value)
  | .number value => some (.number value)
  | .string value => some (.string value)
  | .symbol name => some (.symbol name token.offset)
  | _ => none

/-- A token that gives an entry its key. -/
def Token.IsKey (token : Token) (name : String) : Prop :=
  token = .string name ∨ token = .keyword name

def Token.isOpening : Token → Bool
  | .openList => true
  | .openVector => true
  | .openMap => true
  | _ => false

namespace Reader

/-- The state in which an expression comes next in the innermost of the frames, or as a whole. -/
def expecting : List Frame → State
  | [] => .start
  | frame :: outer => .within (.item frame) outer

/-- A token takes the reader from a state to the next. -/
inductive Move : State → Placed Token → State → Prop where
  | leaf (frames : List Frame) {token : Placed Token} {e : Expr} : token.leaf? = some e →
      Move (expecting frames) token (deliver e frames)
  | openVector {frames : List Frame} {offset : Nat} : frames.length ≠ maxNesting →
      Move (expecting frames) ⟨offset, .openVector⟩ (.within (.item (.vector offset [])) frames)
  | closeVector {outer : List Frame} {offset opened : Nat} {items : List Expr} :
      Move (.within (.item (.vector opened items)) outer) ⟨offset, .closeVector⟩
        (deliver (.vector items.reverse) outer)
  | openMap {frames : List Frame} {offset : Nat} : frames.length ≠ maxNesting →
      Move (expecting frames) ⟨offset, .openMap⟩ (.within (.key offset []) frames)
  | key {outer : List Frame} {offset opened : Nat} {entries : List (String × Expr)} {token : Token}
      {name : String} : token.IsKey name → name ∉ entries.map Prod.fst →
      Move (.within (.key opened entries) outer) ⟨offset, token⟩
        (.within (.item (.value opened entries ⟨offset, name⟩)) outer)
  | closeMap {outer : List Frame} {offset opened : Nat} {entries : List (String × Expr)} :
      Move (.within (.key opened entries) outer) ⟨offset, .closeMap⟩
        (deliver (.map entries.reverse) outer)
  | openList {frames : List Frame} {offset : Nat} : frames.length ≠ maxNesting →
      Move (expecting frames) ⟨offset, .openList⟩ (.within (.head offset) frames)
  | head {outer : List Frame} {offset opened : Nat} {name : String} : name ≠ "fn" →
      Move (.within (.head opened) outer) ⟨offset, .symbol name⟩
        (.within (.item (.argument ⟨opened, name, offset, [], []⟩)) outer)
  | keyword {outer : List Frame} {offset : Nat} {i : Invocation} {name : String} :
      Move (.within (.item (.argument i)) outer) ⟨offset, .keyword name⟩
        (.within (.item (.option i ⟨offset, name⟩)) outer)
  | closeCall {outer : List Frame} {offset : Nat} {i : Invocation} :
      Move (.within (.item (.argument i)) outer) ⟨offset, .closeList⟩
        (deliver (.call i.head i.headOffset i.args.reverse i.options.reverse) outer)
  | fn {outer : List Frame} {offset opened : Nat} :
      Move (.within (.head opened) outer) ⟨offset, .symbol "fn"⟩ (.within (.bracket opened) outer)
  | openParameters {outer : List Frame} {offset opened : Nat} :
      Move (.within (.bracket opened) outer) ⟨offset, .openVector⟩
        (.within (.parameter opened offset []) outer)
  | parameter {outer : List Frame} {offset opened vector : Nat} {params : List String}
      {name : String} : name ∉ params →
      Move (.within (.parameter opened vector params) outer) ⟨offset, .symbol name⟩
        (.within (.parameter opened vector (name :: params)) outer)
  | closeParameters {outer : List Frame} {offset opened vector : Nat} {params : List String} :
      Move (.within (.parameter opened vector params) outer) ⟨offset, .closeVector⟩
        (.within (.item (.body opened params.reverse)) outer)
  | closeFn {outer : List Frame} {offset opened : Nat} {params : List String} {body : Expr} :
      Move (.within (.close opened params body) outer) ⟨offset, .closeList⟩
        (deliver (.fn params body) outer)

/-! ## The reader makes these moves -/

variable {token : Placed Token} {state next : State}

/-- A token with which an expression can begin. -/
def Begins (token : Token) : Prop :=
  token ≠ .closeVector ∧ token ≠ .closeMap ∧ token ≠ .closeList ∧ ∀ name, token ≠ .keyword name

theorem step_expecting {frames : List Frame} (h : Begins token.value) :
    step token (expecting frames) = expression frames token.offset token.value := by
  obtain ⟨hvector, hmap, hlist, hkeyword⟩ := h
  cases frames with
  | nil => rfl
  | cons frame outer =>
      rw [expecting, step, Position.step]
      unfold Frame.step
      split
      · next h => exact absurd h hvector
      · next h => exact absurd h hmap
      · next h => exact absurd h hlist
      · next h => exact absurd h (hkeyword _)
      · next h => exact absurd h hlist
      · next h => exact absurd h hlist
      · rfl

theorem begins_of_leaf? {e : Expr} (h : token.leaf? = some e) : Begins token.value := by
  unfold Placed.leaf? at h
  refine ⟨?_, ?_, ?_, ?_⟩
  · intro htoken
    simp [htoken] at h
  · intro htoken
    simp [htoken] at h
  · intro htoken
    simp [htoken] at h
  · intro name htoken
    simp [htoken] at h

theorem begins_of_isOpening {value : Token} (h : value.isOpening = true) : Begins value := by
  cases value with
  | openList | openVector | openMap => simp [Begins]
  | _ => cases h

theorem expression_of_leaf? {frames : List Frame} {e : Expr} (h : token.leaf? = some e) :
    expression frames token.offset token.value = .ok (deliver e frames) := by
  obtain ⟨offset, value⟩ := token
  cases value with
  | null | bool _ | number _ | string _ | symbol _ =>
      obtain rfl := Option.some.inj h
      rfl
  | _ => exact nomatch h

theorem Move.step_eq_ok (h : Move state token next) : step token state = .ok next := by
  cases h with
  | leaf frames hleaf =>
      rw [step_expecting (begins_of_leaf? hleaf), expression_of_leaf? hleaf]
  | openVector hroom | openMap hroom | openList hroom =>
      rw [step_expecting (begins_of_isOpening rfl)]
      exact if_neg hroom
  | key hkey hname =>
      rcases hkey with rfl | rfl
      · exact if_neg hname
      · exact if_neg hname
  | head hname => exact if_neg hname
  | fn => simp [step, Position.step]
  | parameter hname => exact if_neg hname
  | closeVector | closeMap | keyword | closeCall | openParameters | closeParameters | closeFn => rfl

theorem move_of_expression {frames : List Frame} {offset : Nat} {value : Token}
    (h : expression frames offset value = .ok next) :
    Move (expecting frames) ⟨offset, value⟩ next := by
  have hopening {position : Position}
      (h : (if frames.length = maxNesting then .error ⟨offset, .nestedTooDeeply⟩
        else .ok (.within position frames) : Except (Placed ReadError) State) = .ok next) :
      frames.length ≠ maxNesting ∧ next = .within position frames := by
    split at h
    · exact nomatch h
    · next hroom => exact ⟨hroom, (Except.ok.inj h).symm⟩
  cases value with
  | null | bool _ | number _ | string _ | symbol _ =>
      obtain rfl := Except.ok.inj h
      exact .leaf frames rfl
  | keyword _ | closeList | closeVector | closeMap => exact nomatch h
  | openVector =>
      obtain ⟨hroom, rfl⟩ := hopening h
      exact .openVector hroom
  | openMap =>
      obtain ⟨hroom, rfl⟩ := hopening h
      exact .openMap hroom
  | openList =>
      obtain ⟨hroom, rfl⟩ := hopening h
      exact .openList hroom

theorem move_of_step (h : step token state = .ok next) : Move state token next := by
  obtain ⟨offset, value⟩ := token
  cases state with
  | start =>
      change expression [] offset value = .ok next at h
      have hmove := move_of_expression h
      exact hmove
  | done e => exact nomatch h
  | within position outer =>
      cases position with
      | item frame =>
          change frame.step outer offset value = .ok next at h
          unfold Frame.step at h
          split at h
          · obtain rfl := Except.ok.inj h
            exact .closeVector
          · exact nomatch h
          · obtain rfl := Except.ok.inj h
            exact .closeCall
          · obtain rfl := Except.ok.inj h
            exact .keyword
          · exact nomatch h
          · exact nomatch h
          · have hmove := move_of_expression h
            exact hmove
      | key opened entries =>
          have hentry {name : String}
              (h : (if name ∈ entries.map Prod.fst then .error ⟨offset, .duplicateKey name⟩
                else .ok (.within (.item (.value opened entries ⟨offset, name⟩)) outer) :
                  Except (Placed ReadError) State) = .ok next) :
              name ∉ entries.map Prod.fst ∧
                next = .within (.item (.value opened entries ⟨offset, name⟩)) outer := by
            split at h
            · exact nomatch h
            · next hname => exact ⟨hname, (Except.ok.inj h).symm⟩
          cases value with
          | closeMap =>
              obtain rfl := Except.ok.inj h
              exact .closeMap
          | string name =>
              obtain ⟨hname, rfl⟩ := hentry h
              exact .key (.inl rfl) hname
          | keyword name =>
              obtain ⟨hname, rfl⟩ := hentry h
              exact .key (.inr rfl) hname
          | _ => exact nomatch h
      | head opened =>
          cases value with
          | symbol name =>
              rw [step, Position.step] at h
              split at h
              · next hname =>
                  subst hname
                  obtain rfl := Except.ok.inj h
                  exact .fn
              · next hname =>
                  obtain rfl := Except.ok.inj h
                  exact .head hname
          | _ => exact nomatch h
      | bracket opened =>
          cases value with
          | openVector =>
              obtain rfl := Except.ok.inj h
              exact .openParameters
          | _ => exact nomatch h
      | parameter opened vector params =>
          cases value with
          | closeVector =>
              obtain rfl := Except.ok.inj h
              exact .closeParameters
          | symbol name =>
              rw [step, Position.step] at h
              split at h
              · exact nomatch h
              · next hname =>
                  obtain rfl := Except.ok.inj h
                  exact .parameter hname
          | _ => exact nomatch h
      | close opened params body =>
          cases value with
          | closeList =>
              obtain rfl := Except.ok.inj h
              exact .closeFn
          | _ => exact nomatch h

/-- The reader takes a token exactly when there is a move. -/
theorem step_eq_ok_iff : step token state = .ok next ↔ Move state token next :=
  ⟨move_of_step, Move.step_eq_ok⟩

/-! ## Moves one after another -/

/-- Tokens take the reader from a state to another. -/
inductive Run : State → List (Placed Token) → State → Prop where
  | nil (state : State) : Run state [] state
  | cons {state next last : State} {token : Placed Token} {ts : List (Placed Token)} :
      Move state token next → Run next ts last → Run state (token :: ts) last

namespace Run

variable {last : State} {ts us : List (Placed Token)}

theorem single (h : Move state token next) : Run state [token] next := .cons h (.nil next)

theorem append (h : Run state ts next) (h' : Run next us last) : Run state (ts ++ us) last := by
  induction h with
  | nil => exact h'
  | cons hmove _ ih => exact .cons hmove (ih h')

theorem split (h : Run state (ts ++ us) next) :
    ∃ middle, Run state ts middle ∧ Run middle us next := by
  induction ts generalizing state with
  | nil => exact ⟨state, .nil state, h⟩
  | cons token ts ih =>
      cases h with
      | cons hmove hrest =>
          obtain ⟨middle, hfirst, hsecond⟩ := ih hrest
          exact ⟨middle, .cons hmove hfirst, hsecond⟩

end Run

theorem run_append {length : Nat} {ts : List (Placed Token)} (h : Run state ts next)
    (us : List (Placed Token)) : run length state (ts ++ us) = run length next us := by
  induction h with
  | nil => rfl
  | cons hmove _ ih =>
      rw [List.cons_append, run, hmove.step_eq_ok]
      exact ih

/-- An expression is read exactly when the tokens take the reader to it. -/
theorem run_eq_ok_iff {length : Nat} {ts : List (Placed Token)} {e : Expr} :
    run length state ts = .ok e ↔ Run state ts (.done e) := by
  induction ts generalizing state with
  | nil =>
      constructor
      · intro h
        cases state with
        | done d =>
            obtain rfl := Except.ok.inj h
            exact .nil _
        | start => exact nomatch h
        | within position outer => exact nomatch h
      · intro h
        cases h
        rfl
  | cons token ts ih =>
      rw [run]
      constructor
      · intro h
        split at h
        · next next hnext => exact .cons (step_eq_ok_iff.mp hnext) (ih.mp h)
        · exact nomatch h
      · intro h
        cases h with
        | cons hmove hrest =>
            rw [hmove.step_eq_ok]
            exact ih.mpr hrest

end Reader

end Reql
