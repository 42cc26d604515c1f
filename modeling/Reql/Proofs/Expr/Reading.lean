/-
# `Reql.Proofs.Expr.Reading` — what the reader accepts

The reader accepts the phrases of expressions that are regular and nest no deeper than
allowed, and nothing else (`run_start_iff`).

One direction follows the reader.  The invariant `State.Read` says of every state what
tokens have led to it: the frames hold the phrases of the brackets still open, outermost
first.  The other direction follows the phrase.
-/
import Mathlib.Data.List.Nodup
import Reql.Proofs.Expr.Grammar

namespace Reql.Reader

open Reql.Expr

/-! ## What has been read -/

/-- The items of a vector and the tokens they were read from. -/
def ItemsRead (room : Nat) (items : List Expr) (ts : List (Placed Token)) : Prop :=
  ∃ parts : List (Expr × List (Placed Token)), (∀ p ∈ parts, Phrase p.1 p.2 ∧ Fits room p.1) ∧
    items.reverse = parts.map Prod.fst ∧ ts = parts.flatMap Prod.snd

/-- The entries of a map and the tokens they were read from. -/
def EntriesRead (room : Nat) (entries : List (String × Expr)) (ts : List (Placed Token)) : Prop :=
  (entries.map Prod.fst).Nodup ∧
    ∃ parts : List Entry, (∀ p ∈ parts, Phrase p.value p.tokens ∧ Fits room p.value) ∧
      entries.reverse = parts.map Entry.entry ∧ ts = parts.flatMap Entry.written

/-- An invocation without its closing bracket and the tokens it was read from. -/
def Invocation.Read (room : Nat) (i : Invocation) (ts : List (Placed Token)) : Prop :=
  i.head ≠ "fn" ∧
    ∃ parts : List Operand, (∀ p ∈ parts, Phrase p.value p.tokens ∧ Fits room p.value) ∧
      i.args.reverse = parts.filterMap Operand.arg? ∧
      i.options.reverse = parts.filterMap Operand.option? ∧
      ts = ⟨i.opened, .openList⟩ :: ⟨i.headOffset, .symbol i.head⟩ :: parts.flatMap Operand.written

/-- A frame and the tokens of its bracket so far.  Each expression in it fits the room. -/
inductive Frame.Read (room : Nat) : Frame → List (Placed Token) → Prop where
  | vector {opened : Nat} {items : List Expr} {ts : List (Placed Token)} : ItemsRead room items ts →
      Frame.Read room (.vector opened items) (⟨opened, .openVector⟩ :: ts)
  | value {opened : Nat} {entries : List (String × Expr)} {key : Placed String} {token : Token}
      {ts : List (Placed Token)} : EntriesRead room entries ts → token.IsKey key.value →
      key.value ∉ entries.map Prod.fst →
      Frame.Read room (.value opened entries key)
        (⟨opened, .openMap⟩ :: (ts ++ [⟨key.offset, token⟩]))
  | argument {i : Invocation} {ts : List (Placed Token)} : i.Read room ts →
      Frame.Read room (.argument i) ts
  | option {i : Invocation} {keyword : Placed String} {ts : List (Placed Token)} : i.Read room ts →
      Frame.Read room (.option i keyword) (ts ++ [⟨keyword.offset, .keyword keyword.value⟩])
  | body {opened word openedVector closedVector : Nat} {params : List (Placed String)} :
      (params.map Placed.value).Nodup →
      Frame.Read room (.body opened (params.map Placed.value))
        (⟨opened, .openList⟩ :: ⟨word, .symbol "fn"⟩ :: ⟨openedVector, .openVector⟩ ::
          (symbols params ++ [⟨closedVector, .closeVector⟩]))

/-- What comes next in the innermost bracket and the tokens of the bracket so far. -/
inductive Position.Read (room : Nat) : Position → List (Placed Token) → Prop where
  | item {frame : Frame} {ts : List (Placed Token)} : frame.Read room ts →
      Position.Read room (.item frame) ts
  | key {opened : Nat} {entries : List (String × Expr)} {ts : List (Placed Token)} :
      EntriesRead room entries ts →
      Position.Read room (.key opened entries) (⟨opened, .openMap⟩ :: ts)
  | head {opened : Nat} : Position.Read room (.head opened) [⟨opened, .openList⟩]
  | bracket {opened word : Nat} :
      Position.Read room (.bracket opened) [⟨opened, .openList⟩, ⟨word, .symbol "fn"⟩]
  | parameter {opened word vector : Nat} {names : List String} {params : List (Placed String)} :
      names.reverse = params.map Placed.value → names.Nodup →
      Position.Read room (.parameter opened vector names)
        (⟨opened, .openList⟩ :: ⟨word, .symbol "fn"⟩ :: ⟨vector, .openVector⟩ :: symbols params)
  | close {opened word openedVector closedVector : Nat} {params : List (Placed String)}
      {body : Expr} {ts : List (Placed Token)} : (params.map Placed.value).Nodup → Phrase body ts →
      Fits room body →
      Position.Read room (.close opened (params.map Placed.value) body)
        (⟨opened, .openList⟩ :: ⟨word, .symbol "fn"⟩ :: ⟨openedVector, .openVector⟩ ::
          (symbols params ++ ⟨closedVector, .closeVector⟩ :: ts))

/-- The open brackets, innermost first, the tokens of all of them, and the room for brackets
inside of the innermost. -/
inductive FramesRead : Nat → List Frame → List (Placed Token) → Prop where
  | nil : FramesRead maxNesting [] []
  | cons {room : Nat} {frame : Frame} {outer : List Frame} {before ts : List (Placed Token)} :
      FramesRead (room + 1) outer before → frame.Read room ts →
      FramesRead room (frame :: outer) (before ++ ts)

/-- A state and the tokens that have led to it. -/
inductive State.Read : State → List (Placed Token) → Prop where
  | start : State.Read .start []
  | within {room : Nat} {position : Position} {outer : List Frame}
      {before ts : List (Placed Token)} : FramesRead (room + 1) outer before →
      position.Read room ts → State.Read (.within position outer) (before ++ ts)
  | done {e : Expr} {ts : List (Placed Token)} : Phrase e ts → Fits maxNesting e →
      State.Read (.done e) ts

/-! ## One part more -/

variable {room : Nat} {e : Expr} {ts us : List (Placed Token)}

theorem ItemsRead.nil : ItemsRead room [] [] := ⟨[], List.forall_mem_nil _, rfl, rfl⟩

theorem ItemsRead.snoc {items : List Expr} (h : ItemsRead room items ts) (he : Phrase e us)
    (hfits : Fits room e) : ItemsRead room (e :: items) (ts ++ us) := by
  obtain ⟨parts, hparts, hitems, rfl⟩ := h
  refine ⟨parts ++ [(e, us)], ?_, by simp [hitems], by simp⟩
  exact List.forall_mem_append.mpr ⟨hparts, List.forall_mem_singleton.mpr ⟨he, hfits⟩⟩

theorem EntriesRead.nil : EntriesRead room [] [] :=
  ⟨List.nodup_nil, [], List.forall_mem_nil _, rfl, rfl⟩

theorem EntriesRead.snoc {entries : List (String × Expr)} (h : EntriesRead room entries ts)
    {key : Placed Token} {name : String} (hkey : key.value.IsKey name)
    (hname : name ∉ entries.map Prod.fst) (he : Phrase e us) (hfits : Fits room e) :
    EntriesRead room ((name, e) :: entries) (ts ++ key :: us) := by
  obtain ⟨hnodup, parts, hparts, hentries, rfl⟩ := h
  refine ⟨List.nodup_cons.mpr ⟨hname, hnodup⟩, parts ++ [⟨key, name, hkey, e, us⟩], ?_,
    by simp [hentries, Entry.entry], by simp [Entry.written]⟩
  exact List.forall_mem_append.mpr ⟨hparts, List.forall_mem_singleton.mpr ⟨he, hfits⟩⟩

theorem Invocation.Read.arg {i : Invocation} (h : i.Read room ts) (he : Phrase e us)
    (hfits : Fits room e) : Invocation.Read room { i with args := e :: i.args } (ts ++ us) := by
  obtain ⟨hhead, parts, hparts, hargs, hoptions, rfl⟩ := h
  refine ⟨hhead, parts ++ [⟨none, e, us⟩], ?_, ?_, ?_, ?_⟩
  · exact List.forall_mem_append.mpr ⟨hparts, List.forall_mem_singleton.mpr ⟨he, hfits⟩⟩
  · simp [hargs, Operand.arg?]
  · simp [hoptions, Operand.option?]
  · simp [Operand.written]

theorem Invocation.Read.option {i : Invocation} (h : i.Read room ts) (keyword : Placed String)
    (he : Phrase e us) (hfits : Fits room e) :
    Invocation.Read room
      { i with options := (Text.replaceChar '-' '_' keyword.value, e) :: i.options }
      (ts ++ ⟨keyword.offset, .keyword keyword.value⟩ :: us) := by
  obtain ⟨hhead, parts, hparts, hargs, hoptions, rfl⟩ := h
  refine ⟨hhead, parts ++ [⟨some keyword, e, us⟩], ?_, ?_, ?_, ?_⟩
  · exact List.forall_mem_append.mpr ⟨hparts, List.forall_mem_singleton.mpr ⟨he, hfits⟩⟩
  · simp [hargs, Operand.arg?]
  · simp [hoptions, Operand.option?]
  · simp [Operand.written]

/-! ## Complete brackets -/

theorem ItemsRead.phrase {items : List Expr} (h : ItemsRead room items ts) (opened closed : Nat) :
    Phrase (.vector items.reverse)
      (⟨opened, .openVector⟩ :: (ts ++ [⟨closed, .closeVector⟩])) := by
  obtain ⟨parts, hparts, hitems, rfl⟩ := h
  rw [hitems]
  exact .vector fun p hp => (hparts p hp).1

theorem ItemsRead.fits {items : List Expr} (h : ItemsRead room items ts) :
    Fits (room + 1) (.vector items.reverse) := by
  obtain ⟨parts, hparts, hitems, -⟩ := h
  refine (fits_bracket_iff rfl).mpr ⟨trivial, ?_⟩
  intro c hc
  rw [children, hitems] at hc
  obtain ⟨p, hp, rfl⟩ := List.mem_map.mp hc
  exact (hparts p hp).2

theorem EntriesRead.phrase {entries : List (String × Expr)} (h : EntriesRead room entries ts)
    (opened closed : Nat) :
    Phrase (.map entries.reverse) (⟨opened, .openMap⟩ :: (ts ++ [⟨closed, .closeMap⟩])) := by
  obtain ⟨-, parts, hparts, hentries, rfl⟩ := h
  rw [hentries]
  exact .map fun p hp => (hparts p hp).1

theorem EntriesRead.fits {entries : List (String × Expr)} (h : EntriesRead room entries ts) :
    Fits (room + 1) (.map entries.reverse) := by
  obtain ⟨hnodup, parts, hparts, hentries, -⟩ := h
  refine (fits_bracket_iff rfl).mpr ⟨?_, ?_⟩
  · rw [Regular, List.map_reverse]
    exact List.nodup_reverse.mpr hnodup
  · intro c hc
    rw [children, hentries, List.map_map] at hc
    obtain ⟨p, hp, rfl⟩ := List.mem_map.mp hc
    exact (hparts p hp).2

theorem Invocation.Read.phrase {i : Invocation} (h : i.Read room ts) (closed : Nat) :
    Phrase (.call i.head i.headOffset i.args.reverse i.options.reverse)
      (ts ++ [⟨closed, .closeList⟩]) := by
  obtain ⟨-, parts, hparts, hargs, hoptions, rfl⟩ := h
  rw [hargs, hoptions]
  let head : Placed String := ⟨i.headOffset, i.head⟩
  exact @Phrase.call _ closed head parts fun p hp => (hparts p hp).1

theorem Invocation.Read.fits {i : Invocation} (h : i.Read room ts) :
    Fits (room + 1) (.call i.head i.headOffset i.args.reverse i.options.reverse) := by
  obtain ⟨hhead, parts, hparts, hargs, hoptions, -⟩ := h
  refine (fits_bracket_iff rfl).mpr ⟨hhead, ?_⟩
  intro c hc
  rw [children, hargs, hoptions] at hc
  obtain ⟨p, hp, rfl⟩ := mem_operands.mp hc
  exact (hparts p hp).2

theorem fits_fn {params : List String} {body : Expr} (h : Fits room body)
    (hnodup : params.Nodup) : Fits (room + 1) (.fn params body) :=
  (fits_bracket_iff rfl).mpr ⟨hnodup, List.forall_mem_singleton.mpr h⟩

/-! ## One move -/

theorem Frame.Read.accept {frame : Frame} (h : frame.Read room ts) (he : Phrase e us)
    (hfits : Fits room e) : (frame.accept e).Read room (ts ++ us) := by
  cases h with
  | vector hitems => exact .item (.vector (hitems.snoc he hfits))
  | @value opened entries key token ts hentries hkey hname =>
      have hkey' : (⟨key.offset, token⟩ : Placed Token).value.IsKey key.value := hkey
      rw [List.cons_append, List.append_assoc]
      exact .key (hentries.snoc hkey' hname he hfits)
  | argument hi => exact .item (.argument (hi.arg he hfits))
  | @option i keyword ts hi =>
      rw [List.append_assoc]
      exact .item (.argument (hi.option keyword he hfits))
  | body hnodup =>
      simp only [List.cons_append, List.append_assoc, List.nil_append]
      exact .close hnodup he hfits

theorem FramesRead.deliver {frames : List Frame} (h : FramesRead room frames ts)
    (he : Phrase e us) (hfits : Fits room e) : (deliver e frames).Read (ts ++ us) := by
  cases h with
  | nil => exact .done he hfits
  | cons houter hframe =>
      rw [List.append_assoc]
      exact .within houter (hframe.accept he hfits)

theorem FramesRead.of_expecting {frames : List Frame} (h : (expecting frames).Read ts) :
    ∃ room, FramesRead room frames ts := by
  cases frames with
  | nil =>
      cases h
      exact ⟨_, .nil⟩
  | cons frame outer =>
      cases h with
      | within houter hposition => cases hposition with
        | item hframe => exact ⟨_, .cons houter hframe⟩

theorem FramesRead.room_add_length {frames : List Frame} (h : FramesRead room frames ts) :
    room + frames.length = maxNesting := by
  induction h with
  | nil => rfl
  | cons _ _ ih =>
      rw [List.length_cons]
      omega

/-- Where another bracket may open there is room for it. -/
theorem FramesRead.open {frames : List Frame} (h : (expecting frames).Read ts)
    (hlength : frames.length ≠ maxNesting) : ∃ room, FramesRead (room + 1) frames ts := by
  obtain ⟨room, hframes⟩ := FramesRead.of_expecting h
  cases room with
  | zero =>
      have hfull := hframes.room_add_length
      exact absurd (by omega) hlength
  | succ room => exact ⟨room, hframes⟩

theorem Position.Read.snoc {opened word vector offset : Nat} {names : List String}
    {params : List (Placed String)} {name : String}
    (hnames : names.reverse = params.map Placed.value) (hnodup : names.Nodup)
    (hname : name ∉ names) :
    Position.Read room (.parameter opened vector (name :: names))
      (⟨opened, .openList⟩ :: ⟨word, .symbol "fn"⟩ :: ⟨vector, .openVector⟩ :: symbols params ++
        [⟨offset, .symbol name⟩]) := by
  let param : Placed String := ⟨offset, name⟩
  have hnames' : (name :: names).reverse = (params ++ [param]).map Placed.value := by
    simp [param, hnames]
  have hsymbols : symbols params ++ [⟨offset, .symbol name⟩] = symbols (params ++ [param]) := by
    simp [param, symbols]
  rw [List.cons_append, List.cons_append, List.cons_append, hsymbols]
  exact .parameter hnames' (List.nodup_cons.mpr ⟨hname, hnodup⟩)

/-- A move reads its token. -/
theorem State.Read.move {state next : State} {token : Placed Token} (h : state.Read ts)
    (hmove : Move state token next) : next.Read (ts ++ [token]) := by
  cases hmove with
  | leaf frames hleaf =>
      obtain ⟨room, hframes⟩ := FramesRead.of_expecting h
      exact hframes.deliver (.leaf hleaf) (fits_of_leaf? hleaf room)
  | openVector hlength =>
      obtain ⟨room, hframes⟩ := FramesRead.open h hlength
      exact .within hframes (.item (.vector .nil))
  | openMap hlength =>
      obtain ⟨room, hframes⟩ := FramesRead.open h hlength
      exact .within hframes (.key .nil)
  | openList hlength =>
      obtain ⟨room, hframes⟩ := FramesRead.open h hlength
      exact .within hframes .head
  | closeVector =>
      cases h with
      | within houter hposition => cases hposition with
        | item hframe => cases hframe with
          | vector hitems =>
              rw [List.append_assoc]
              exact houter.deliver (hitems.phrase _ _) hitems.fits
  | key hkey hname =>
      cases h with
      | within houter hposition => cases hposition with
        | key hentries =>
            rw [List.append_assoc]
            exact .within houter (.item (.value hentries hkey hname))
  | closeMap =>
      cases h with
      | within houter hposition => cases hposition with
        | key hentries =>
            rw [List.append_assoc]
            exact houter.deliver (hentries.phrase _ _) hentries.fits
  | head hname =>
      cases h with
      | within houter hposition => cases hposition with
        | head =>
            rw [List.append_assoc]
            exact .within houter
              (.item (.argument ⟨hname, [], List.forall_mem_nil _, rfl, rfl, rfl⟩))
  | keyword =>
      cases h with
      | within houter hposition => cases hposition with
        | item hframe => cases hframe with
          | argument hi =>
              rw [List.append_assoc]
              exact .within houter (.item (.option hi))
  | closeCall =>
      cases h with
      | within houter hposition => cases hposition with
        | item hframe => cases hframe with
          | argument hi =>
              rw [List.append_assoc]
              exact houter.deliver (hi.phrase _) hi.fits
  | fn =>
      cases h with
      | within houter hposition => cases hposition with
        | head =>
            rw [List.append_assoc]
            exact .within houter .bracket
  | openParameters =>
      cases h with
      | within houter hposition => cases hposition with
        | bracket =>
            rw [List.append_assoc]
            exact .within houter (@Position.Read.parameter _ _ _ _ [] [] rfl List.nodup_nil)
  | @parameter outer offset opened vector names name hname =>
      cases h with
      | within houter hposition => cases hposition with
        | @parameter _ word _ _ params hnames hnodup =>
            rw [List.append_assoc]
            exact .within houter (Position.Read.snoc hnames hnodup hname)
  | closeParameters =>
      cases h with
      | within houter hposition => cases hposition with
        | parameter hnames hnodup =>
            rw [List.append_assoc, hnames]
            refine .within houter (.item (.body ?_))
            rw [← hnames]
            exact List.nodup_reverse.mpr hnodup
  | closeFn =>
      cases h with
      | within houter hposition => cases hposition with
        | close hnodup hbody hfits =>
            rw [List.append_assoc]
            refine houter.deliver ?_ (fits_fn hfits hnodup)
            simpa using Phrase.fn hbody

theorem State.Read.run {state next : State} (hrun : Run state us next) (h : state.Read ts) :
    next.Read (ts ++ us) := by
  induction hrun generalizing ts with
  | nil => rwa [List.append_nil]
  | cons hmove _ ih =>
      rw [List.append_cons]
      exact ih (h.move hmove)

/-! ## Reading a phrase -/

/-- A relation that goes along with the moves of the reader. -/
structure Follows (R : State → List (Placed Token) → State → Prop) : Prop where
  nil (state : State) : R state [] state
  cons {state next last : State} {token : Placed Token} {ts : List (Placed Token)} :
    Move state token next → R next ts last → R state (token :: ts) last
  append {state next last : State} {ts us : List (Placed Token)} :
    R state ts next → R next us last → R state (ts ++ us) last

theorem follows_run : Follows Run := ⟨.nil, .cons, .append⟩

section

variable {R : State → List (Placed Token) → State → Prop} {outer : List Frame} {opened : Nat}

theorem Follows.snoc (hR : Follows R) {state next last : State} {token : Placed Token}
    (h : R state ts next) (hmove : Move next token last) : R state (ts ++ [token]) last :=
  hR.append h (hR.cons hmove (hR.nil last))

/-- The tokens take the reader past the expression. -/
def Reads (R : State → List (Placed Token) → State → Prop) (frames : List Frame) (e : Expr)
    (ts : List (Placed Token)) : Prop :=
  R (expecting frames) ts (deliver e frames)

theorem Follows.items (hR : Follows R) {parts : List (Expr × List (Placed Token))}
    (h : ∀ p ∈ parts, ∀ items, Reads R (.vector opened items :: outer) p.1 p.2)
    (items : List Expr) :
    R (.within (.item (.vector opened items)) outer) (parts.flatMap Prod.snd)
      (.within (.item (.vector opened ((parts.map Prod.fst).reverse ++ items))) outer) := by
  induction parts generalizing items with
  | nil => exact hR.nil _
  | cons p parts ih =>
      obtain ⟨hp, hparts⟩ := List.forall_mem_cons.mp h
      rw [List.flatMap_cons, List.map_cons, List.reverse_cons, List.append_assoc]
      exact hR.append (hp items) (ih hparts (p.1 :: items))

theorem Follows.entries (hR : Follows R) {parts : List Entry}
    (h : ∀ p ∈ parts, ∀ entries, Reads R (.value opened entries ⟨p.key.offset, p.name⟩ :: outer)
      p.value p.tokens)
    {entries : List (String × Expr)}
    (hnames : (entries.map Prod.fst ++ parts.map Entry.name).Nodup) :
    R (.within (.key opened entries) outer) (parts.flatMap Entry.written)
      (.within (.key opened ((parts.map Entry.entry).reverse ++ entries)) outer) := by
  induction parts generalizing entries with
  | nil => exact hR.nil _
  | cons p parts ih =>
      obtain ⟨hp, hparts⟩ := List.forall_mem_cons.mp h
      have hnames' := List.nodup_middle.mp hnames
      have hname : p.name ∉ entries.map Prod.fst :=
        fun hmem => (List.nodup_cons.mp hnames').1 (List.mem_append_left _ hmem)
      rw [List.flatMap_cons, List.map_cons, List.reverse_cons, List.append_assoc]
      exact hR.cons (.key p.isKey hname) (hR.append (hp entries) (ih hparts hnames'))

theorem Follows.operands (hR : Follows R) {parts : List Operand} {head : String} {offset : Nat}
    (h : ∀ p ∈ parts, ∀ frame : Frame, Reads R (frame :: outer) p.value p.tokens)
    (args : List Expr) (options : List (String × Expr)) :
    R (.within (.item (.argument ⟨opened, head, offset, args, options⟩)) outer)
      (parts.flatMap Operand.written)
      (.within (.item (.argument ⟨opened, head, offset,
        (parts.filterMap Operand.arg?).reverse ++ args,
        (parts.filterMap Operand.option?).reverse ++ options⟩)) outer) := by
  induction parts generalizing args options with
  | nil => exact hR.nil _
  | cons p parts ih =>
      obtain ⟨hp, hparts⟩ := List.forall_mem_cons.mp h
      obtain ⟨keyword, value, tokens⟩ := p
      rw [List.flatMap_cons]
      cases keyword with
      | none =>
          simp only [List.filterMap_cons, Operand.arg?, Operand.option?, Option.map_none,
            List.reverse_cons, List.append_assoc]
          exact hR.append (hp _) (ih hparts (value :: args) options)
      | some keyword =>
          simp only [List.filterMap_cons, Operand.arg?, Operand.option?, Option.map_some,
            List.reverse_cons, List.append_assoc]
          exact hR.cons .keyword (hR.append (hp _) (ih hparts args (_ :: options)))

theorem Follows.params (hR : Follows R) {vector : Nat} {params : List (Placed String)}
    {names : List String} (hnames : (names ++ params.map Placed.value).Nodup) :
    R (.within (.parameter opened vector names) outer) (symbols params)
      (.within (.parameter opened vector ((params.map Placed.value).reverse ++ names)) outer) := by
  induction params generalizing names with
  | nil => exact hR.nil _
  | cons param params ih =>
      have hnames' := List.nodup_middle.mp hnames
      have hname : param.value ∉ names :=
        fun hmem => (List.nodup_cons.mp hnames').1 (List.mem_append_left _ hmem)
      rw [List.map_cons, List.reverse_cons, List.append_assoc]
      exact hR.cons (.parameter hname) (ih hnames')

/-- What `Fit` says of an expression in brackets it says of the parts, and the bracket may open.
Or else the relation does not go past the bracket but holds for anything. -/
def Opening (R : State → List (Placed Token) → State → Prop) (Fit : List Frame → Expr → Prop) :
    Prop :=
  ∀ frames e, e.isBracket = true → Fit frames e →
    (frames.length ≠ maxNesting ∧ e.Regular ∧
      ∀ c ∈ e.children, ∀ frame : Frame, Fit (frame :: frames) c) ∨
    ∀ token ts last, token.value.isOpening = true → R (expecting frames) (token :: ts) last

/-- The phrase of an expression that fits takes the reader past it. -/
theorem Follows.reads (hR : Follows R) {Fit : List Frame → Expr → Prop} (hFit : Opening R Fit)
    (h : Phrase e ts) {frames : List Frame} (hfits : Fit frames e) : Reads R frames e ts := by
  induction h generalizing frames with
  | leaf hleaf => exact hR.cons (.leaf frames hleaf) (hR.nil _)
  | @vector opened closed parts _ ih =>
      rcases hFit _ _ rfl hfits with ⟨hopen, -, hchildren⟩ | hall
      · have hparts : ∀ p ∈ parts, ∀ items, Reads R (.vector opened items :: frames) p.1 p.2 :=
          fun p hp items => ih p hp (hchildren _ (List.mem_map_of_mem hp) _)
        have hclosed := hR.snoc (hR.items hparts []) (@Move.closeVector _ closed _ _)
        rw [List.append_nil, List.reverse_reverse] at hclosed
        exact hR.cons (.openVector hopen) hclosed
      · exact hall _ _ _ rfl
  | @map opened closed parts _ ih =>
      rcases hFit _ _ rfl hfits with ⟨hopen, hown, hchildren⟩ | hall
      · rw [Regular, List.map_map] at hown
        have hparts : ∀ p ∈ parts, ∀ entries,
            Reads R (.value opened entries ⟨p.key.offset, p.name⟩ :: frames) p.value p.tokens :=
          fun p hp entries =>
            ih p hp (hchildren _ (List.mem_map_of_mem (List.mem_map_of_mem hp)) _)
        have hentries := @Follows.entries R frames opened hR parts hparts [] hown
        have hclosed := hR.snoc hentries (@Move.closeMap _ closed _ _)
        rw [List.append_nil, List.reverse_reverse] at hclosed
        exact hR.cons (.openMap hopen) hclosed
      · exact hall _ _ _ rfl
  | @call opened closed head parts _ ih =>
      rcases hFit _ _ rfl hfits with ⟨hopen, hhead, hchildren⟩ | hall
      · have hparts : ∀ p ∈ parts, ∀ frame : Frame, Reads R (frame :: frames) p.value p.tokens :=
          fun p hp frame => ih p hp (hchildren _ (mem_operands.mpr ⟨p, hp, rfl⟩) frame)
        have hoperands := @Follows.operands R frames opened hR parts head.value head.offset
          hparts [] []
        have hclosed := hR.snoc hoperands (@Move.closeCall _ closed _)
        simp only [List.append_nil, List.reverse_reverse] at hclosed
        exact hR.cons (.openList hopen) (hR.cons (.head hhead) hclosed)
      · exact hall _ _ _ rfl
  | @fn opened word openedVector closedVector closed params body ts _ ih =>
      rcases hFit _ _ rfl hfits with ⟨hopen, hnames, hchildren⟩ | hall
      · have hparams := @Follows.params R frames opened hR openedVector params [] hnames
        have hbracket := hR.snoc hparams (@Move.closeParameters frames closedVector _ _ _)
        rw [List.append_nil, List.reverse_reverse] at hbracket
        have hbody : Reads R (.body opened (params.map Placed.value) :: frames) body ts :=
          ih (hchildren body (.head _) _)
        have hclosed := hR.append hbracket (hR.snoc hbody (@Move.closeFn _ closed _ _ _))
        rw [List.append_assoc] at hclosed
        exact hR.cons (.openList hopen) (hR.cons .fn (hR.cons .openParameters hclosed))
      · exact hall _ _ _ rfl

end

/-- A bracket may open where there is room, and there is less room in it. -/
theorem opening_fits :
    Opening Run fun frames e => ∃ room, room + frames.length = maxNesting ∧ Fits room e := by
  rintro frames e he ⟨room, hroom, hfits⟩
  obtain ⟨inner, rfl⟩ := hfits.exists_room he
  obtain ⟨hown, hchildren⟩ := (fits_bracket_iff he).mp hfits
  refine .inl ⟨by omega, hown, ?_⟩
  intro c hc frame
  exact ⟨inner, by rw [List.length_cons]; omega, hchildren c hc⟩

/-- The reader accepts the phrases of the expressions that fit. -/
theorem run_start_iff : Run .start ts (.done e) ↔ Phrase e ts ∧ Fits maxNesting e := by
  constructor
  · intro hrun
    cases State.Read.start.run hrun with
    | done he hfits => exact ⟨he, hfits⟩
  · rintro ⟨he, hfits⟩
    exact @Follows.reads _ _ _ follows_run _ opening_fits he [] ⟨maxNesting, rfl, hfits⟩

end Reql.Reader

/-! ## Texts -/

namespace Reql.Expr

variable {text : String} {e : Expr}

/-- The expression of a text is the one that its tokens write. -/
theorem parse_eq_ok_iff : Expr.parse text = .ok e ↔
    ∃ ts, tokenize text = .ok ts ∧ Phrase e ts ∧ Fits Reader.maxNesting e := by
  unfold Expr.parse
  cases tokenize text with
  | error fault => exact ⟨nofun, fun ⟨_, h, _⟩ => nomatch h⟩
  | ok ts =>
      rw [Reader.run_eq_ok_iff, Reader.run_start_iff]
      constructor
      · intro h
        exact ⟨ts, rfl, h⟩
      · rintro ⟨us, hus, h⟩
        obtain rfl := Except.ok.inj hus
        exact h

/-- The names that a map or a function of a read text brings in are distinct. -/
theorem parse_namesDistinct (h : Expr.parse text = .ok e) : e.NamesDistinct := by
  obtain ⟨-, -, -, hfits⟩ := parse_eq_ok_iff.mp h
  intro q d hd
  have hregular : d.Regular := hfits.regular q d hd
  cases d with
  | map entries => exact hregular
  | fn params body => exact hregular
  | _ => exact List.nodup_nil

/-- A text that is read is laid out with tokens that write a well-formed expression, and
with no other tokens. -/
theorem parse_sound (h : Expr.parse text = .ok e) :
    e.WellFormed ∧
      ∃ ts, tokenize text = .ok ts ∧ Token.Layout 0 ts text.toList ∧ Phrase e ts := by
  obtain ⟨ts, hts, hphrase, hfits⟩ := parse_eq_ok_iff.mp h
  have hlayout := tokenize_eq_ok_iff.mp hts
  refine ⟨⟨hfits.nesting_le, hfits.regular, ?_⟩, ts, hts, hlayout, hphrase⟩
  exact hphrase.spellable (Token.proper_of_layout hlayout)

theorem parse_sound_filter :
    let e : Expr := .call "filter" 1 [.symbol "xs" 8, .fn ["x"] (.map [("a", .symbol "x" 39)])]
      [("default_to", .null)]
    Expr.parse "(filter xs :default-to nil (fn [x] {:a x}))" = .ok e ∧ e.WellFormed := by
  intro e
  have h : Expr.parse "(filter xs :default-to nil (fn [x] {:a x}))" = .ok e := rfl
  exact ⟨h, (parse_sound h).1⟩

end Reql.Expr
