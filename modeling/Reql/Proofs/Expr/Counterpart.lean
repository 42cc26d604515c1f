/-
# `Reql.Proofs.Expr.Counterpart` — a query depends on the commands it names, not on their names

Two expressions are counterparts if they differ only in the heads of invocations, which
are related by `H`, and in offsets, related by `O`.  Where related heads stand for the
same command, or both for none, planning gives the same plan or the same error up to the
name or the offset in it (`Expr.plan_counterpart`).  After that no head is seen again.

Scopes play no part: a head is looked up among the commands only, whatever parameters
are in reach, and the parameters of counterparts are the same.

What follows for one registry is that commands a text does not name, and other spellings
of those it names, make no difference (`Registry.build_named_commands`).
-/
import Reql.Proofs.Expr.Resolution
import Reql.Proofs.Registry.Route

namespace Reql

variable {α β : Type} {H : String → String → Prop} {O : Nat → Nat → Prop}

/-- The same expression with other heads in it, in other places of a text. -/
inductive Expr.Counterpart (H : String → String → Prop) (O : Nat → Nat → Prop) :
    Expr → Expr → Prop where
  | null : Counterpart H O .null .null
  | bool (value : Bool) : Counterpart H O (.bool value) (.bool value)
  | number (value : Double) : Counterpart H O (.number value) (.number value)
  | string (value : String) : Counterpart H O (.string value) (.string value)
  | symbol (name : String) {offset offset' : Nat} : O offset offset' →
      Counterpart H O (.symbol name offset) (.symbol name offset')
  | vector {items items' : List Expr} : List.Forall₂ (Counterpart H O) items items' →
      Counterpart H O (.vector items) (.vector items')
  | map {entries entries' : List (String × Expr)} : Named (Counterpart H O) entries entries' →
      Counterpart H O (.map entries) (.map entries')
  | call {head head' : String} {offset offset' : Nat} {args args' : List Expr}
      {options options' : List (String × Expr)} : H head head' → O offset offset' →
      List.Forall₂ (Counterpart H O) args args' → Named (Counterpart H O) options options' →
      Counterpart H O (.call head offset args options) (.call head' offset' args' options')
  | fn (params : List String) {body body' : Expr} : Counterpart H O body body' →
      Counterpart H O (.fn params body) (.fn params body')

/-- The same error up to the head or the offset that it quotes. -/
inductive Error.Counterpart (H : String → String → Prop) (O : Nat → Nat → Prop) :
    Error → Error → Prop where
  | argument (cause : ArgumentError) : Counterpart H O (.argument cause) (.argument cause)
  | unknownCommand {head head' : String} : H head head' →
      Counterpart H O (.registry (.unknownCommand head)) (.registry (.unknownCommand head'))
  | unboundSymbol (name : String) {offset offset' : Nat} : O offset offset' →
      Counterpart H O (.read offset (.unboundSymbol name)) (.read offset' (.unboundSymbol name))

theorem Error.Counterpart.eq (hH : ∀ head head', H head head' → head = head')
    (hO : ∀ offset offset', O offset offset' → offset = offset') {e e' : Error}
    (h : e.Counterpart H O e') : e = e' := by
  cases h with
  | argument cause => rfl
  | unknownCommand hhead => rw [hH _ _ hhead]
  | unboundSymbol name hoffset => rw [hO _ _ hoffset]

/-! ## Two computations from the same number -/

namespace Drawing

/-- From any number both end on the same number, with the same answer or with errors
related by `E`. -/
def Matches (E : Error → Error → Prop) (m m' : Drawing α) : Prop :=
  ∀ start, Agree E Eq (m.runFrom start).1 (m'.runFrom start).1 ∧
    (m.runFrom start).2 = (m'.runFrom start).2

namespace Matches

variable {E : Error → Error → Prop}

theorem pure (a : α) : Matches E (Pure.pure a : Drawing α) (Pure.pure a) :=
  fun _ => ⟨.ok rfl, rfl⟩

theorem throw {e e' : Error} (h : E e e') :
    Matches E (MonadExcept.throw e : Drawing α) (MonadExcept.throw e') :=
  fun _ => ⟨.error h, rfl⟩

theorem fresh (count : Nat) : Matches E (fresh count) (fresh count) :=
  fun _ => ⟨.ok rfl, rfl⟩

theorem bind {m m' : Drawing α} {f f' : α → Drawing β} (hm : Matches E m m')
    (hf : ∀ a, Matches E (f a) (f' a)) : Matches E (m >>= f) (m' >>= f') := by
  intro start
  rw [runFrom_bind, runFrom_bind]
  have h := hm start
  generalize m.runFrom start = run, m'.runFrom start = run' at h
  obtain ⟨x, next⟩ := run
  obtain ⟨y, next'⟩ := run'
  obtain ⟨hxy, rfl⟩ : Agree E Eq x y ∧ next = next' := h
  cases hxy with
  | @ok a b hab =>
      obtain rfl : a = b := hab
      exact hf a next
  | error he => exact ⟨.error he, rfl⟩

theorem map {m m' : Drawing α} (hm : Matches E m m') (g : α → β) :
    Matches E (m >>= fun a => Pure.pure (g a)) (m' >>= fun a => Pure.pure (g a)) :=
  hm.bind fun a => pure (g a)

/-- Where related errors are equal, so are the computations from every number. -/
theorem runFrom_eq {m m' : Drawing α} (hm : Matches E m m') (hE : ∀ e e', E e e' → e = e')
    (start : Nat) : m.runFrom start = m'.runFrom start := by
  obtain ⟨hanswer, hnext⟩ := hm start
  refine Prod.ext ?_ hnext
  generalize (m.runFrom start).1 = x, (m'.runFrom start).1 = y at hanswer
  cases hanswer with
  | ok hab => rw [hab]
  | error he => rw [hE _ _ he]

end Matches

end Drawing

/-! ## Planning counterparts -/

namespace Expr

variable {r r' : Registry}

theorem resolve_counterpart {head head' : String} (h : H head head')
    (hget : r.get? head = r'.get? head') :
    Drawing.Matches (Error.Counterpart H O) (Drawing.ofOutcome .registry (r.resolve head))
      (Drawing.ofOutcome .registry (r'.resolve head')) := by
  rw [Registry.resolve, Registry.resolve, hget]
  cases r'.get? head' with
  | some c => exact .pure c
  | none => exact .throw (.unknownCommand h)

mutual

/-- Counterparts have the same plan in every scope, or fail alike. -/
theorem plan_counterpart (hH : ∀ head head', H head head' → r.get? head = r'.get? head') :
    ∀ {e e' : Expr}, e.Counterpart H O e' → ∀ scope,
      Drawing.Matches (Error.Counterpart H O) (e.plan r scope) (e'.plan r' scope)
  | .null, _, h, _ | .bool _, _, h, _ | .number _, _, h, _ | .string _, _, h, _ => by
      cases h
      exact .pure _
  | .symbol name _, _, h, scope => by
      cases h with
      | symbol _ hoffset =>
          rw [plan, plan]
          cases scope.lookup name with
          | some id => exact .pure _
          | none => exact .throw (.unboundSymbol name hoffset)
  | .vector _, _, h, scope => by
      cases h with
      | vector hitems => exact (planItems_counterpart hH hitems scope).map _
  | .map _, _, h, scope => by
      cases h with
      | map hentries => exact (planEntries_counterpart hH hentries scope).map _
  | .call _ _ _ _, _, h, scope => by
      cases h with
      | call hhead _ hargs hoptions =>
          refine (resolve_counterpart hhead (hH _ _ hhead)).bind ?_
          intro c
          refine (planItems_counterpart hH hargs scope).bind ?_
          intro args
          exact (planEntries_counterpart hH hoptions scope).map _
  | .fn params _, _, h, scope => by
      cases h with
      | fn _ hbody =>
          refine (Drawing.Matches.fresh params.length).bind ?_
          intro ids
          exact (plan_counterpart hH hbody (params.zip ids ++ scope)).map _

theorem planItems_counterpart (hH : ∀ head head', H head head' → r.get? head = r'.get? head') :
    ∀ {items items' : List Expr}, List.Forall₂ (Counterpart H O) items items' → ∀ scope,
      Drawing.Matches (Error.Counterpart H O) (planItems r scope items)
        (planItems r' scope items')
  | [], _, .nil, _ => .pure []
  | _ :: _, _, .cons h hrest, scope =>
      (plan_counterpart hH h scope).bind fun _ =>
        (planItems_counterpart hH hrest scope).map _

theorem planEntries_counterpart (hH : ∀ head head', H head head' → r.get? head = r'.get? head') :
    ∀ {entries entries' : List (String × Expr)}, Named (Counterpart H O) entries entries' →
      ∀ scope, Drawing.Matches (Error.Counterpart H O) (planEntries r scope entries)
        (planEntries r' scope entries')
  | [], _, .nil, _ => .pure []
  | _ :: _, _, .cons _ h hrest, scope =>
      (plan_counterpart hH h scope).bind fun _ =>
        (planEntries_counterpart hH hrest scope).map _

end

theorem build_counterpart (hn : r.normalizer = r'.normalizer)
    (hH : ∀ head head', H head head' → r.get? head = r'.get? head') {e e' : Expr}
    (h : e.Counterpart H O e') :
    Drawing.Matches (Error.Counterpart H O) (e.build r) (e'.build r') := by
  refine (plan_counterpart hH h []).bind ?_
  intro p
  rw [hn]
  cases p.term r'.normalizer with
  | ok t => exact .pure t
  | error cause => exact .throw (.argument cause)

/-! ## An expression is its own counterpart -/

mutual

theorem Counterpart.refl (hO : ∀ offset, O offset offset) : ∀ (e : Expr) (reach : List String),
    (∀ head, .head head ∈ e.mentions reach → H head head) → e.Counterpart H O e
  | .null, _, _ => .null
  | .bool value, _, _ => .bool value
  | .number value, _, _ => .number value
  | .string value, _, _ => .string value
  | .symbol name offset, _, _ => .symbol name (hO offset)
  | .vector items, reach, hH => .vector (reflItems hO items reach hH)
  | .map entries, reach, hH => .map (reflEntries hO entries reach hH)
  | .call head offset args options, reach, hH => by
      refine .call (hH head (.head _)) (hO offset) ?_ ?_
      · refine reflItems hO args reach ?_
        intro other hother
        exact hH other (.tail _ (List.mem_append_left _ hother))
      · refine reflEntries hO options reach ?_
        intro other hother
        exact hH other (.tail _ (List.mem_append_right _ hother))
  | .fn params body, reach, hH => .fn params (Counterpart.refl hO body (params ++ reach) hH)

theorem reflItems (hO : ∀ offset, O offset offset) : ∀ (items : List Expr) (reach : List String),
    (∀ head, .head head ∈ itemMentions reach items → H head head) →
      List.Forall₂ (Counterpart H O) items items
  | [], _, _ => .nil
  | e :: rest, reach, hH =>
      .cons (Counterpart.refl hO e reach fun _ h => hH _ (List.mem_append_left _ h))
        (reflItems hO rest reach fun _ h => hH _ (List.mem_append_right _ h))

theorem reflEntries (hO : ∀ offset, O offset offset) :
    ∀ (entries : List (String × Expr)) (reach : List String),
      (∀ head, .head head ∈ entryMentions reach entries → H head head) →
        Named (Counterpart H O) entries entries
  | [], _, _ => .nil
  | (name, e) :: rest, reach, hH =>
      .cons name (Counterpart.refl hO e reach fun _ h => hH _ (List.mem_append_left _ h))
        (reflEntries hO rest reach fun _ h => hH _ (List.mem_append_right _ h))

end

end Expr

/-! ## Building counterparts -/

namespace Registry

/-- What a text builds is unchanged if the commands that it names are. -/
theorem build_congr {r r' : Registry} (hn : r.normalizer = r'.normalizer) {text : String}
    (h : ∀ e, Expr.parse text = .ok e →
      ∀ head, .head head ∈ e.mentions [] → r.get? head = r'.get? head) (start : Nat) :
    (r.build text).runFrom start = (r'.build text).runFrom start := by
  cases hparse : Expr.parse text with
  | error fault =>
      simp only [build, hparse, Drawing.ofOutcome]
      rfl
  | ok e =>
      rw [build_of_parse hparse, build_of_parse hparse]
      have hself : e.Counterpart
          (fun head head' => head = head' ∧ r.get? head = r'.get? head') Eq e :=
        .refl (fun _ => rfl) e [] fun head hhead => ⟨rfl, h e hparse head hhead⟩
      have hbuild := Expr.build_counterpart hn (fun _ _ => And.right) hself
      refine hbuild.runFrom_eq ?_ start
      intro cause cause' hcause
      exact hcause.eq (fun _ _ => And.left) fun _ _ => id

/-- Texts that are the same but for heads and offsets, in two registries with the same limit
on nesting, build the same term or fail alike, if each head of the one stands for the command
that the head of the other stands for, or neither for any.

So edits of names that are not on the way from a head to its command never change what a text
builds, and neither does another spelling of a head. -/
theorem build_named_commands :
    (∀ {r r' : Registry} {text text' : String} {e e' : Expr} {O : Nat → Nat → Prop},
      r.normalizer = r'.normalizer → Expr.parse text = .ok e → Expr.parse text' = .ok e' →
      e.Counterpart (fun head head' => r.get? head = r'.get? head') O e' →
        Drawing.Matches (Error.Counterpart (fun head head' => r.get? head = r'.get? head') O)
          (r.build text) (r'.build text')) ∧
    ∀ {r : Registry}, r.Reachable →
      (∀ {text : String} {run : List Edit}, (∀ e, Expr.parse text = .ok e →
        ∀ head, .head head ∈ e.mentions [] → ∀ edit ∈ run, edit.written ∉ r.route head) →
          ∀ start, ((r.after run).build text).runFrom start = (r.build text).runFrom start) ∧
      ∀ {text text' : String} {e e' : Expr} {O : Nat → Nat → Prop},
        Expr.parse text = .ok e → Expr.parse text' = .ok e' →
        e.Counterpart (fun head head' => ∃ name, r.Spells head name ∧ r.Spells head' name) O e' →
          Drawing.Matches
            (Error.Counterpart
              (fun head head' => ∃ name, r.Spells head name ∧ r.Spells head' name) O)
            (r.build text) (r.build text') := by
  refine ⟨?_, ?_⟩
  · intro r r' text text' e e' O hn hparse hparse' h
    rw [build_of_parse hparse, build_of_parse hparse']
    exact Expr.build_counterpart hn (fun _ _ => id) h
  · intro r hreachable
    have hr := consistent_of_reachable hreachable
    refine ⟨?_, ?_⟩
    · intro text run hrun start
      refine build_congr (normalizer_after run) ?_ start
      intro e hparse head hhead
      exact get?_after hr (hrun e hparse head hhead)
    · intro text text' e e' O hparse hparse' h
      rw [build_of_parse hparse, build_of_parse hparse']
      refine Expr.build_counterpart rfl ?_ h
      rintro head head' ⟨name, hhead, hhead'⟩
      rw [hhead.get?_eq hr, hhead'.get?_eq hr]

/-- A command named with a dash, and by an alias that is added later. -/
theorem build_named_commands_alias :
    let typeOf : Command := { name := "type_of", operation := .typeOf, required := [.any] }
    let r := blank.perform (.register typeOf)
    let aliased := r.perform (.addAlias "kind" "type_of")
    aliased.Reachable ∧
      Drawing.Matches
        (Error.Counterpart (fun head head' => r.get? head = aliased.get? head') fun _ _ => True)
        (r.build "(type-of [])") (aliased.build " (kind [])") ∧
      (∀ start, ((r.after [.addAlias "kind" "type_of", .unregister "get"]).build
        "(type-of [])").runFrom start = (r.build "(type-of [])").runFrom start) ∧
      Drawing.Matches
        (Error.Counterpart
          (fun head head' => ∃ name, aliased.Spells head name ∧ aliased.Spells head' name)
          fun _ _ => True)
        (aliased.build "(type-of [])") (aliased.build " (kind [])") := by
  intro typeOf r aliased
  have hr : r.Reachable := .write _ .blank
  have haliased : aliased.Reachable := .write _ hr
  have hdashed : Expr.parse "(type-of [])" = .ok (.call "type-of" 1 [.vector []] []) := rfl
  have hkind : Expr.parse " (kind [])" = .ok (.call "kind" 2 [.vector []] []) := rfl
  refine ⟨haliased, ?_, ?_, ?_⟩
  · exact build_named_commands.1 rfl hdashed hkind
      (.call rfl trivial (.cons (.vector .nil) .nil) .nil)
  · refine (build_named_commands.2 hr).1 ?_
    intro e he head hhead edit hedit
    obtain rfl := Except.ok.inj (hdashed.symm.trans he)
    obtain rfl : head = "type-of" := by simpa [Expr.mentions, Expr.itemMentions,
      Expr.entryMentions] using hhead
    revert edit
    decide +kernel
  · have hspells : aliased.Spells "type-of" "type_of" ∧ aliased.Spells "kind" "type_of" :=
      ⟨.dashed rfl rfl rfl (.itself _), .byAlias rfl⟩
    exact (build_named_commands.2 haliased).2 hdashed hkind
      (.call ⟨_, hspells⟩ trivial (.cons (.vector .nil) .nil) .nil)

end Registry

end Reql
