/-
# `Reql.Proofs.Depth` — what a higher limit on nesting changes

The limit is spent in many places: on each argument and each option, on the values of
an object, on the body of a function and on the whole, every time from the start.  In
all of them running out of levels is the same error, and nothing but this error depends
on the limit.  So under the lower of two limits a computation comes to what it comes to
under the higher one, unless it runs out (`Limited`).

Names are looked up before anything is normalized: planning does not know the limit.
-/
import Reql.Proofs.Expr.Counterpart

namespace Reql

variable {α β ε ζ : Type}

/-! ## The same unless something runs out -/

/-- The first outcome is the second, unless it is the failure `limit`. -/
inductive Limited (limit : ε) : Except ε α → Except ε α → Prop where
  | exceeded (y : Except ε α) : Limited limit (.error limit) y
  | same (x : Except ε α) : Limited limit x x

namespace Limited

variable {limit : ε} {x y : Except ε α}

theorem bind {f g : α → Except ε β} (h : Limited limit x y)
    (hfg : ∀ a, Limited limit (f a) (g a)) : Limited limit (x >>= f) (y >>= g) := by
  cases h with
  | exceeded y => exact .exceeded _
  | same x =>
      cases x with
      | error e => exact .same _
      | ok a => exact hfg a

/-- What comes first does not depend on the limit. -/
theorem after (x : Except ε α) {f g : α → Except ε β} (hfg : ∀ a, Limited limit (f a) (g a)) :
    Limited limit (x >>= f) (x >>= g) :=
  (Limited.same x).bind hfg

theorem mapError (h : Limited limit x y) (toError : ε → ζ) :
    Limited (toError limit) (x.mapError toError) (y.mapError toError) := by
  cases h with
  | exceeded y => exact .exceeded _
  | same x => exact .same _

theorem eq_ok (h : Limited limit x y) {a : α} (hx : x = .ok a) : y = .ok a := by
  cases h with
  | exceeded y => exact nomatch hx
  | same x => exact hx

theorem exists_error (h : Limited limit x y) {e : ε} (hy : y = .error e) :
    ∃ e', x = .error e' ∧ (e' = e ∨ e' = limit) := by
  cases h with
  | exceeded y => exact ⟨limit, rfl, .inr rfl⟩
  | same x => exact ⟨e, hy, .inl rfl⟩

end Limited

/-! ## Normalizing -/

namespace Normalizer

mutual

theorem normalizeAt_limited : ∀ {m n : Nat}, m ≤ n → ∀ v : Value,
    Limited .nestingLimit (normalizeAt m v) (normalizeAt n v)
  | _, _, _, .term _ | _, _, _, .null | _, _, _, .bool _ | _, _, _, .string _ => .same _
  | _, _, _, .number _ => .same _
  | 0, _, _, .array _ => .exceeded _
  | 0, _, _, .object _ => .exceeded _
  | _ + 1, _ + 1, h, .array items =>
    (normalizeItems_limited (Nat.le_of_succ_le_succ h) items).bind fun _ => .same _
  | _ + 1, _ + 1, h, .object fields =>
    (normalizeFields_limited (Nat.le_of_succ_le_succ h) fields).bind fun _ => .same _

theorem normalizeItems_limited : ∀ {m n : Nat}, m ≤ n → ∀ items : List Value,
    Limited .nestingLimit (normalizeItems m items) (normalizeItems n items)
  | _, _, _, [] => .same _
  | _, _, h, item :: rest =>
    (normalizeAt_limited h item).bind fun _ =>
      (normalizeItems_limited h rest).bind fun _ => .same _

theorem normalizeFields_limited : ∀ {m n : Nat}, m ≤ n → ∀ fields : List (String × Value),
    Limited .nestingLimit (normalizeFields m fields) (normalizeFields n fields)
  | _, _, _, [] => .same _
  | _, _, h, (_, value) :: rest =>
    (normalizeAt_limited h value).bind fun _ =>
      (normalizeFields_limited h rest).bind fun _ => .same _

end

variable {n n' : Normalizer} (h : n.depth ≤ n'.depth)

include h

theorem normalize_limited (v : Value) :
    Limited .nestingLimit (n.normalize v) (n'.normalize v) :=
  normalizeAt_limited h v

theorem createTerm_limited (op : Operation) (args : List Value) (options : Options) :
    Limited .nestingLimit (n.createTerm op args options) (n'.createTerm op args options) :=
  (normalizeItems_limited h args).bind fun _ =>
    (normalizeFields_limited h options).bind fun _ => .same _

end Normalizer

/-! ## Commands: checks first, and the checks do not know the limit -/

namespace Command

variable (c : Command) {n n' : Normalizer} (h : n.depth ≤ n'.depth) (args : List Value)
  (options : Options)

include h

theorem constructScoped_limited :
    Limited .nestingLimit (c.constructScoped n args options)
      (c.constructScoped n' args options) := by
  refine .after _ ?_
  intro _
  exact .after _ fun _ => Normalizer.createTerm_limited h _ _ options

theorem constructObject_limited :
    Limited .nestingLimit (c.constructObject n args options)
      (c.constructObject n' args options) := by
  refine .after _ ?_
  intro _
  cases pairUp? args with
  | none => exact .same _
  | some pairs =>
      refine .after _ ?_
      intro _
      split
      · exact Normalizer.createTerm_limited h _ args []
      · exact Normalizer.createTerm_limited h _ [] _

theorem constructTime_limited :
    Limited .nestingLimit (c.constructTime n args options) (c.constructTime n' args options) := by
  simp only [constructTime]
  split
  · exact .same _
  · refine .after _ ?_
    intro _
    exact .after _ fun _ => Normalizer.createTerm_limited h _ args options

theorem constructCall_limited :
    Limited .nestingLimit (c.constructCall n args options) (c.constructCall n' args options) := by
  refine .after _ ?_
  intro _
  refine .after _ ?_
  intro _
  cases args.getLast? with
  | none => exact .same _
  | some function =>
      simp only
      split
      · exact .same _
      · exact Normalizer.createTerm_limited h _ _ options

theorem constructBranch_limited :
    Limited .nestingLimit (c.constructBranch n args options)
      (c.constructBranch n' args options) := by
  refine .after _ ?_
  intro _
  split
  · exact .same _
  · exact .after _ fun _ => Normalizer.createTerm_limited h _ args options

/-- Whatever the assembly, a command runs out of levels or does as under the higher limit. -/
theorem construct_limited :
    Limited .nestingLimit (c.construct n args options) (c.construct n' args options) := by
  unfold construct
  split
  · refine .after _ ?_
    intro _
    exact .after _ fun _ => Normalizer.createTerm_limited h _ args options
  · exact c.constructScoped_limited h args options
  · exact .after _ fun _ => c.constructScoped_limited h args options
  · exact c.constructObject_limited h args options
  · exact c.constructTime_limited h args options
  · exact c.constructCall_limited h args options
  · exact c.constructBranch_limited h args options

end Command

/-! ## Plans: each part starts with the whole limit again -/

namespace Plan

variable {n n' : Normalizer}

mutual

theorem realize_limited (h : n.depth ≤ n'.depth) : ∀ p : Plan,
    Limited .nestingLimit (p.realize n) (p.realize n')
  | .literal _ | .var _ => .same _
  | .array items => (realizeItems_limited h items).bind fun _ => .same _
  | .object entries => (realizeEntries_limited h entries).bind fun _ => .same _
  | .call c args options => by
      refine (realizeItems_limited h args).bind ?_
      intro values
      refine (realizeEntries_limited h options).bind ?_
      intro named
      exact (c.construct_limited h values named).bind fun _ => .same _
  | .func _ body => by
      refine (realize_limited h body).bind ?_
      intro value
      exact (Normalizer.normalize_limited h value).bind fun _ => .same _

theorem realizeItems_limited (h : n.depth ≤ n'.depth) : ∀ items : List Plan,
    Limited .nestingLimit (realizeItems n items) (realizeItems n' items)
  | [] => .same _
  | item :: rest =>
    (realize_limited h item).bind fun _ => (realizeItems_limited h rest).bind fun _ => .same _

theorem realizeEntries_limited (h : n.depth ≤ n'.depth) : ∀ entries : List (String × Plan),
    Limited .nestingLimit (realizeEntries n entries) (realizeEntries n' entries)
  | [] => .same _
  | (_, entry) :: rest =>
    (realize_limited h entry).bind fun _ => (realizeEntries_limited h rest).bind fun _ => .same _

end

theorem term_limited (h : n.depth ≤ n'.depth) (p : Plan) :
    Limited .nestingLimit (p.term n) (p.term n') :=
  (realize_limited h p).bind fun value => Normalizer.normalize_limited h value

end Plan

/-! ## Registries -/

namespace Registry

/-- The same commands and aliases with another limit. -/
def atDepth (r : Registry) (depth : Nat) : Registry := { r with normalizer := ⟨depth⟩ }

variable (r : Registry) {m n : Nat}

theorem dispatch_limited (h : m ≤ n) (name : String) (args : List Value) (options : Options) :
    Limited (.argument .nestingLimit) ((r.atDepth m).dispatch name args options)
      ((r.atDepth n).dispatch name args options) := by
  refine .after _ ?_
  intro c
  have hdepth : (r.atDepth m).normalizer.depth ≤ (r.atDepth n).normalizer.depth := h
  exact (c.construct_limited hdepth args options).mapError Error.argument

theorem plan_atDepth (e : Expr) (scope : Scope) (start : Nat) :
    (e.plan (r.atDepth n) scope).runFrom start = (e.plan r scope).runFrom start := by
  have hself : e.Counterpart Eq Eq e := .refl (fun _ => rfl) e [] fun _ _ => rfl
  have hget : ∀ head head', head = head' → (r.atDepth n).get? head = r.get? head' := by
    rintro head _ rfl
    rfl
  have hplan := Expr.plan_counterpart hget hself scope
  refine hplan.runFrom_eq ?_ start
  intro cause cause' hcause
  exact hcause.eq (fun _ _ => id) fun _ _ => id

/-- The limit decides about the answer only, and not about the numbers drawn. -/
theorem build_limited (h : m ≤ n) (text : String) (start : Nat) :
    Limited (.argument .nestingLimit) (((r.atDepth m).build text).runFrom start).1
        (((r.atDepth n).build text).runFrom start).1 ∧
      (((r.atDepth m).build text).runFrom start).2 =
        (((r.atDepth n).build text).runFrom start).2 := by
  unfold Registry.build
  rw [Drawing.runFrom_bind, Drawing.runFrom_bind]
  simp only [Drawing.runFrom_ofOutcome]
  cases Expr.parse text with
  | error fault => exact ⟨.same _, rfl⟩
  | ok e =>
      simp only [Except.mapError, Expr.build, Drawing.runFrom_bind, plan_atDepth]
      rcases (e.plan r []).runFrom start with ⟨planned, next⟩
      cases planned with
      | error e => exact ⟨.same _, rfl⟩
      | ok p =>
          simp only [Drawing.runFrom_ofOutcome]
          have hdepth : (r.atDepth m).normalizer.depth ≤ (r.atDepth n).normalizer.depth := h
          exact ⟨(p.term_limited hdepth).mapError Error.argument, trivial⟩

/-- With a higher limit a registry gives every answer that it gave, and where it still
fails it failed before: with the same error, or for want of levels. -/
theorem raise_depth (h : m ≤ n) :
    (∀ name args options,
      (∀ t, (r.atDepth m).dispatch name args options = .ok t →
        (r.atDepth n).dispatch name args options = .ok t) ∧
      ∀ e, (r.atDepth n).dispatch name args options = .error e →
        ∃ e', (r.atDepth m).dispatch name args options = .error e' ∧
          (e' = e ∨ e' = .argument .nestingLimit)) ∧
    ∀ text start next,
      (∀ t, ((r.atDepth m).build text).runFrom start = (.ok t, next) →
        ((r.atDepth n).build text).runFrom start = (.ok t, next)) ∧
      ∀ e, ((r.atDepth n).build text).runFrom start = (.error e, next) →
        ∃ e', ((r.atDepth m).build text).runFrom start = (.error e', next) ∧
          (e' = e ∨ e' = .argument .nestingLimit) := by
  constructor
  · intro name args options
    have hdispatch := r.dispatch_limited h name args options
    exact ⟨fun t => hdispatch.eq_ok, fun e => hdispatch.exists_error⟩
  · intro text start next
    obtain ⟨hbuild, hnext⟩ := r.build_limited h text start
    constructor
    · intro t ht
      rw [ht] at hbuild hnext
      exact Prod.ext (hbuild.eq_ok rfl) hnext.symm
    · intro e he
      rw [he] at hbuild hnext
      obtain ⟨e', he', hcause⟩ := hbuild.exists_error rfl
      exact ⟨e', Prod.ext he' hnext, hcause⟩

/-- Two levels for a list of lists, and too few for one level more. -/
theorem raise_depth_list :
    let json : Command := { name := "json", operation := .json, required := [.any] }
    let r := (blank.register json).registry
    (1 ≤ 2 ∧ 2 ≤ 3) ∧
      ((r.atDepth 3).build "(json [[]])").runFrom 7 =
        (.ok (.apply .json [.apply .makeArray [.apply .makeArray [] []] []] []), 7) ∧
      ∃ e, ((r.atDepth 1).build "(json [[[]]])").runFrom 7 = (.error e, 7) := by
  intro json r
  have htwo : Expr.parse "(json [[]])" = .ok (.call "json" 1 [.vector [.vector []]] []) := rfl
  have hthree : Expr.parse "(json [[[]]])" =
      .ok (.call "json" 1 [.vector [.vector [.vector []]]] []) := rfl
  have hlow : ((r.atDepth 2).build "(json [[]])").runFrom 7 =
      (.ok (.apply .json [.apply .makeArray [.apply .makeArray [] []] []] []), 7) := by
    rw [build_of_parse htwo]
    rfl
  have hhigh : ((r.atDepth 2).build "(json [[[]]])").runFrom 7 =
      (.error (.argument .nestingLimit), 7) := by
    rw [build_of_parse hthree]
    rfl
  refine ⟨⟨by decide, by decide⟩, ((raise_depth r (by decide : 2 ≤ 3)).2 _ 7 7).1 _ hlow, ?_⟩
  obtain ⟨e, he, -⟩ := ((raise_depth r (by decide : 1 ≤ 2)).2 _ 7 7).2 _ hhigh
  exact ⟨e, he⟩

end Registry

end Reql
