/-
# `Reql.Proofs.Expr.Numbering` — the same plan from another number on

Planning an expression twice, from two numbers, gives the same plan up to the numbers
of parameters, and draws as many.  Two computations that do so *track* each other.

A plan with other numbers is carried out alike (`Plan.Renamed.realize`), so the
term of a plan depends on its numbers only by name.
-/
import Reql.Proofs.Expr.Resolution
import Reql.Proofs.Term.Renamed

namespace Reql

/-- The same plan up to the numbers of parameters, with commands that make allowed
operations. -/
inductive Plan.Renamed (allowed : Operation → Prop) (R : Nat → Nat → Prop) :
    Plan → Plan → Prop where
  | literal (value : Datum) : Renamed allowed R (.literal value) (.literal value)
  | var {id id' : Nat} : R id id' → Renamed allowed R (.var id) (.var id')
  | array {ps qs : List Plan} : List.Forall₂ (Renamed allowed R) ps qs →
      Renamed allowed R (.array ps) (.array qs)
  | object {os os' : List (String × Plan)} : Named (Renamed allowed R) os os' →
      Renamed allowed R (.object os) (.object os')
  | call {c : Command} {ps qs : List Plan} {os os' : List (String × Plan)} :
      allowed c.operation → List.Forall₂ (Renamed allowed R) ps qs →
      Named (Renamed allowed R) os os' → Renamed allowed R (.call c ps os) (.call c qs os')
  | func {ids ids' : List Nat} {p q : Plan} : List.Forall₂ R ids ids' → Renamed allowed R p q →
      Renamed allowed R (.func ids p) (.func ids' q)

variable {α β γ δ : Type} {allowed : Operation → Prop} {R : Nat → Nat → Prop}

/-! ## Tracking -/

namespace Drawing

/-- From two numbers the computations draw equally many, and if those are related by
`R` they end with the same error or with answers related by `T`. -/
def Tracks (R : Nat → Nat → Prop) (count : Nat) (T : α → β → Prop) (m : Drawing α)
    (m' : Drawing β) : Prop :=
  ∀ start start', (∀ k < count, R (start + k) (start' + k)) →
    (∃ a b, m.runFrom start = (.ok a, start + count) ∧
      m'.runFrom start' = (.ok b, start' + count) ∧ T a b) ∨
    ∃ e drawn, m.runFrom start = (.error e, start + drawn) ∧
      m'.runFrom start' = (.error e, start' + drawn)

namespace Tracks

variable {count count' : Nat} {T : α → β → Prop} {U : γ → δ → Prop}

theorem pure {a : α} {b : β} (h : T a b) :
    Tracks R 0 T (Pure.pure a : Drawing α) (Pure.pure b : Drawing β) :=
  fun _ _ _ => .inl ⟨a, b, rfl, rfl, h⟩

theorem throw (e : Error) :
    Tracks R 0 T (MonadExcept.throw e : Drawing α) (MonadExcept.throw e : Drawing β) :=
  fun _ _ _ => .inr ⟨e, 0, rfl, rfl⟩

theorem bind {m : Drawing α} {m' : Drawing β} {f : α → Drawing γ} {f' : β → Drawing δ}
    (hm : Tracks R count T m m') (hf : ∀ a b, T a b → Tracks R count' U (f a) (f' b)) :
    Tracks R (count + count') U (m >>= f) (m' >>= f') := by
  intro start start' hR
  rw [runFrom_bind, runFrom_bind]
  rcases hm start start' fun k hk => hR k (by omega) with ⟨a, b, ha, hb, hab⟩ | ⟨e, drawn, he, he'⟩
  · rw [ha, hb, ← Nat.add_assoc, ← Nat.add_assoc]
    have hlater : ∀ k < count', R (start + count + k) (start' + count + k) := fun k hk => by
      rw [Nat.add_assoc, Nat.add_assoc]
      exact hR (count + k) (by omega)
    rcases hf a b hab (start + count) (start' + count) hlater with h | ⟨e, drawn, he, he'⟩
    · exact .inl h
    · refine .inr ⟨e, count + drawn, ?_, ?_⟩
      · rw [← Nat.add_assoc]
        exact he
      · rw [← Nat.add_assoc]
        exact he'
  · rw [he, he']
    exact .inr ⟨e, drawn, rfl, rfl⟩

theorem map {m : Drawing α} {m' : Drawing β} {g : α → γ} {g' : β → δ}
    (hm : Tracks R count T m m') (hg : ∀ a b, T a b → U (g a) (g' b)) :
    Tracks R count U (m >>= fun a => Pure.pure (g a)) (m' >>= fun b => Pure.pure (g' b)) :=
  hm.bind fun a b hab => pure (hg a b hab)

theorem fresh (count : Nat) : Tracks R count (List.Forall₂ R) (fresh count) (fresh count) := by
  intro start start' hR
  refine .inl ⟨_, _, rfl, rfl, ?_⟩
  rw [List.forall₂_iff_get]
  refine ⟨by simp, ?_⟩
  intro k hk hk'
  simpa using hR k (by simpa using hk)

end Tracks

end Drawing

/-! ## Following an outcome -/

namespace Drawing

/-- From `start` the computation draws `count` numbers and has an answer related to
that of the outcome, or both fail. -/
def Follows (m : Drawing α) (start count : Nat) (T : α → β → Prop) (y : Except Error β) : Prop :=
  (∃ a b, m.runFrom start = (.ok a, start + count) ∧ y = .ok b ∧ T a b) ∨
    ∃ e f, (m.runFrom start).1 = .error e ∧ y = .error f

variable {T : α → β → Prop} {U : γ → δ → Prop} {start count count' : Nat}

theorem Tracks.follows {m : Drawing α} {m' : Drawing β} (h : Tracks R count T m m') {start' : Nat}
    (hR : ∀ k < count, R (start + k) (start' + k)) :
    m.Follows start count T (m'.runFrom start').1 := by
  rcases h start start' hR with ⟨a, b, ha, hb, hab⟩ | ⟨e, drawn, he, he'⟩
  · exact .inl ⟨a, b, ha, by rw [hb], hab⟩
  · exact .inr ⟨e, e, by rw [he], by rw [he']⟩

theorem Follows.pure {a : α} {b : β} (h : T a b) :
    (Pure.pure a : Drawing α).Follows start 0 T (.ok b) :=
  .inl ⟨a, b, rfl, rfl, h⟩

theorem Follows.bind {m : Drawing α} {f : α → Drawing γ} {y : Except Error β}
    {g : β → Except Error δ} (hm : m.Follows start count T y)
    (hf : ∀ a b, T a b → (f a).Follows (start + count) count' U (g b)) :
    (m >>= f).Follows start (count + count') U (y >>= g) := by
  unfold Follows
  rw [runFrom_bind]
  rcases hm with ⟨a, b, ha, rfl, hab⟩ | ⟨e, e', he, rfl⟩
  · rw [ha, ← Nat.add_assoc]
    exact hf a b hab
  · refine .inr ⟨e, e', ?_, rfl⟩
    rcases hrun : m.runFrom start with ⟨x, next⟩
    rw [hrun] at he
    obtain rfl : x = .error e := he
    rfl

theorem Follows.agree {m : Drawing α} {y : Except Error β} (h : m.Follows start count T y) :
    Agree (fun _ _ => True) T (m.runFrom start).1 y := by
  rcases h with ⟨a, b, ha, rfl, hab⟩ | ⟨e, f, he, rfl⟩
  · rw [ha]
    exact .ok hab
  · rw [he]
    exact .error trivial

end Drawing

/-! ## Plans track each other -/

section

variable (r : Registry)

theorem Scope.renamed_zip {params : List String} {ids ids' : List Nat} {scope scope' : Scope}
    (hids : List.Forall₂ R ids ids') (hscope : Named R scope scope') :
    Named R (params.zip ids ++ scope) (params.zip ids' ++ scope') := by
  induction params generalizing ids ids' with
  | nil => exact hscope
  | cons name params ih =>
      cases hids with
      | nil => exact hscope
      | cons hid hids => exact .cons name hid (ih hids)

namespace Expr

mutual

theorem plan_tracks (hr : ∀ name c, r.resolve name = .ok c → allowed c.operation) :
    ∀ (e : Expr) {scope scope' : Scope}, Named R scope scope' →
      Drawing.Tracks R e.paramCount (Plan.Renamed allowed R) (e.plan r scope) (e.plan r scope')
  | .null, _, _, _ | .bool _, _, _, _ | .number _, _, _, _ | .string _, _, _, _ =>
    .pure (.literal _)
  | .symbol name offset, scope, scope', hscope => by
      have hlookup := hscope.lookup name
      rw [plan, plan]
      generalize scope.lookup name = id?, scope'.lookup name = id'? at hlookup
      cases hlookup with
      | none => exact .throw _
      | some hid => exact .pure (.var hid)
  | .vector items, _, _, hscope => (planItems_tracks hr items hscope).map fun _ _ h => .array h
  | .map entries, _, _, hscope => (planEntries_tracks hr entries hscope).map fun _ _ h => .object h
  | .call head _ args options, _, _, hscope => by
      have hargs := planItems_tracks hr args hscope
      have hoptions := planEntries_tracks hr options hscope
      rw [plan, plan, paramCount]
      cases hc : r.resolve head with
      | error cause =>
          rw [← Nat.zero_add (itemParamCount args + entryParamCount options)]
          exact .bind (T := fun _ _ => False) (.throw _) fun _ _ h => h.elim
      | ok c =>
          exact hargs.bind fun _ _ hps => hoptions.map fun _ _ hos => .call (hr head c hc) hps hos
  | .fn params body, _, _, hscope =>
      (Drawing.Tracks.fresh params.length).bind fun _ _ hids =>
        (plan_tracks hr body (Scope.renamed_zip hids hscope)).map fun _ _ h => .func hids h

theorem planItems_tracks (hr : ∀ name c, r.resolve name = .ok c → allowed c.operation) :
    ∀ (items : List Expr) {scope scope' : Scope}, Named R scope scope' →
      Drawing.Tracks R (itemParamCount items) (List.Forall₂ (Plan.Renamed allowed R))
        (planItems r scope items) (planItems r scope' items)
  | [], _, _, _ => .pure .nil
  | e :: rest, _, _, hscope =>
      (plan_tracks hr e hscope).bind fun _ _ h =>
        (planItems_tracks hr rest hscope).map fun _ _ hs => .cons h hs

theorem planEntries_tracks (hr : ∀ name c, r.resolve name = .ok c → allowed c.operation) :
    ∀ (entries : List (String × Expr)) {scope scope' : Scope}, Named R scope scope' →
      Drawing.Tracks R (entryParamCount entries) (Named (Plan.Renamed allowed R))
        (planEntries r scope entries) (planEntries r scope' entries)
  | [], _, _, _ => .pure .nil
  | (name, e) :: rest, _, _, hscope =>
      (plan_tracks hr e hscope).bind fun _ _ h =>
        (planEntries_tracks hr rest hscope).map fun _ _ hs => .cons name h hs

end

end Expr

end

/-! ## Plans are carried out alike -/

mutual

theorem Value.renamed_ofDatum : ∀ value : Datum,
    Value.Renamed allowed R (Value.ofDatum value) (Value.ofDatum value)
  | .null => .null
  | .bool value => .bool value
  | .number value => .number value
  | .string value => .string value
  | .array items => .array (Value.renamed_ofItems items)
  | .object fields => .object (Value.renamed_ofFields fields)

theorem Value.renamed_ofItems : ∀ items : List Datum,
    List.Forall₂ (Value.Renamed allowed R) (Value.ofItems items) (Value.ofItems items)
  | [] => .nil
  | item :: rest => .cons (Value.renamed_ofDatum item) (Value.renamed_ofItems rest)

theorem Value.renamed_ofFields : ∀ fields : List (String × Datum),
    Named (Value.Renamed allowed R) (Value.ofFields fields) (Value.ofFields fields)
  | [] => .nil
  | (key, value) :: rest => .cons key (Value.renamed_ofDatum value) (Value.renamed_ofFields rest)

end

namespace Plan.Renamed

mutual

theorem realize (harray : allowed .makeArray) (hobject : allowed .makeObj) (n : Normalizer) :
    ∀ {p q : Plan}, p.Renamed allowed R q →
      Agree Eq (Value.Renamed allowed R) (p.realize n) (q.realize n)
  | .literal value, _, h => by
      cases h
      exact .ok (Value.renamed_ofDatum value)
  | .var _, _, h => by
      cases h with
      | var hid => exact .ok (.term (.var hid))
  | .array _, _, h => by
      cases h with
      | array hps =>
          exact (realizeItems harray hobject n hps).bind fun _ _ hvs => .ok (.array hvs)
  | .object _, _, h => by
      cases h with
      | object hos =>
          exact (realizeEntries harray hobject n hos).bind fun _ _ hfields =>
            .ok (.object hfields.ofList)
  | .call _ _ _, _, h => by
      cases h with
      | call hc hps hos =>
          refine (realizeItems harray hobject n hps).bind ?_
          intro _ _ hvs
          refine (realizeEntries harray hobject n hos).bind ?_
          intro _ _ hoptions
          exact ((Command.exchange_renamed harray hobject hc n).construct hvs hoptions).bind
            fun _ _ ht => .ok (.term ht)
  | .func _ _, _, h => by
      cases h with
      | func hids hbody =>
          refine (realize harray hobject n hbody).bind ?_
          intro _ _ hv
          exact (Normalizer.normalizeAt_renamed harray hobject n.depth hv).bind fun _ _ ht =>
            .ok (.term (.func hids ht))

theorem realizeItems (harray : allowed .makeArray) (hobject : allowed .makeObj)
    (n : Normalizer) : ∀ {ps qs : List Plan}, List.Forall₂ (Renamed allowed R) ps qs →
      Agree Eq (List.Forall₂ (Value.Renamed allowed R))
        (Plan.realizeItems n ps) (Plan.realizeItems n qs)
  | [], _, .nil => .ok .nil
  | _ :: _, _, .cons hp hps =>
      (realize harray hobject n hp).bind fun _ _ hv =>
        (realizeItems harray hobject n hps).bind fun _ _ hvs => .ok (.cons hv hvs)

theorem realizeEntries (harray : allowed .makeArray) (hobject : allowed .makeObj)
    (n : Normalizer) : ∀ {os os' : List (String × Plan)}, Named (Renamed allowed R) os os' →
      Agree Eq (Named (Value.Renamed allowed R))
        (Plan.realizeEntries n os) (Plan.realizeEntries n os')
  | [], _, .nil => .ok .nil
  | _ :: _, _, .cons name hp hps =>
      (realize harray hobject n hp).bind fun _ _ hv =>
        (realizeEntries harray hobject n hps).bind fun _ _ hvs => .ok (.cons name hv hvs)

end

/-- The terms of plans that differ in numbers differ in numbers. -/
theorem term (harray : allowed .makeArray) (hobject : allowed .makeObj) (n : Normalizer)
    {p q : Plan} (h : p.Renamed allowed R q) :
    Agree Eq (Term.Renamed allowed R) (p.term n) (q.term n) :=
  (h.realize harray hobject n).bind fun _ _ hv =>
    Normalizer.normalizeAt_renamed harray hobject n.depth hv

end Plan.Renamed

end Reql
