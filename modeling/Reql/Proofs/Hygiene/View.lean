/-
# `Reql.Proofs.Hygiene.View` — what an expression is made into

`Expr.Made` says that planning and carrying out an expression gives a term.
`View` lists what that term can be, form by form, in terms of what the parts are made
into.  Plans, values and normalizing are opened once for each form, and `Made.view` puts
the forms together.
-/
import Reql.Proofs.Expr.Inversion
import Reql.Proofs.Fields
import Reql.Proofs.Hygiene.Place
import Reql.Proofs.Invocation

namespace Reql

namespace Expr

/-- In a scope, with `start` the next number, an expression makes a term. -/
def Made (r : Registry) (scope : Scope) (start : Nat) (e : Expr) (t : Term) : Prop :=
  ∃ p next v depth, (e.plan r scope).runFrom start = (.ok p, next) ∧
    p.realize r.normalizer = .ok v ∧ Normalizer.normalizeAt depth v = .ok t

/-- Expressions one after another make terms, each from where the last left off. -/
inductive MadeEach (r : Registry) (scope : Scope) : Nat → List Expr → List Term → Prop where
  | nil (start : Nat) : MadeEach r scope start [] []
  | cons {start : Nat} {e : Expr} {t : Term} {es : List Expr} {ts : List Term} :
      e.Made r scope start t → MadeEach r scope (start + e.paramCount) es ts →
      MadeEach r scope start (e :: es) (t :: ts)

/-- Keys and values in turn. -/
def alternate (pairs : List (String × Expr)) : List Expr :=
  pairs.flatMap fun pair => [.string pair.1, pair.2]

/-- The forms of a made term. -/
inductive View (r : Registry) (scope : Scope) (start : Nat) : Expr → Term → Prop where
  | scalar {e : Expr} {value : Datum} : e.children = [] →
      (∀ name offset, e ≠ .symbol name offset) → View r scope start e (.literal value)
  | symbol {name : String} {offset id : Nat} : scope.lookup name = some id →
      View r scope start (.symbol name offset) (.var id)
  | vector {items : List Expr} {ts : List Term} : MadeEach r scope start items ts →
      View r scope start (.vector items) (.apply .makeArray ts [])
  | map {entries : List (String × Expr)} {us : List (String × Term)} :
      us.map Prod.fst = entries.map Prod.fst →
      MadeEach r scope start (entries.map Prod.snd) (us.map Prod.snd) →
      View r scope start (.map entries) (.apply .makeObj [] (Fields.ofList us))
  | inOrder {head : String} {offset : Nat} {args : List Expr} {options : List (String × Expr)}
      {op : Operation} {ts : List Term} {us : List (String × Term)} :
      op.Ordinary → op ≠ .funcall → op ≠ .makeObj → ts.length = args.length →
      us.map Prod.fst = options.map Prod.fst → (us.map Prod.fst).Nodup →
      MadeEach r scope start (args ++ options.map Prod.snd) (ts ++ us.map Prod.snd) →
      View r scope start (.call head offset args options) (.apply op ts (Fields.ofList us))
  | functionFirst {head : String} {offset : Nat} {args : List Expr}
      {options : List (String × Expr)} {ts : List Term} {t : Term} {us : List (String × Term)} :
      ts.length + 1 = args.length →
      us.map Prod.fst = options.map Prod.fst → (us.map Prod.fst).Nodup →
      MadeEach r scope start (args ++ options.map Prod.snd) ((ts ++ [t]) ++ us.map Prod.snd) →
      View r scope start (.call head offset args options)
        (.apply .funcall (t :: ts) (Fields.ofList us))
  | keyed {head : String} {offset : Nat} {pairs : List (String × Expr)}
      {us : List (String × Term)} :
      us.map Prod.fst = pairs.map Prod.fst → (us.map Prod.fst).Nodup →
      MadeEach r scope start (pairs.map Prod.snd) (us.map Prod.snd) →
      View r scope start
        (.call head offset (alternate pairs) [])
        (.apply .makeObj [] (Fields.ofList us))
  | fn {params : List String} {body : Expr} {t : Term} :
      body.Made r (params.zip (List.range' start params.length) ++ scope)
        (start + params.length) t →
      View r scope start (.fn params body) (.func (List.range' start params.length) t)

end Expr

open Reql.Expr

variable {r : Registry} {scope : Scope} {start next depth : Nat}

/-! ## Parts one after another -/

namespace Expr.MadeEach

variable {es es' : List Expr} {ts ts' : List Term}

theorem append (h : MadeEach r scope start es ts)
    (h' : MadeEach r scope (start + itemParamCount es) es' ts') :
    MadeEach r scope start (es ++ es') (ts ++ ts') := by
  induction h with
  | nil => exact h'
  | cons ht _ ih =>
      rw [itemParamCount, ← Nat.add_assoc] at h'
      exact .cons ht (ih h')

theorem length_eq (h : MadeEach r scope start es ts) : es.length = ts.length := by
  induction h with
  | nil => rfl
  | cons _ _ ih => rw [List.length_cons, List.length_cons, ih]

/-- A part draws its numbers after those of the parts before it. -/
theorem get (h : MadeEach r scope start es ts) {i : Nat} {e : Expr} {t : Term}
    (he : es[i]? = some e) (ht : ts[i]? = some t) :
    e.Made r scope (start + itemParamCount (es.take i)) t := by
  induction h generalizing i with
  | nil => exact nomatch he
  | cons hmade _ ih =>
      cases i with
      | zero =>
          obtain rfl := Option.some.inj he
          obtain rfl := Option.some.inj ht
          exact hmade
      | succ i =>
          have hlater := ih he ht
          rwa [Nat.add_assoc] at hlater

theorem forall_terms {P : Term → Prop} (h : MadeEach r scope start es ts)
    (hes : ∀ e ∈ es, ∀ start t, e.Made r scope start t → P t) : ∀ t ∈ ts, P t := by
  induction h with
  | nil => exact List.forall_mem_nil _
  | @cons start e t es ts hmade _ ih =>
      obtain ⟨he, hes⟩ := List.forall_mem_cons.mp hes
      exact List.forall_mem_cons.mpr ⟨he start t hmade, ih hes⟩

theorem getTerm (h : MadeEach r scope start es ts) {i : Nat} {e : Expr} (he : es[i]? = some e) :
    ∃ t, ts[i]? = some t ∧ e.Made r scope (start + itemParamCount (es.take i)) t := by
  have hi : i < ts.length := h.length_eq ▸ (List.getElem?_eq_some_iff.mp he).1
  exact ⟨ts[i], List.getElem?_eq_getElem hi, h.get he (List.getElem?_eq_getElem hi)⟩

theorem getExpr (h : MadeEach r scope start es ts) {i : Nat} {t : Term} (ht : ts[i]? = some t) :
    ∃ e, es[i]? = some e ∧ e.Made r scope (start + itemParamCount (es.take i)) t := by
  have hi : i < es.length := h.length_eq ▸ (List.getElem?_eq_some_iff.mp ht).1
  exact ⟨es[i], List.getElem?_eq_getElem hi, h.get (List.getElem?_eq_getElem hi) ht⟩

end Expr.MadeEach

theorem madeEach_of_planItems {es : List Expr} {ps : List Plan} {vs : List Value} {ts : List Term}
    (hps : (planItems r scope es).runFrom start = (.ok ps, next))
    (hvs : List.Forall₂ (fun p v => p.realize r.normalizer = .ok v) ps vs)
    (hts : List.Forall₂ (fun v t => Normalizer.normalizeAt depth v = .ok t) vs ts) :
    MadeEach r scope start es ts := by
  induction es generalizing start ps vs ts with
  | nil =>
      obtain rfl := planItems_nil_eq_ok hps
      cases hvs
      cases hts
      exact .nil start
  | cons e rest ih =>
      obtain ⟨p, ps, hp, hrest, rfl⟩ := planItems_cons_eq_ok hps
      cases hvs with
      | cons hv hvs => cases hts with
        | cons ht hts => exact .cons ⟨p, _, _, depth, hp, hv, ht⟩ (ih hrest hvs hts)

/-! ## Keys -/

theorem construct_ne_literal {c : Command} (hc : c ∈ Command.Catalogue.commands) {n : Normalizer}
    {vs : List Value} {options : Options} {value : Datum} :
    c.construct n vs options ≠ .ok (.literal value) := by
  intro h
  cases Command.construct_makes (Command.catalogue_ownOptions c hc) h

/-- Only a text is made into a value that is a text. -/
theorem eq_string_of_realize (hr : r.OnlyCatalogue) {e : Expr} {p : Plan} {v : Value} {key : String}
    (hp : (e.plan r scope).runFrom start = (.ok p, next)) (hv : p.realize r.normalizer = .ok v)
    (hkey : v.string? = some key) : e = .string key := by
  cases e with
  | null | bool _ | number _ =>
      obtain rfl := runFrom_pure_eq_ok hp
      obtain rfl := Except.ok.inj hv
      exact nomatch hkey
  | string value =>
      obtain rfl := runFrom_pure_eq_ok hp
      obtain rfl := Except.ok.inj hv
      rw [Option.some.inj hkey]
  | symbol name offset =>
      obtain ⟨id, -, rfl⟩ := plan_symbol_eq_ok hp
      obtain rfl := Except.ok.inj hv
      exact nomatch hkey
  | vector items =>
      obtain ⟨ps, -, rfl⟩ := plan_vector_eq_ok hp
      obtain ⟨vs, -, rfl⟩ := Plan.realize_array_eq_ok hv
      exact nomatch hkey
  | map entries =>
      obtain ⟨os, -, rfl⟩ := plan_map_eq_ok hp
      obtain ⟨fields, -, rfl⟩ := Plan.realize_object_eq_ok hv
      exact nomatch hkey
  | call head offset args options =>
      obtain ⟨c, ps, os, hc, -, -, rfl⟩ := plan_call_eq_ok hp
      obtain ⟨vs, fields, t, -, -, ht, rfl⟩ := Plan.realize_call_eq_ok_iff.mp hv
      cases t with
      | literal value => exact absurd ht (construct_ne_literal (hr.resolve_mem hc))
      | apply _ _ _ => exact nomatch hkey
  | fn params body =>
      obtain ⟨q, -, rfl⟩ := plan_fn_eq_ok hp
      obtain ⟨w, t, -, -, rfl⟩ := Plan.realize_func_eq_ok hv
      exact nomatch hkey

/-- Where keys and values in turn became options, the keys are written out and draw no
numbers. -/
theorem madeEach_of_keyed (hr : r.OnlyCatalogue) {pairs : List (Value × Value)}
    {us : List (String × Term)}
    (h : List.Forall₂ (fun pair u =>
      pair.1.string? = some u.1 ∧ r.normalizer.normalize pair.2 = .ok u.2) pairs us)
    {es : List Expr} {ps : List Plan}
    (hps : (planItems r scope es).runFrom start = (.ok ps, next))
    (hvs : List.Forall₂ (fun p v => p.realize r.normalizer = .ok v) ps
      (pairs.flatMap fun pair => [pair.1, pair.2])) :
    ∃ entries : List (String × Expr),
      es = alternate entries ∧
      us.map Prod.fst = entries.map Prod.fst ∧
      MadeEach r scope start (entries.map Prod.snd) (us.map Prod.snd) := by
  induction h generalizing start es ps with
  | nil =>
      cases es with
      | nil => exact ⟨[], rfl, rfl, .nil start⟩
      | cons e rest =>
          obtain ⟨p, ps, -, -, rfl⟩ := planItems_cons_eq_ok hps
          exact nomatch hvs
  | @cons pair u pairs us hpair _ ih =>
      obtain ⟨hkey, hvalue⟩ := hpair
      rw [List.flatMap_cons] at hvs
      cases hvs with
      | @cons p _ ps _ hv hvs => cases hvs with
        | @cons q _ qs _ hv' hvs =>
          cases es with
          | nil => exact nomatch planItems_nil_eq_ok hps
          | cons e rest =>
              obtain ⟨_, _, hp, hrest, heq⟩ := planItems_cons_eq_ok hps
              obtain ⟨rfl, rfl⟩ := List.cons.inj heq
              obtain rfl := eq_string_of_realize hr hp hv hkey
              cases rest with
              | nil => exact nomatch planItems_nil_eq_ok hrest
              | cons e' rest =>
                  obtain ⟨_, _, hq, hrest, heq⟩ := planItems_cons_eq_ok hrest
                  obtain ⟨rfl, rfl⟩ := List.cons.inj heq
                  obtain ⟨entries, rfl, hnames, hmade⟩ := ih hrest hvs
                  refine ⟨(u.1, e') :: entries, rfl, ?_, ?_⟩
                  · rw [List.map_cons, List.map_cons, hnames]
                  · exact .cons ⟨_, _, _, _, hq, hv', hvalue⟩ hmade

/-! ## One form at a time -/

theorem Expr.Made.symbol {name : String} {offset : Nat} {t : Term}
    (h : (Expr.symbol name offset).Made r scope start t) :
    ∃ id, scope.lookup name = some id ∧ t = .var id := by
  obtain ⟨p, next, v, depth, hp, hv, ht⟩ := h
  obtain ⟨id, hid, rfl⟩ := plan_symbol_eq_ok hp
  obtain rfl := Except.ok.inj hv
  rw [Normalizer.normalizeAt_term] at ht
  exact ⟨id, hid, (Except.ok.inj ht).symm⟩

theorem Expr.Made.vector {items : List Expr} {t : Term}
    (h : (Expr.vector items).Made r scope start t) :
    ∃ ts, MadeEach r scope start items ts ∧ t = .apply .makeArray ts [] := by
  obtain ⟨p, next, v, depth, hp, hv, ht⟩ := h
  obtain ⟨ps, hps, rfl⟩ := plan_vector_eq_ok hp
  obtain ⟨vs, hvs, rfl⟩ := Plan.realize_array_eq_ok hv
  obtain ⟨inner, ts, rfl, hts, rfl⟩ := Normalizer.normalizeAt_array_eq_ok_iff.mp ht
  exact ⟨ts, madeEach_of_planItems hps hvs (Normalizer.normalizeItems_eq_ok_iff.mp hts), rfl⟩

/-- A map needs different keys, since of equal ones only the last would be left. -/
theorem Expr.Made.map {entries : List (String × Expr)} {t : Term}
    (hkeys : (entries.map Prod.fst).Nodup) (h : (Expr.map entries).Made r scope start t) :
    ∃ us : List (String × Term), us.map Prod.fst = entries.map Prod.fst ∧
      MadeEach r scope start (entries.map Prod.snd) (us.map Prod.snd) ∧
      t = .apply .makeObj [] (Fields.ofList us) := by
  obtain ⟨p, next, v, depth, hp, hv, ht⟩ := h
  obtain ⟨os, hos, rfl⟩ := plan_map_eq_ok hp
  obtain ⟨hps, hosnames⟩ := planEntries_eq_ok hos
  obtain ⟨fields, hfields, rfl⟩ := Plan.realize_object_eq_ok hv
  obtain ⟨inner, us, rfl, hus, rfl⟩ := Normalizer.normalizeAt_object_eq_ok_iff.mp ht
  have hnames : fields.map Prod.fst = entries.map Prod.fst := hfields.names_eq.symm.trans hosnames
  obtain ⟨us, hterms, rfl⟩ := Normalizer.normalizeFields_ofList (hnames ▸ hkeys) hus
  exact ⟨us, hterms.names_eq.symm.trans hnames,
    madeEach_of_planItems hps hfields.values hterms.values, rfl⟩

/-- An invocation is made by a command, of values that its parts are planned and carried
out to. -/
theorem Expr.Made.call (hr : r.OnlyCatalogue) {head : String} {offset : Nat} {args : List Expr}
    {options : List (String × Expr)} {t : Term}
    (h : (Expr.call head offset args options).Made r scope start t) :
    ∃ c ps os vs fields next, c ∈ Command.Catalogue.commands ∧
      (planItems r scope args).runFrom start = (.ok ps, start + itemParamCount args) ∧
      (planEntries r scope options).runFrom (start + itemParamCount args) = (.ok os, next) ∧
      List.Forall₂ (fun p v => p.realize r.normalizer = .ok v) ps vs ∧
      Named (fun p v => p.realize r.normalizer = .ok v) os fields ∧
      c.construct r.normalizer vs fields = .ok t := by
  obtain ⟨p, next, v, depth, hp, hv, ht⟩ := h
  obtain ⟨c, ps, os, hc, hps, hos, rfl⟩ := plan_call_eq_ok hp
  obtain ⟨vs, fields, u, hvs, hfields, hu, rfl⟩ := Plan.realize_call_eq_ok_iff.mp hv
  rw [Normalizer.normalizeAt_term] at ht
  obtain rfl := Except.ok.inj ht
  exact ⟨c, ps, os, vs, fields, next, hr.resolve_mem hc, hps, hos, hvs, hfields, hu⟩

theorem Expr.Made.fn {params : List String} {body : Expr} {t : Term}
    (h : (Expr.fn params body).Made r scope start t) :
    ∃ u, body.Made r (params.zip (List.range' start params.length) ++ scope)
        (start + params.length) u ∧
      t = .func (List.range' start params.length) u := by
  obtain ⟨p, next, v, depth, hp, hv, ht⟩ := h
  obtain ⟨q, hq, rfl⟩ := plan_fn_eq_ok hp
  obtain ⟨w, u, hw, hu, rfl⟩ := Plan.realize_func_eq_ok hv
  rw [Normalizer.normalizeAt_term] at ht
  exact ⟨u, ⟨q, next, w, _, hq, hw, hu⟩, (Except.ok.inj ht).symm⟩

/-! ## All forms -/

theorem Command.catalogue_call : ∀ c ∈ Catalogue.commands,
    (c.assembly = .call ↔ c.operation = .funcall) ∧ c.operation ≠ .makeObj := by
  decide +kernel

theorem call_view (hr : r.OnlyCatalogue) {head : String} {offset : Nat} {args : List Expr}
    {options : List (String × Expr)} {t : Term}
    (h : (Expr.call head offset args options).Made r scope start t) :
    View r scope start (.call head offset args options) t := by
  obtain ⟨c, ps, os, vs, fields, next, hmem, hps, hos, hvs, hfields, hu⟩ := h.call hr
  obtain ⟨hcall, hobject⟩ := Command.catalogue_call c hmem
  obtain ⟨hvalues, hosnames⟩ := planEntries_eq_ok hos
  have hnames : fields.map Prod.fst = options.map Prod.fst := hfields.names_eq.symm.trans hosnames
  cases Command.construct_makes (Command.catalogue_ownOptions c hmem) hu with
  | @inOrder ts us hassembly hts hus hnodup =>
      have hargs := madeEach_of_planItems hps hvs hts
      refine .inOrder (Command.catalogue_ordinary c hmem) (fun hop => hassembly (hcall.mpr hop))
        hobject hargs.length_eq.symm (hus.names_eq.symm.trans hnames) hnodup ?_
      exact hargs.append (madeEach_of_planItems hvalues hfields.values hus.values)
  | @functionFirst others function ts t us hassembly hvalue hothers hfunction hus hnodup =>
      subst hvalue
      have hts := List.rel_append hothers (.cons hfunction .nil)
      have hargs := madeEach_of_planItems hps hvs hts
      rw [hcall.mp hassembly]
      refine .functionFirst ?_ (hus.names_eq.symm.trans hnames) hnodup ?_
      · rw [hargs.length_eq, List.length_append, List.length_singleton]
      · exact hargs.append (madeEach_of_planItems hvalues hfields.values hus.values)
  | @keyed pairs us hpairs hfieldsnil hkeyed hnodup =>
      subst hpairs hfieldsnil
      obtain rfl : options = [] := by simpa using hnames.symm
      obtain ⟨entries, rfl, hentries, hmade⟩ := madeEach_of_keyed hr hkeyed hps hvs
      exact .keyed hentries hnodup hmade

/-- What a made term can be. -/
theorem Expr.Made.view (hr : r.OnlyCatalogue) {e : Expr} {t : Term} (he : e.NamesDistinct)
    (h : e.Made r scope start t) : View r scope start e t := by
  cases e with
  | null | bool _ | string _ =>
      obtain ⟨p, next, v, depth, hp, hv, ht⟩ := h
      obtain rfl := runFrom_pure_eq_ok hp
      obtain rfl := Except.ok.inj hv
      obtain rfl := Except.ok.inj ht
      exact .scalar rfl nofun
  | number value =>
      obtain ⟨p, next, v, depth, hp, hv, ht⟩ := h
      obtain rfl := runFrom_pure_eq_ok hp
      obtain rfl := Except.ok.inj hv
      rw [(Normalizer.normalizeAt_number_eq_ok_iff.mp ht).2]
      exact .scalar rfl nofun
  | symbol name offset =>
      obtain ⟨id, hid, rfl⟩ := h.symbol
      exact .symbol hid
  | vector items =>
      obtain ⟨ts, hmade, rfl⟩ := h.vector
      exact .vector hmade
  | map entries =>
      obtain ⟨us, hnames, hmade, rfl⟩ := h.map (he [] _ rfl)
      exact .map hnames hmade
  | call head offset args options => exact call_view hr h
  | fn params body =>
      obtain ⟨u, hbody, rfl⟩ := h.fn
      exact .fn hbody

/-- A built term is made of the expression of the text, with nothing in reach. -/
theorem Registry.made_of_build {text : String} {t : Term}
    (h : ((r.build text).runFrom start).1 = .ok t) :
    ∃ e, Expr.parse text = .ok e ∧ e.Made r [] start t := by
  cases hparse : Expr.parse text with
  | error fault =>
      rw [Registry.build, hparse] at h
      cases h
  | ok e =>
      rw [build_of_parse hparse] at h
      have hbuilt : r.BuiltAlone (e, start) t := h
      obtain ⟨p, hp, hterm⟩ := builtAlone_iff.mp hbuilt
      obtain ⟨v, hv, ht⟩ := Plan.term_eq_ok_iff.mp hterm
      exact ⟨e, rfl, p, _, v, _, Prod.ext hp rfl, hv, ht⟩

end Reql
