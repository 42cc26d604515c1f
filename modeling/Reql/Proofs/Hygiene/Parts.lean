/-
# `Reql.Proofs.Hygiene.Parts` — parts of an expression and of its term

One level of the correspondence.  A part of a made expression is made into the part of
the term that its step leads to (`View.down`), every part of the term that holds a
function or a reference comes from one (`View.up`), and from one only
(`View.step_injective`).  Only written keys of `object` have no term of their own.
-/
import Reql.Proofs.Hygiene.View

namespace Reql

/-- Nowhere in the term is there a function or a reference. -/
def Term.Plain (t : Term) : Prop :=
  ∀ s u, t.at? s = some u → u.operation ≠ .func ∧ u.operation ≠ .var

namespace Expr

/-- The scope of the parts of an expression. -/
def innerScope (scope : Scope) (start : Nat) : Expr → Scope
  | .fn params _ => params.zip (List.range' start params.length) ++ scope
  | _ => scope

/-- How many numbers an expression draws before its parts. -/
def ownCount : Expr → Nat
  | .fn params _ => params.length
  | _ => 0

/-- The number from which a part of an expression is planned. -/
def childStart (e : Expr) (start i : Nat) : Nat :=
  start + e.ownCount + itemParamCount (e.children.take i)

theorem childStart_of_ownCount {e : Expr} (h : e.ownCount = 0) (start i : Nat) :
    e.childStart start i = start + itemParamCount (e.children.take i) := by
  rw [childStart, h, Nat.add_zero]

end Expr

open Reql.Expr

variable {r : Registry} {scope : Scope} {start : Nat} {e : Expr} {t : Term}

theorem lt_of_getElem? {α : Type} {as : List α} {i : Nat} {a : α} (h : as[i]? = some a) :
    i < as.length :=
  (List.getElem?_eq_some_iff.mp h).1

/-! ## The last argument first -/

theorem rotated_injective {n i j : Nat} (h : rotated n i = rotated n j) : i = j := by
  unfold rotated at h
  split at h <;> split at h <;> omega

theorem exists_rotated {n k : Nat} (h : k < n) : ∃ i < n, rotated n i = k := by
  unfold rotated
  cases k with
  | zero => exact ⟨n - 1, by omega, if_pos (by omega)⟩
  | succ k => exact ⟨k, by omega, if_neg (by omega)⟩

theorem getElem?_rotated {ts : List Term} {f : Term} {i : Nat} (hi : i < ts.length + 1) :
    (f :: ts)[rotated (ts.length + 1) i]? = (ts ++ [f])[i]? := by
  unfold rotated
  split
  · have hlast : i = ts.length := by omega
    subst hlast
    simp
  · rw [List.getElem?_cons_succ, List.getElem?_append_left (by omega)]

/-! ## Steps -/

section

variable {head : String} {offset i : Nat} {args : List Expr} {options : List (String × Expr)}
  {op : Operation}

theorem step_inOrder (hcall : op ≠ .funcall) (hobject : op ≠ .makeObj) (hi : i < args.length) :
    (Expr.call head offset args options).step op i = .arg i := by
  rw [step, if_pos hi, if_neg hcall, if_neg hobject]

theorem step_funcall (hi : i < args.length) :
    (Expr.call head offset args options).step .funcall i = .arg (rotated args.length i) := by
  rw [step, if_pos hi, if_pos rfl]

theorem step_option (hi : args.length ≤ i) :
    (Expr.call head offset args options).step op i =
      .option ((options.map Prod.fst)[i - args.length]?.getD "") := by
  rw [step, if_neg (Nat.not_lt.mpr hi)]

end

/-! ## Options -/

theorem lookup_option {us : List (String × Term)} (h : (us.map Prod.fst).Nodup) {i : Nat} {u : Term}
    (hu : (us.map Prod.snd)[i]? = some u) :
    (Fields.ofList us).lookup ((us.map Prod.fst)[i]?.getD "") = some u := by
  rw [List.getElem?_map] at hu
  obtain ⟨entry, hentry, rfl⟩ := Option.map_eq_some_iff.mp hu
  rw [List.getElem?_map, hentry]
  exact Fields.get?_ofList h (List.mem_of_getElem? hentry)

theorem option_of_lookup {us : List (String × Term)} {name : String} {u : Term}
    (h : (Fields.ofList us).lookup name = some u) :
    ∃ i : Nat, (us.map Prod.fst)[i]?.getD "" = name ∧ (us.map Prod.snd)[i]? = some u := by
  obtain ⟨i, hi, hentry⟩ := List.mem_iff_getElem.mp
    (Fields.mem_of_mem_ofList (Fields.mem_of_get? h))
  exact ⟨i, by simp [hi, hentry], by simp [hi, hentry]⟩

theorem option_injective {names : List String} (h : names.Nodup) {i j : Nat}
    (hi : i < names.length) (hj : j < names.length)
    (hname : names[i]?.getD "" = names[j]?.getD "") : i = j := by
  refine (List.getElem?_inj hi h).mp ?_
  rw [List.getElem?_eq_getElem hi, List.getElem?_eq_getElem hj] at hname ⊢
  exact congrArg some hname

/-! ## Arguments and options -/

namespace Expr.MadeEach

variable {es : List Expr} {ts : List Term} {options : List (String × Expr)}
  {us : List (String × Term)} {i : Nat} {c : Expr} {u : Term}
  (h : MadeEach r scope start (es ++ options.map Prod.snd) (ts ++ us.map Prod.snd))

include h

theorem argument_down (hlength : ts.length = es.length) (hi : i < es.length)
    (hc : (es ++ options.map Prod.snd)[i]? = some c) :
    ∃ u, ts[i]? = some u ∧
      c.Made r scope (start + itemParamCount ((es ++ options.map Prod.snd).take i)) u := by
  obtain ⟨u, hu, hcu⟩ := h.getTerm hc
  rw [List.getElem?_append_left (hlength ▸ hi)] at hu
  exact ⟨u, hu, hcu⟩

theorem argument_up (hu : ts[i]? = some u) :
    ∃ c, (es ++ options.map Prod.snd)[i]? = some c ∧
      c.Made r scope (start + itemParamCount ((es ++ options.map Prod.snd).take i)) u := by
  have hi : i < ts.length := (List.getElem?_eq_some_iff.mp hu).1
  have hindex : (ts ++ us.map Prod.snd)[i]? = some u := by
    rwa [List.getElem?_append_left hi]
  exact h.getExpr hindex

theorem option_down (hlength : ts.length = es.length)
    (hnames : us.map Prod.fst = options.map Prod.fst)
    (hnodup : (us.map Prod.fst).Nodup) (hi : es.length ≤ i)
    (hc : (es ++ options.map Prod.snd)[i]? = some c) :
    ∃ u, (Fields.ofList us).lookup ((options.map Prod.fst)[i - es.length]?.getD "") = some u ∧
      c.Made r scope (start + itemParamCount ((es ++ options.map Prod.snd).take i)) u := by
  obtain ⟨u, hu, hcu⟩ := h.getTerm hc
  rw [List.getElem?_append_right (hlength ▸ hi), hlength] at hu
  exact ⟨u, hnames ▸ lookup_option hnodup hu, hcu⟩

theorem option_up (hlength : ts.length = es.length)
    (hnames : us.map Prod.fst = options.map Prod.fst)
    {name : String} (hu : (Fields.ofList us).lookup name = some u) :
    ∃ i c, es.length ≤ i ∧ (es ++ options.map Prod.snd)[i]? = some c ∧
      (options.map Prod.fst)[i - es.length]?.getD "" = name ∧
      c.Made r scope (start + itemParamCount ((es ++ options.map Prod.snd).take i)) u := by
  obtain ⟨k, rfl, hk⟩ := option_of_lookup hu
  have hindex : (ts ++ us.map Prod.snd)[es.length + k]? = some u := by
    rwa [List.getElem?_append_right (by omega), hlength, Nat.add_sub_cancel_left]
  obtain ⟨c, hc, hcu⟩ := h.getExpr hindex
  exact ⟨es.length + k, c, Nat.le_add_right _ _, hc, by rw [Nat.add_sub_cancel_left, hnames], hcu⟩

end Expr.MadeEach

/-! ## Keys and values in turn -/

theorem alternate_cons (pair : String × Expr) (rest : List (String × Expr)) :
    alternate (pair :: rest) = .string pair.1 :: pair.2 :: alternate rest := rfl

/-- What is no key is a value, and its key is before it. -/
theorem alternate_get {pairs : List (String × Expr)} {i : Nat} {c : Expr}
    (hc : (alternate pairs)[i]? = some c) (htext : c.text? = none) :
    ∃ k, i = 2 * k + 1 ∧ (pairs.map Prod.snd)[k]? = some c := by
  induction pairs generalizing i with
  | nil => exact nomatch hc
  | cons pair rest ih =>
      rw [alternate_cons] at hc
      match i with
      | 0 =>
          obtain rfl := Option.some.inj hc
          exact nomatch htext
      | 1 => exact ⟨0, rfl, hc⟩
      | i + 2 =>
          obtain ⟨k, rfl, hk⟩ := ih hc
          exact ⟨k + 1, rfl, hk⟩

theorem alternate_value {pairs : List (String × Expr)} {k : Nat} {c : Expr}
    (hc : (pairs.map Prod.snd)[k]? = some c) :
    (alternate pairs)[2 * k + 1]? = some c ∧
      ((alternate pairs)[2 * k]?.bind text?).getD "" = (pairs.map Prod.fst)[k]?.getD "" ∧
      itemParamCount ((alternate pairs).take (2 * k + 1)) =
        itemParamCount ((pairs.map Prod.snd).take k) := by
  induction pairs generalizing k with
  | nil => exact nomatch hc
  | cons pair rest ih =>
      rw [alternate_cons]
      cases k with
      | zero => exact ⟨hc, rfl, rfl⟩
      | succ k =>
          obtain ⟨hvalue, hkey, hcount⟩ := ih hc
          refine ⟨hvalue, hkey, ?_⟩
          change itemParamCount (.string pair.1 :: pair.2 :: (alternate rest).take (2 * k + 1)) =
            itemParamCount (pair.2 :: (rest.map Prod.snd).take k)
          rw [itemParamCount, itemParamCount, itemParamCount, hcount, paramCount, Nat.zero_add]

theorem mem_alternate {pairs : List (String × Expr)} {c : Expr}
    (h : c ∈ pairs.map Prod.snd) : c ∈ alternate pairs := by
  obtain ⟨pair, hpair, rfl⟩ := List.mem_map.mp h
  exact List.mem_flatMap.mpr ⟨pair, hpair, .tail _ (.head _)⟩

theorem alternate_children (head : String) (offset : Nat) (pairs : List (String × Expr)) :
    (Expr.call head offset (alternate pairs) []).children = alternate pairs :=
  List.append_nil _

theorem alternate_step {head : String} {offset k : Nat} {pairs : List (String × Expr)} {c : Expr}
    (hc : (pairs.map Prod.snd)[k]? = some c) :
    (Expr.call head offset (alternate pairs) []).step .makeObj (2 * k + 1) =
      .option ((pairs.map Prod.fst)[k]?.getD "") := by
  obtain ⟨hvalue, hkey, -⟩ := alternate_value hc
  rw [step, if_pos (lt_of_getElem? hvalue), if_neg nofun, if_pos rfl, Nat.add_sub_cancel, hkey]

/-! ## Down -/

/-- A part is made into the part of the term that its step leads to. -/
theorem Expr.View.down (h : View r scope start e t) (he : e.NamesDistinct) {i : Nat} {c : Expr}
    (hc : e.children[i]? = some c) (htext : c.text? = none) :
    ∃ u, t.child? (e.step t.operation i) = some u ∧
      c.Made r (e.innerScope scope start) (e.childStart start i) u := by
  cases h with
  | scalar hchildren _ =>
      rw [hchildren] at hc
      cases hc
  | symbol _ => cases hc
  | vector hmade =>
      obtain ⟨u, hu, hcu⟩ := hmade.getTerm hc
      exact ⟨u, hu, hcu⟩
  | @map entries us hnames hmade =>
      obtain ⟨u, hu, hcu⟩ := hmade.getTerm hc
      refine ⟨u, ?_, hcu⟩
      rw [step, ← hnames]
      exact lookup_option (hnames ▸ he [] _ rfl) hu
  | @inOrder head offset args options op ts us _ hcall hobject hlength hnames hnodup hmade =>
      rcases Nat.lt_or_ge i args.length with hi | hi
      · obtain ⟨u, hu, hcu⟩ := hmade.argument_down hlength hi hc
        refine ⟨u, ?_, hcu⟩
        rw [Term.operation, step_inOrder hcall hobject hi]
        exact hu
      · obtain ⟨u, hu, hcu⟩ := hmade.option_down hlength hnames hnodup hi hc
        refine ⟨u, ?_, hcu⟩
        rw [step_option hi]
        exact hu
  | @functionFirst head offset args options ts f us hlength hnames hnodup hmade =>
      have hlength' : (ts ++ [f]).length = args.length := by simpa using hlength
      rcases Nat.lt_or_ge i args.length with hi | hi
      · obtain ⟨u, hu, hcu⟩ := hmade.argument_down hlength' hi hc
        refine ⟨u, ?_, hcu⟩
        rw [Term.operation, step_funcall hi, ← hlength]
        exact (getElem?_rotated (hlength ▸ hi)).trans hu
      · obtain ⟨u, hu, hcu⟩ := hmade.option_down hlength' hnames hnodup hi hc
        refine ⟨u, ?_, hcu⟩
        rw [step_option hi]
        exact hu
  | @keyed head offset pairs us hnames hnodup hmade =>
      rw [alternate_children] at hc
      obtain ⟨k, rfl, hk⟩ := alternate_get hc htext
      obtain ⟨u, hu, hcu⟩ := hmade.getTerm hk
      refine ⟨u, ?_, ?_⟩
      · rw [Term.operation, alternate_step hk, ← hnames]
        exact lookup_option hnodup hu
      · rw [childStart_of_ownCount rfl, alternate_children, (alternate_value hk).2.2]
        exact hcu
  | @fn params body b hmade =>
      cases i with
      | zero =>
          obtain rfl := Option.some.inj hc
          exact ⟨b, rfl, hmade⟩
      | succ i => cases hc

/-! ## Up -/

theorem plain_literal (value : Datum) : (Term.literal value).Plain := by
  intro s u hu
  cases s with
  | nil =>
      obtain rfl := Option.some.inj hu
      exact ⟨nofun, nofun⟩
  | cons step s => exact nomatch hu

/-- The list of a function's parameters holds numbers only. -/
theorem plain_parameters (ids : List Nat) :
    (Term.apply .makeArray (ids.map Term.ofId) []).Plain := by
  intro s u hu
  cases s with
  | nil =>
      obtain rfl := Option.some.inj hu
      exact ⟨nofun, nofun⟩
  | cons step s =>
      obtain ⟨w, hw, hu⟩ := Option.bind_eq_some_iff.mp hu
      cases step with
      | option name => exact nomatch hw
      | arg index =>
          rw [Term.child?, List.getElem?_map] at hw
          obtain ⟨id, -, rfl⟩ := Option.map_eq_some_iff.mp hw
          exact plain_literal _ s u hu

/-- A part of an expression, with the given step, is made into a term. -/
def Expr.MadeBehind (r : Registry) (scope : Scope) (start : Nat) (e : Expr) (op : Operation)
    (step : Step) (u : Term) : Prop :=
  ∃ i c, e.children[i]? = some c ∧ e.step op i = step ∧
    c.Made r (e.innerScope scope start) (e.childStart start i) u

section

variable {head : String} {offset : Nat} {args : List Expr} {options pairs : List (String × Expr)}
  {op : Operation} {ts : List Term} {us : List (String × Term)} {f u : Term} {step : Step}

theorem inOrder_up (hcall : op ≠ .funcall) (hobject : op ≠ .makeObj)
    (hlength : ts.length = args.length) (hnames : us.map Prod.fst = options.map Prod.fst)
    (hmade : MadeEach r scope start (args ++ options.map Prod.snd) (ts ++ us.map Prod.snd))
    (hu : (Term.apply op ts (Fields.ofList us)).child? step = some u) :
    (Expr.call head offset args options).MadeBehind r scope start op step u := by
  cases step with
  | arg index =>
      have hu : ts[index]? = some u := hu
      obtain ⟨c, hc, hcu⟩ := hmade.argument_up hu
      exact ⟨index, c, hc, step_inOrder hcall hobject (hlength ▸ lt_of_getElem? hu), hcu⟩
  | option name =>
      obtain ⟨i, c, hi, hc, rfl, hcu⟩ := hmade.option_up hlength hnames hu
      exact ⟨i, c, hc, step_option hi, hcu⟩

theorem functionFirst_up (hlength : ts.length + 1 = args.length)
    (hnames : us.map Prod.fst = options.map Prod.fst)
    (hmade : MadeEach r scope start (args ++ options.map Prod.snd)
      ((ts ++ [f]) ++ us.map Prod.snd))
    (hu : (Term.apply .funcall (f :: ts) (Fields.ofList us)).child? step = some u) :
    (Expr.call head offset args options).MadeBehind r scope start .funcall step u := by
  cases step with
  | arg index =>
      have hu : (f :: ts)[index]? = some u := hu
      obtain ⟨i, hi, rfl⟩ := exists_rotated (lt_of_getElem? hu)
      rw [List.length_cons, getElem?_rotated hi] at hu
      obtain ⟨c, hc, hcu⟩ := hmade.argument_up hu
      refine ⟨i, c, hc, ?_, hcu⟩
      rw [step_funcall (hlength ▸ hi), ← hlength, List.length_cons]
  | option name =>
      have hlength' : (ts ++ [f]).length = args.length := by simpa using hlength
      obtain ⟨i, c, hi, hc, rfl, hcu⟩ := hmade.option_up hlength' hnames hu
      exact ⟨i, c, hc, step_option hi, hcu⟩

theorem keyed_up (hnames : us.map Prod.fst = pairs.map Prod.fst)
    (hmade : MadeEach r scope start (pairs.map Prod.snd) (us.map Prod.snd))
    (hu : (Term.apply .makeObj [] (Fields.ofList us)).child? step = some u) :
    (Expr.call head offset (alternate pairs) []).MadeBehind r scope start .makeObj step u := by
  cases step with
  | arg index => cases hu
  | option name =>
      obtain ⟨k, rfl, hk⟩ := option_of_lookup hu
      obtain ⟨c, hc, hcu⟩ := hmade.getExpr hk
      obtain ⟨hvalue, -, hcount⟩ := alternate_value hc
      refine ⟨2 * k + 1, c, ?_, ?_, ?_⟩
      · rw [alternate_children]
        exact hvalue
      · rw [alternate_step hc, hnames]
      · rw [childStart_of_ownCount rfl, alternate_children, hcount]
        exact hcu

end

/-- A part of the term with a function or a reference in it is made of a part. -/
theorem Expr.View.up (h : View r scope start e t) {step : Step} {u : Term}
    (hu : t.child? step = some u) :
    u.Plain ∨ e.MadeBehind r scope start t.operation step u := by
  cases h with
  | scalar _ _ => cases hu
  | symbol _ =>
      refine .inl ?_
      rw [Term.var] at hu
      cases step with
      | option name => cases hu
      | arg index =>
          cases index with
          | succ _ => cases hu
          | zero =>
              obtain rfl := Option.some.inj hu
              exact plain_literal _
  | vector hmade =>
      cases step with
      | option name => cases hu
      | arg index =>
          obtain ⟨c, hc, hcu⟩ := hmade.getExpr hu
          exact .inr ⟨index, c, hc, rfl, hcu⟩
  | @map entries us hnames hmade =>
      cases step with
      | arg index => cases hu
      | option name =>
          obtain ⟨i, rfl, hi⟩ := option_of_lookup hu
          obtain ⟨c, hc, hcu⟩ := hmade.getExpr hi
          exact .inr ⟨i, c, hc, by rw [Expr.step, hnames], hcu⟩
  | inOrder _ hcall hobject hlength hnames _ hmade =>
      exact .inr (inOrder_up hcall hobject hlength hnames hmade hu)
  | functionFirst hlength hnames _ hmade => exact .inr (functionFirst_up hlength hnames hmade hu)
  | keyed hnames _ hmade => exact .inr (keyed_up hnames hmade hu)
  | @fn params body b hmade =>
      rw [Term.func] at hu
      cases step with
      | option name => cases hu
      | arg index =>
          rcases index with _ | _ | index
          · obtain rfl := Option.some.inj hu
            exact .inl (plain_parameters _)
          · obtain rfl := Option.some.inj hu
            exact .inr ⟨0, body, rfl, rfl, hmade⟩
          · cases hu

/-! ## Steps apart -/

/-- In an invocation steps are apart if those to arguments are. -/
theorem call_step_injective {head : String} {offset i j : Nat} {args : List Expr}
    {options : List (String × Expr)} {op : Operation} {index : Nat → Nat}
    (hindex : ∀ k < args.length, (Expr.call head offset args options).step op k = .arg (index k))
    (hargs : ∀ k l, index k = index l → k = l)
    (hoptions : (options.map Prod.fst).Nodup)
    (hi : i < (Expr.call head offset args options).children.length)
    (hj : j < (Expr.call head offset args options).children.length)
    (hstep : (Expr.call head offset args options).step op i =
      (Expr.call head offset args options).step op j) : i = j := by
  rw [children, List.length_append, List.length_map] at hi hj
  rcases Nat.lt_or_ge i args.length with hi' | hi' <;>
    rcases Nat.lt_or_ge j args.length with hj' | hj'
  · rw [hindex i hi', hindex j hj'] at hstep
    exact hargs i j (Step.arg.inj hstep)
  · rw [hindex i hi', step_option hj'] at hstep
    cases hstep
  · rw [step_option hi', hindex j hj'] at hstep
    cases hstep
  · rw [step_option hi', step_option hj'] at hstep
    have hsame := option_injective hoptions (by rw [List.length_map]; omega)
      (by rw [List.length_map]; omega) (Step.option.inj hstep)
    omega

/-- Different parts have their terms in different places. -/
theorem Expr.View.step_injective (h : View r scope start e t) (he : e.NamesDistinct) {i j : Nat}
    {c d : Expr} (hc : e.children[i]? = some c) (hd : e.children[j]? = some d)
    (hctext : c.text? = none) (hdtext : d.text? = none)
    (hstep : e.step t.operation i = e.step t.operation j) : i = j := by
  have hi := lt_of_getElem? hc
  have hj := lt_of_getElem? hd
  cases h with
  | scalar hchildren _ =>
      rw [hchildren] at hc
      cases hc
  | symbol _ => cases hc
  | vector _ => exact Step.arg.inj hstep
  | @map entries us hnames _ =>
      have hkeys : (entries.map Prod.fst).Nodup := he [] _ rfl
      rw [children, List.length_map] at hi hj
      exact option_injective hkeys (by simpa using hi) (by simpa using hj)
        (Step.option.inj hstep)
  | inOrder _ hcall hobject _ hnames hnodup _ =>
      exact call_step_injective (fun k hk => step_inOrder hcall hobject hk)
        (fun _ _ hkl => hkl) (hnames ▸ hnodup) hi hj hstep
  | functionFirst _ hnames hnodup _ =>
      exact call_step_injective (fun k hk => step_funcall hk)
        (fun _ _ hkl => rotated_injective hkl) (hnames ▸ hnodup) hi hj hstep
  | @keyed head offset pairs us hnames hnodup _ =>
      rw [alternate_children] at hc hd
      obtain ⟨k, rfl, hk⟩ := alternate_get hc hctext
      obtain ⟨l, rfl, hl⟩ := alternate_get hd hdtext
      rw [Term.operation, alternate_step hk, alternate_step hl] at hstep
      have hk' := lt_of_getElem? hk
      have hl' := lt_of_getElem? hl
      rw [List.length_map] at hk' hl'
      rw [option_injective (hnames ▸ hnodup) (by simpa using hk') (by simpa using hl')
        (Step.option.inj hstep)]
  | fn _ =>
      rw [children, List.length_singleton] at hi hj
      omega

end Reql
