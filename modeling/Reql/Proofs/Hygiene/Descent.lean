/-
# `Reql.Proofs.Hygiene.Descent` — places in a made term

The correspondence of parts, one level at a time in `Hygiene.Parts`, along whole paths:
what stands in a place of the expression is made into what stands at the place of its
term (`Made.down`), each function and reference of the term stands at the place of a
part (`Made.up`), and different places stay different (`Made.place_injective`).
-/
import Reql.Proofs.Hygiene.Binding

namespace Reql.Expr

variable {r : Registry} {scope : Scope} {start : Nat} {e d d' : Expr} {t u : Term}
  {q q' : List Nat} {s : List Step}

/-! ## Down -/

theorem Made.down (hr : r.OnlyCatalogue) (he : e.NamesDistinct) (h : e.Made r scope start t)
    (hq : e.at? q = some d) (htext : d.text? = none) :
    ∃ u, t.at? (e.place t q) = some u ∧
      d.Made r (e.scopeAt scope start q) (e.numberAt start q) u := by
  induction q generalizing e t scope start with
  | nil =>
      obtain rfl := Option.some.inj hq
      exact ⟨t, rfl, h⟩
  | cons i q ih =>
      obtain ⟨c, hc, hq⟩ := at?_cons_eq_some_iff.mp hq
      obtain ⟨u, hu, hcu⟩ := (h.view hr he).down he hc (text?_eq_none_of_at? hq htext)
      obtain ⟨v, hv, hdv⟩ := ih (he.child hc) hcu hq
      refine ⟨v, ?_, ?_⟩
      · rw [place_cons hc hu, Term.at?_cons, hu]
        exact hv
      · rw [scopeAt_cons hc, numberAt_cons hc]
        exact hdv

/-- The place of a part of a part is inside the place of the part. -/
theorem place_append (hq : e.at? q = some d) (hu : t.at? (e.place t q) = some u) (q' : List Nat) :
    e.place t (q ++ q') = e.place t q ++ d.place u q' := by
  induction q generalizing e t with
  | nil =>
      obtain rfl := Option.some.inj hq
      obtain rfl := Option.some.inj hu
      rfl
  | cons i q ih =>
      obtain ⟨c, hc, hq⟩ := at?_cons_eq_some_iff.mp hq
      rw [place, Term.at?_cons] at hu
      obtain ⟨v, hv, hu⟩ := Option.bind_eq_some_iff.mp hu
      rw [hc, hv] at hu
      rw [List.cons_append, place_cons hc hv, place_cons hc hv, ih hq hu, List.cons_append]

/-! ## Up -/

theorem Made.up (hr : r.OnlyCatalogue) (he : e.NamesDistinct) (h : e.Made r scope start t)
    (hs : t.at? s = some u) (hu : u.operation = .func ∨ u.operation = .var) :
    ∃ q d, e.at? q = some d ∧ e.place t q = s ∧
      d.Made r (e.scopeAt scope start q) (e.numberAt start q) u := by
  induction s generalizing e t scope start with
  | nil =>
      obtain rfl := Option.some.inj hs
      exact ⟨[], e, rfl, rfl, h⟩
  | cons step s ih =>
      obtain ⟨v, hv, hs⟩ := Option.bind_eq_some_iff.mp hs
      rcases (h.view hr he).up hv with hplain | ⟨i, c, hc, hstep, hcv⟩
      · obtain ⟨hfunc, hvar⟩ := hplain s u hs
        exact (hu.elim hfunc hvar).elim
      · obtain ⟨q, d, hq, rfl, hdu⟩ := ih (he.child hc) hcv hs
        subst hstep
        refine ⟨i :: q, d, at?_cons_eq_some_iff.mpr ⟨c, hc, hq⟩, place_cons hc hv, ?_⟩
        rw [scopeAt_cons hc, numberAt_cons hc]
        exact hdu

/-! ## Apart -/

theorem Made.place_injective (hr : r.OnlyCatalogue) (he : e.NamesDistinct)
    (h : e.Made r scope start t) (hq : e.at? q = some d) (hq' : e.at? q' = some d')
    (htext : d.text? = none) (htext' : d'.text? = none) (hplace : e.place t q = e.place t q') :
    q = q' := by
  induction q generalizing e t scope start q' with
  | nil =>
      cases q' with
      | nil => rfl
      | cons j q' => exact nomatch hplace
  | cons i q ih =>
      cases q' with
      | nil => exact nomatch hplace
      | cons j q' =>
          obtain ⟨c, hc, hq⟩ := at?_cons_eq_some_iff.mp hq
          obtain ⟨c', hc', hq'⟩ := at?_cons_eq_some_iff.mp hq'
          have hctext := text?_eq_none_of_at? hq htext
          have hview := h.view hr he
          obtain rfl : i = j := hview.step_injective he hc hc' hctext
            (text?_eq_none_of_at? hq' htext') (List.cons.inj hplace).1
          obtain rfl := Option.some.inj (hc.symm.trans hc')
          obtain ⟨u, hu, hcu⟩ := hview.down he hc hctext
          rw [place_cons hc hu, place_cons hc hu] at hplace
          rw [ih (he.child hc) hcu hq hq' (List.cons.inj hplace).2]

end Reql.Expr
