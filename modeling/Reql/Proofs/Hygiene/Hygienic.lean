/-
# `Reql.Proofs.Hygiene.Hygienic` — scopes of a built term

The functions of a built term are those of the text, one for one, and no two of their
parameters have one number.  A reference stands within the body of the function that
declares its number, and that is the innermost one around the symbol with a parameter
of its name (`build_hygienic`).  Where no function around a symbol has its name there
is no term.
-/
import Mathlib.Data.List.Lex
import Reql.Proofs.Double.Naturals
import Reql.Proofs.Expr.Reading
import Reql.Proofs.Hygiene.Descent

namespace Reql

namespace Expr

/-- The functions and references of a term are those of an expression. -/
structure Hygienic (e : Expr) (t : Term) : Prop where
  /-- No function has a parameter twice. -/
  parameters : ∀ q params, e.FunctionAt q params → params.Nodup
  /-- A function declares as many numbers as it has parameters. -/
  function : ∀ q params, e.FunctionAt q params →
    ∃ ids, t.FunctionAt (e.place t q) ids ∧ ids.length = params.length
  /-- There are no other functions. -/
  function_only : ∀ s u, t.at? s = some u → u.operation = .func →
    ∃ q params, e.FunctionAt q params ∧ e.place t q = s
  /-- What stands apart is made into terms that stand apart, but for written keys. -/
  apart : ∀ q q' d d', e.at? q = some d → e.at? q' = some d' → d.text? = none →
    d'.text? = none → e.place t q = e.place t q' → q = q'
  /-- No number is declared twice. -/
  declared_once : ∀ s s' ids ids' (i j : Nat) id, t.FunctionAt s ids → t.FunctionAt s' ids' →
    ids[i]? = some id → ids'[j]? = some id → s = s' ∧ i = j
  /-- A symbol refers to the parameter of its name of the innermost function around it
  that has one. -/
  symbol : ∀ q name, e.SymbolAt q name → ∃ q₀ params ids, ∃ (i : Nat), ∃ id,
    e.Binder q name q₀ params ∧ t.FunctionAt (e.place t q₀) ids ∧
      params[i]? = some name ∧ ids[i]? = some id ∧ t.ReferenceAt (e.place t q) id
  /-- There are no other references. -/
  reference_only : ∀ s u, t.at? s = some u → u.operation = .var →
    ∃ q name, e.SymbolAt q name ∧ e.place t q = s
  /-- A reference stands in the body of a function that declares its number. -/
  reference : ∀ s u, t.at? s = some u → u.operation = .var → ∃ s₀ rest ids id,
    s = s₀ ++ .arg 1 :: rest ∧ t.FunctionAt s₀ ids ∧ id ∈ ids ∧ t.ReferenceAt s id

/-! ## Functions and references of a made term -/

section

variable {r : Registry} {scope : Scope} {start : Nat} {e : Expr} {t u : Term} {q : List Nat}
  {s : List Step}

theorem View.eq_fn (h : View r scope start e t) (ht : t.operation = .func) :
    ∃ params body b, e = .fn params body ∧ t = .func (List.range' start params.length) b := by
  cases h with
  | @fn params body b _ => exact ⟨params, body, b, rfl, rfl⟩
  | inOrder hordinary _ _ _ _ _ _ => exact absurd ht hordinary.2
  | _ => exact nomatch ht

theorem View.eq_symbol (h : View r scope start e t) (ht : t.operation = .var) :
    ∃ name offset, e = .symbol name offset := by
  cases h with
  | @symbol name offset _ _ => exact ⟨name, offset, rfl⟩
  | inOrder hordinary _ _ _ _ _ _ => exact absurd ht hordinary.1
  | _ => exact nomatch ht

/-- The numbers that the function in a place declares. -/
def declaredAt (e : Expr) (start : Nat) (q : List Nat) (params : List String) : List Term :=
  (List.range' (e.numberAt start q) params.length).map Term.ofId

theorem getElem?_declaredAt {params : List String} {i : Nat} {id : Term} :
    (e.declaredAt start q params)[i]? = some id ↔
      i < params.length ∧ id = .ofId (e.numberAt start q + i) := by
  rw [declaredAt, List.getElem?_map, Option.map_eq_some_iff]
  constructor
  · rintro ⟨number, hnumber, rfl⟩
    obtain ⟨hi, rfl⟩ := List.getElem?_eq_some_iff.mp hnumber
    rw [List.length_range'] at hi
    rw [List.getElem_range', Nat.one_mul]
    exact ⟨hi, rfl⟩
  · rintro ⟨hi, rfl⟩
    refine ⟨e.numberAt start q + i, ?_, rfl⟩
    rw [List.getElem?_range' hi, Nat.one_mul]

/-- As long as numbers stay apart as doubles, one function in one place declares each. -/
theorem declaredAt_inj {q' : List Nat} {params params' : List String} {i j : Nat} {id : Term}
    (hstart : start + e.paramCount ≤ 2 ^ 53) (hq : e.FunctionAt q params)
    (hq' : e.FunctionAt q' params') (hi : (e.declaredAt start q params)[i]? = some id)
    (hj : (e.declaredAt start q' params')[j]? = some id) : q = q' ∧ i = j := by
  obtain ⟨body, hq⟩ := hq
  obtain ⟨body', hq'⟩ := hq'
  obtain ⟨hi, rfl⟩ := getElem?_declaredAt.mp hi
  obtain ⟨hj, hid⟩ := getElem?_declaredAt.mp hj
  have hlast := (numberAt_bounds hq start).2
  have hlast' := (numberAt_bounds hq' start).2
  rw [paramCount] at hlast hlast'
  have hsame := Term.ofId_injective (by omega) (by omega) hid
  rcases lt_trichotomy q q' with hlt | rfl | hlt
  · have hlater := numberAt_lt hq hq' start hlt
    rw [ownCount] at hlater
    omega
  · exact ⟨rfl, by omega⟩
  · have hlater := numberAt_lt hq' hq start hlt
    rw [ownCount] at hlater
    omega

variable (hr : r.OnlyCatalogue) (he : e.NamesDistinct) (h : e.Made r scope start t)

include hr he h

theorem Made.functionAt {params : List String} (hq : e.FunctionAt q params) :
    t.FunctionAt (e.place t q) (e.declaredAt start q params) := by
  obtain ⟨body, hq⟩ := hq
  obtain ⟨u, hu, hmade⟩ := h.down hr he hq rfl
  cases hmade.view hr (he.at? hq) with
  | scalar hchildren _ => exact nomatch hchildren
  | @fn _ _ b _ => exact ⟨b, hu⟩

theorem Made.eq_declaredAt {ids : List Term} (hs : t.FunctionAt s ids) :
    ∃ q params, e.FunctionAt q params ∧ e.place t q = s ∧ ids = e.declaredAt start q params := by
  obtain ⟨body, hs⟩ := hs
  obtain ⟨q, d, hq, hplace, hmade⟩ := h.up hr he hs (.inl rfl)
  obtain ⟨params, body', b, rfl, hfunc⟩ := (hmade.view hr (he.at? hq)).eq_fn rfl
  have hparts : ids = e.declaredAt start q params ∧ body = b := by
    simpa [Term.func, declaredAt] using hfunc
  exact ⟨q, params, ⟨body', hq⟩, hplace, hparts.1⟩

theorem Made.referenceAt {name : String} (hq : e.SymbolAt q name) :
    ∃ id, (e.scopeAt scope start q).lookup name = some id ∧
      t.ReferenceAt (e.place t q) (.ofId id) := by
  obtain ⟨offset, hq⟩ := hq
  obtain ⟨u, hu, hmade⟩ := h.down hr he hq rfl
  cases hmade.view hr (he.at? hq) with
  | scalar _ hsymbol => exact absurd rfl (hsymbol name offset)
  | symbol hid => exact ⟨_, hid, hu⟩

/-- The term of what is inside of a function stands in its body. -/
theorem Made.place_inside {q₀ : List Nat} {params : List String}
    (hq₀ : e.FunctionAt q₀ params) (hinside : Inside q q₀) :
    ∃ rest, e.place t q = e.place t q₀ ++ .arg 1 :: rest := by
  obtain ⟨i, rest, rfl⟩ := hinside
  obtain ⟨b, hu⟩ := h.functionAt hr he hq₀
  obtain ⟨body, hq₀⟩ := hq₀
  rw [place_append hq₀ hu]
  exact ⟨_, rfl⟩

theorem Made.function_of_operation (hs : t.at? s = some u) (hu : u.operation = .func) :
    ∃ q params, e.FunctionAt q params ∧ e.place t q = s := by
  obtain ⟨q, d, hq, hplace, hmade⟩ := h.up hr he hs (.inl hu)
  obtain ⟨params, body, b, rfl, -⟩ := (hmade.view hr (he.at? hq)).eq_fn hu
  exact ⟨q, params, ⟨body, hq⟩, hplace⟩

theorem Made.symbol_of_operation (hs : t.at? s = some u) (hu : u.operation = .var) :
    ∃ q name, e.SymbolAt q name ∧ e.place t q = s := by
  obtain ⟨q, d, hq, hplace, hmade⟩ := h.up hr he hs (.inr hu)
  obtain ⟨name, offset, rfl⟩ := (hmade.view hr (he.at? hq)).eq_symbol hu
  exact ⟨q, name, ⟨offset, hq⟩, hplace⟩

/-- With nothing in reach from outside, a symbol refers to a parameter around it. -/
theorem Made.binder (hscope : scope = []) {name : String} (hq : e.SymbolAt q name) :
    ∃ q₀ params, ∃ (i : Nat), ∃ id, e.Binder q name q₀ params ∧ params[i]? = some name ∧
      (e.declaredAt start q₀ params)[i]? = some id ∧ t.ReferenceAt (e.place t q) id := by
  subst hscope
  obtain ⟨id, hlookup, href⟩ := h.referenceAt hr he hq
  obtain ⟨offset, hq⟩ := hq
  rcases binder_of_lookup hq hlookup with ⟨q₀, params, i, hbinder, hi, rfl⟩ | ⟨-, hnone⟩
  · have hlt : i < params.length := (List.getElem?_eq_some_iff.mp hi).1
    exact ⟨q₀, params, i, _, hbinder, hi, getElem?_declaredAt.mpr ⟨hlt, rfl⟩, href⟩
  · exact nomatch hnone

/-- A term made with nothing in reach from outside is hygienic. -/
theorem Made.hygienic (hscope : scope = []) (hstart : start + e.paramCount ≤ 2 ^ 53) :
    e.Hygienic t where
  parameters q params hq := by
    obtain ⟨body, hq⟩ := hq
    exact he q _ hq
  function q params hq := by
    refine ⟨_, h.functionAt hr he hq, ?_⟩
    rw [declaredAt, List.length_map, List.length_range']
  function_only s u := h.function_of_operation hr he
  apart q q' d d' := h.place_injective hr he
  declared_once s s' ids ids' i j id hs hs' hi hj := by
    obtain ⟨q, params, hq, rfl, rfl⟩ := h.eq_declaredAt hr he hs
    obtain ⟨q', params', hq', rfl, rfl⟩ := h.eq_declaredAt hr he hs'
    obtain ⟨rfl, rfl⟩ := declaredAt_inj hstart hq hq' hi hj
    exact ⟨rfl, rfl⟩
  symbol q name hq := by
    obtain ⟨q₀, params, i, id, hbinder, hi, hid, href⟩ := h.binder hr he hscope hq
    exact ⟨q₀, params, _, i, id, hbinder, h.functionAt hr he hbinder.function, hi, hid, href⟩
  reference_only s u := h.symbol_of_operation hr he
  reference s u hs hu := by
    obtain ⟨q, name, hq, rfl⟩ := h.symbol_of_operation hr he hs hu
    obtain ⟨q₀, params, i, id, hbinder, -, hid, href⟩ := h.binder hr he hscope hq
    obtain ⟨rest, hrest⟩ := h.place_inside hr he hbinder.function hbinder.inside
    exact ⟨_, rest, _, id, hrest, h.functionAt hr he hbinder.function,
      List.mem_of_getElem? hid, href⟩

end

end Expr

/-! ## Building -/

variable {r : Registry} {text : String} {start : Nat} {e : Expr} {t : Term}

/-- Where the name of a symbol is not in reach, names cannot all be looked up. -/
theorem Expr.plan_unbound {q : List Nat} {name : String} (r : Registry)
    (hsymbol : e.SymbolAt q name)
    (hunbound : ∀ q₁ params, e.FunctionAt q₁ params → Inside q q₁ → name ∉ params) (start : Nat) :
    ∃ fault next, (e.plan r []).runFrom start = (.error fault, next) := by
  obtain ⟨offset, hq⟩ := hsymbol
  obtain ⟨reach, hmention, hreach⟩ := mention_of_symbolAt hq []
  have hout : name ∉ reach := by
    intro hname
    rcases hreach name hname with hnil | ⟨q₁, params, hfunction, hinside, hmem⟩
    · exact nomatch hnil
    · exact hunbound q₁ params hfunction hinside hmem
  have hfault : (Mention.symbol name offset reach).fault? r =
      some (.read offset (.unboundSymbol name)) := if_neg hout
  have hsettles := Expr.plan_settles r e []
  cases hfirst : (e.mentions []).findSome? (Mention.fault? r) with
  | none =>
      have hnone := List.findSome?_eq_none_iff.mp hfirst _ hmention
      exact nomatch hfault.symm.trans hnone
  | some fault =>
      rw [List.map_nil, hfirst] at hsettles
      exact ⟨fault, hsettles start⟩

/-- Scopes of a built term are those of the text, as long as numbers of parameters stay
apart as doubles.  A symbol that no function around it binds keeps a text from being
looked up, so from being built. -/
theorem Registry.build_hygienic (hr : r.OnlyCatalogue) (text : String) (start : Nat) :
    (∀ t, ((r.build text).runFrom start).1 = .ok t →
      ∃ e, Expr.parse text = .ok e ∧ (start + e.paramCount ≤ 2 ^ 53 → e.Hygienic t)) ∧
    (∀ e q name, Expr.parse text = .ok e → e.SymbolAt q name →
      (∀ q₁ params, e.FunctionAt q₁ params → Expr.Inside q q₁ → name ∉ params) →
        ∃ fault, ((e.plan r []).runFrom start).1 = .error fault ∧
          ((r.build text).runFrom start).1 = .error fault) := by
  constructor
  · intro t ht
    obtain ⟨e, hparse, hmade⟩ := made_of_build ht
    exact ⟨e, hparse, hmade.hygienic hr (Expr.parse_namesDistinct hparse) rfl⟩
  · intro e q name hparse hsymbol hunbound
    obtain ⟨fault, next, hplan⟩ := Expr.plan_unbound r hsymbol hunbound start
    refine ⟨fault, by rw [hplan], ?_⟩
    rw [build_of_parse hparse, Expr.build, Drawing.runFrom_bind, hplan]

/-- One parameter hides another of its name.  Past the end of its function there is
nothing of that name. -/
theorem Registry.build_hygienic_hidden :
    let map : Command := { name := "map", operation := .map, required := [.sequence, .function 1] }
    let r := (blank.register map).registry
    (∃ (t : Term) (e : Expr),
      ((r.build "(map [] (fn [x] (map [x] (fn [x] x))))").runFrom 1).1 = .ok t ∧
        e.FunctionAt [1] ["x"] ∧ e.FunctionAt [1, 0, 1] ["x"] ∧ e.SymbolAt [1, 0, 1, 0] "x" ∧
        e.Hygienic t) ∧
      ∃ fault, ((r.build "(map (fn [x] x) x)").runFrom 1).1 = .error fault := by
  intro map r
  have hr : r.OnlyCatalogue := (onlyCatalogue_empty _ _).register (by decide +kernel)
  have hhidden : Expr.parse "(map [] (fn [x] (map [x] (fn [x] x))))" =
      .ok (.call "map" 1 [.vector [], .fn ["x"] (.call "map" 17
        [.vector [.symbol "x" 22], .fn ["x"] (.symbol "x" 33)] [])] []) := rfl
  have hpast : Expr.parse "(map (fn [x] x) x)" =
      .ok (.call "map" 1 [.fn ["x"] (.symbol "x" 13), .symbol "x" 16] []) := rfl
  constructor
  · have ht : ((r.build "(map [] (fn [x] (map [x] (fn [x] x))))").runFrom 1).1 =
        .ok (.apply .map [.apply .makeArray [] [], .func [1] (.apply .map
          [.apply .makeArray [.var 1] [], .func [2] (.var 2)] [])] []) := by
      rw [build_of_parse hhidden]
      rfl
    obtain ⟨e, he, hhygienic⟩ := (build_hygienic hr _ 1).1 _ ht
    obtain rfl := Except.ok.inj (hhidden.symm.trans he)
    exact ⟨_, _, ht, ⟨_, rfl⟩, ⟨_, rfl⟩, ⟨_, rfl⟩, hhygienic (by decide)⟩
  · obtain ⟨fault, -, hfault⟩ := (build_hygienic hr _ 1).2 _ [1] "x" hpast ⟨16, rfl⟩
      fun q₁ params hfunction hinside => by
        rcases Expr.inside_cases hinside with rfl | ⟨q₀, -, hinside⟩
        · obtain ⟨body, hbody⟩ := hfunction
          exact nomatch hbody
        · exact absurd hinside (Expr.not_inside_root q₀)
    exact ⟨fault, hfault⟩

end Reql
