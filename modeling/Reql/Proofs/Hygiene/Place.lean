/-
# `Reql.Proofs.Hygiene.Place` — places in expressions and in their terms

A place in an expression is a path of positions: items, values of entries, arguments
and then values of options, or the body of a function.  A place in a term is a path of
steps, each to an argument or to a named option.

`Expr.place` says where the term of a part stands.  Mostly that is where the part
stands in the expression.  The function of `do` moves to the front, and the values of
`object` become options named by their keys.
-/
import Reql.Expr.Basic
import Reql.Term.Basic

namespace Reql

/-! ## Terms -/

/-- From a node of a term to a part of it. -/
inductive Step where
  | arg (index : Nat)
  | option (name : String)
  deriving DecidableEq, Repr

namespace Term

/-- The part of a node that a step leads to. -/
def child? : Term → Step → Option Term
  | .literal _, _ => none
  | .apply _ args _, .arg index => args[index]?
  | .apply _ _ options, .option name => options.lookup name

/-- The part of a term in a place. -/
def at? : Term → List Step → Option Term
  | t, [] => some t
  | t, step :: s => (t.child? step).bind fun u => u.at? s

/-- In a place there is a function that declares the given numbers. -/
def FunctionAt (t : Term) (s : List Step) (ids : List Term) : Prop :=
  ∃ body, t.at? s = some (.apply .func [.apply .makeArray ids [], body] [])

/-- In a place there is a reference to a number. -/
def ReferenceAt (t : Term) (s : List Step) (id : Term) : Prop :=
  t.at? s = some (.apply .var [id] [])

theorem at?_cons (t : Term) (step : Step) (s : List Step) :
    t.at? (step :: s) = (t.child? step).bind fun u => u.at? s := rfl

end Term

/-! ## Expressions -/

namespace Expr

/-- The parts of an expression in order. -/
def children : Expr → List Expr
  | .vector items => items
  | .map entries => entries.map Prod.snd
  | .call _ _ args options => args ++ options.map Prod.snd
  | .fn _ body => [body]
  | _ => []

/-- The part of an expression in a place. -/
def at? : Expr → List Nat → Option Expr
  | e, [] => some e
  | e, i :: q => e.children[i]?.bind fun c => c.at? q

/-- In a place there is a function of the given parameters. -/
def FunctionAt (e : Expr) (q : List Nat) (params : List String) : Prop :=
  ∃ body, e.at? q = some (.fn params body)

/-- In a place there is a symbol. -/
def SymbolAt (e : Expr) (q : List Nat) (name : String) : Prop :=
  ∃ offset, e.at? q = some (.symbol name offset)

/-- A place is inside of another. -/
def Inside (q q₀ : List Nat) : Prop := ∃ i rest, q = q₀ ++ i :: rest

/-- The innermost function around a place that has a parameter of the given name. -/
structure Binder (e : Expr) (q : List Nat) (name : String) (q₀ : List Nat)
    (params : List String) : Prop where
  function : e.FunctionAt q₀ params
  inside : Inside q q₀
  bound : name ∈ params
  innermost : ∀ q₁ params₁, e.FunctionAt q₁ params₁ → Inside q q₁ → name ∈ params₁ →
    q₁.length ≤ q₀.length

/-- The names that an expression itself brings in: keys of a map, parameters of a function. -/
def ownNames : Expr → List String
  | .map entries => entries.map Prod.fst
  | .fn params _ => params
  | _ => []

/-- Every part of an expression, and the whole, has a property. -/
def Everywhere (P : Expr → Prop) (e : Expr) : Prop := ∀ q d, e.at? q = some d → P d

/-- No map in an expression has a key twice, and no function a parameter. -/
def NamesDistinct (e : Expr) : Prop := ∀ q d, e.at? q = some d → d.ownNames.Nodup

/-- The text that an expression is. -/
def text? : Expr → Option String
  | .string value => some value
  | _ => none

/-- Where the argument in place `i` of `n` goes when the last one is put first. -/
def rotated (n i : Nat) : Nat := if i + 1 = n then 0 else i + 1

/-- The step to the term of a part, where the operation of the whole is `op`. -/
def step (op : Operation) (i : Nat) : Expr → Step
  | .map entries => .option ((entries.map Prod.fst)[i]?.getD "")
  | .call _ _ args options =>
    if i < args.length then
      if op = .funcall then .arg (rotated args.length i)
      else if op = .makeObj then .option ((args[i - 1]?.bind text?).getD "")
      else .arg i
    else .option ((options.map Prod.fst)[i - args.length]?.getD "")
  | .fn _ _ => .arg 1
  | _ => .arg i

/-- The place in the term `t` of an expression where the term of a part stands. -/
def place : Expr → Term → List Nat → List Step
  | _, _, [] => []
  | e, t, i :: q =>
    e.step t.operation i ::
      match e.children[i]?, t.child? (e.step t.operation i) with
      | some c, some u => c.place u q
      | _, _ => []

theorem at?_cons (e : Expr) (i : Nat) (q : List Nat) :
    e.at? (i :: q) = e.children[i]?.bind fun c => c.at? q := rfl

theorem at?_cons_eq_some_iff {e d : Expr} {i : Nat} {q : List Nat} :
    e.at? (i :: q) = some d ↔ ∃ c, e.children[i]? = some c ∧ c.at? q = some d :=
  Option.bind_eq_some_iff

theorem at?_append (e : Expr) (q q' : List Nat) :
    e.at? (q ++ q') = (e.at? q).bind fun c => c.at? q' := by
  induction q generalizing e with
  | nil => rfl
  | cons i q ih =>
      rw [List.cons_append, at?_cons, at?_cons]
      cases e.children[i]? with
      | none => rfl
      | some c => exact ih c

-- the body of the function that `do` is given last, and the value of a key of `object`
example : (Expr.call "do" 1 [.null, .fn [] .null] []).place
    (.apply .funcall [.apply .func [.apply .makeArray [] [], .literal .null] [], .literal .null] [])
    [1, 0] = [.arg 0, .arg 1] := rfl

example : (Expr.call "object" 1 [.string "k", .vector [.null]] []).place
    (.apply .makeObj [] [("k", .apply .makeArray [.literal .null] [])]) [1, 0] =
    [.option "k", .arg 0] := rfl

theorem place_cons {e c : Expr} {t u : Term} {i : Nat} {q : List Nat}
    (hc : e.children[i]? = some c) (hu : t.child? (e.step t.operation i) = some u) :
    e.place t (i :: q) = e.step t.operation i :: c.place u q := by
  rw [place, hc, hu]

/-- A text has no parts. -/
theorem text?_eq_none_of_at? {c d : Expr} {q : List Nat} (h : c.at? q = some d)
    (hd : d.text? = none) : c.text? = none := by
  cases q with
  | nil =>
      obtain rfl := Option.some.inj h
      exact hd
  | cons i q =>
      obtain ⟨_, hchild, -⟩ := at?_cons_eq_some_iff.mp h
      cases c with
      | string value => exact nomatch hchild
      | _ => rfl

theorem Everywhere.at? {P : Expr → Prop} {e c : Expr} (h : e.Everywhere P) {q : List Nat}
    (hc : e.at? q = some c) : c.Everywhere P := fun q' d hq' =>
  h (q ++ q') d (by rw [at?_append, hc]; exact hq')

theorem Everywhere.child {P : Expr → Prop} {e c : Expr} (h : e.Everywhere P) {i : Nat}
    (hc : e.children[i]? = some c) : c.Everywhere P :=
  Everywhere.at? (q := [i]) h (at?_cons_eq_some_iff.mpr ⟨c, hc, rfl⟩)

/-- A property holds everywhere in an expression if it holds of the whole and everywhere in the
parts. -/
theorem everywhere_iff {P : Expr → Prop} {e : Expr} :
    e.Everywhere P ↔ P e ∧ ∀ c ∈ e.children, c.Everywhere P := by
  constructor
  · intro h
    refine ⟨h [] e rfl, ?_⟩
    intro c hc
    obtain ⟨i, hi⟩ := List.mem_iff_getElem?.mp hc
    exact h.child hi
  · rintro ⟨hown, hchildren⟩ q d hq
    cases q with
    | nil =>
        obtain rfl := Option.some.inj hq
        exact hown
    | cons i q =>
        obtain ⟨c, hc, hq⟩ := at?_cons_eq_some_iff.mp hq
        exact hchildren c (List.mem_of_getElem? hc) q d hq

theorem everywhere_of_leaf {P : Expr → Prop} {e : Expr} (hleaf : e.children = []) (h : P e) :
    e.Everywhere P :=
  everywhere_iff.mpr ⟨h, hleaf ▸ List.forall_mem_nil _⟩

theorem NamesDistinct.at? {e c : Expr} (h : e.NamesDistinct) {q : List Nat}
    (hc : e.at? q = some c) : c.NamesDistinct :=
  Everywhere.at? h hc

theorem NamesDistinct.child {e c : Expr} (h : e.NamesDistinct) {i : Nat}
    (hc : e.children[i]? = some c) : c.NamesDistinct :=
  Everywhere.child h hc

/-! ## Induction on parts -/

section

variable {motive : Expr → Prop}

mutual

/-- What holds of an expression whenever it holds of its parts holds of all expressions. -/
theorem children_induction (step : ∀ e, (∀ c ∈ e.children, motive c) → motive e) :
    ∀ e : Expr, motive e
  | .null | .bool _ | .number _ | .string _ | .symbol _ _ => step _ (List.forall_mem_nil _)
  | .vector items => step _ (items_induction step items)
  | .map entries => step _ (entries_induction step entries)
  | .call _ _ args options =>
    step _ (List.forall_mem_append.mpr
      ⟨items_induction step args, entries_induction step options⟩)
  | .fn _ body => step _ (List.forall_mem_singleton.mpr (children_induction step body))

theorem items_induction (step : ∀ e, (∀ c ∈ e.children, motive c) → motive e) :
    ∀ items : List Expr, ∀ c ∈ items, motive c
  | [] => List.forall_mem_nil _
  | e :: rest => List.forall_mem_cons.mpr ⟨children_induction step e, items_induction step rest⟩

theorem entries_induction (step : ∀ e, (∀ c ∈ e.children, motive c) → motive e) :
    ∀ entries : List (String × Expr), ∀ c ∈ entries.map Prod.snd, motive c
  | [] => List.forall_mem_nil _
  | (_, e) :: rest =>
    List.forall_mem_cons.mpr ⟨children_induction step e, entries_induction step rest⟩

end

end

/-! ## Binders of parts -/

theorem functionAt_cons {e c : Expr} {i : Nat} (hc : e.children[i]? = some c) {q : List Nat}
    {params : List String} : e.FunctionAt (i :: q) params ↔ c.FunctionAt q params := by
  unfold FunctionAt
  rw [at?_cons, hc]
  rfl

theorem inside_cons {i : Nat} {q q₀ : List Nat} : Inside (i :: q) (i :: q₀) ↔ Inside q q₀ := by
  simp [Inside]

theorem inside_root (i : Nat) (q : List Nat) : Inside (i :: q) [] := ⟨i, q, rfl⟩

theorem inside_cases {i : Nat} {q q₁ : List Nat} (h : Inside (i :: q) q₁) :
    q₁ = [] ∨ ∃ q₀, q₁ = i :: q₀ ∧ Inside q q₀ := by
  obtain ⟨j, rest, h⟩ := h
  cases q₁ with
  | nil => exact .inl rfl
  | cons k q₀ =>
      obtain ⟨rfl, hq⟩ := List.cons.inj h
      exact .inr ⟨q₀, rfl, j, rest, hq⟩

/-- A binder within a part is one within the whole, as functions further out do not count. -/
theorem Binder.cons {e c : Expr} {i : Nat} (hc : e.children[i]? = some c) {q q₀ : List Nat}
    {name : String} {params : List String} (h : c.Binder q name q₀ params) :
    e.Binder (i :: q) name (i :: q₀) params where
  function := (functionAt_cons hc).mpr h.function
  inside := inside_cons.mpr h.inside
  bound := h.bound
  innermost q₁ params₁ hfunction hinside hname := by
    rcases inside_cases hinside with rfl | ⟨q₂, rfl, hinner⟩
    · exact Nat.zero_le _
    · exact Nat.succ_le_succ
        (h.innermost q₂ params₁ ((functionAt_cons hc).mp hfunction) hinner hname)

end Expr

end Reql
