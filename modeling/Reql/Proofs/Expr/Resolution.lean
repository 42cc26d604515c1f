/-
# `Reql.Proofs.Expr.Resolution` — names are looked up before terms are made

The names of an expression stand in one order (`Expr.mentions`): the head of an
invocation before what it is given, arguments before options, everything else from
left to right.  Building a text fails with the fault of the first name that means
nothing.  If every name means something, only an argument can be at fault.

`plan_settles` is the induction.  Nothing in it runs a constructor, since a plan is
complete before the first term is made.
-/
import Mathlib.Algebra.GroupWithZero.Nat
import Reql.Proofs.Expr.Drawing

namespace Reql

/-! ## The names of an expression -/

/-- A name in an expression that has to mean something. -/
inductive Mention where
  /-- The name of a command. -/
  | head (name : String)
  /-- A symbol at an offset, in reach of the given parameters. -/
  | symbol (name : String) (offset : Nat) (reach : List String)
  deriving DecidableEq, Repr

/-- What is wrong with a name: no command has it, or no parameter in reach. -/
def Mention.fault? (r : Registry) : Mention → Option Error
  | .head name => if (r.get? name).isSome then none else some (.registry (.unknownCommand name))
  | .symbol name offset reach =>
    if name ∈ reach then none else some (.read offset (.unboundSymbol name))

namespace Expr

mutual

/-- The names of an expression in the order in which they are looked up, with
parameters of enclosing functions in reach. -/
def mentions (reach : List String) : Expr → List Mention
  | .null => []
  | .bool _ => []
  | .number _ => []
  | .string _ => []
  | .symbol name offset => [.symbol name offset reach]
  | .vector items => itemMentions reach items
  | .map entries => entryMentions reach entries
  | .call head _ args options =>
    .head head :: (itemMentions reach args ++ entryMentions reach options)
  | .fn params body => mentions (params ++ reach) body

def itemMentions (reach : List String) : List Expr → List Mention
  | [] => []
  | e :: rest => mentions reach e ++ itemMentions reach rest

def entryMentions (reach : List String) : List (String × Expr) → List Mention
  | [] => []
  | (_, e) :: rest => mentions reach e ++ entryMentions reach rest

end

mutual

/-- How many parameters the functions in an expression declare. -/
def paramCount : Expr → Nat
  | .null => 0
  | .bool _ => 0
  | .number _ => 0
  | .string _ => 0
  | .symbol _ _ => 0
  | .vector items => itemParamCount items
  | .map entries => entryParamCount entries
  | .call _ _ args options => itemParamCount args + entryParamCount options
  | .fn params body => params.length + paramCount body

def itemParamCount : List Expr → Nat
  | [] => 0
  | e :: rest => paramCount e + itemParamCount rest

def entryParamCount : List (String × Expr) → Nat
  | [] => 0
  | (_, e) :: rest => paramCount e + entryParamCount rest

end

theorem itemParamCount_eq_sum (es : List Expr) :
    itemParamCount es = (es.map paramCount).sum := by
  induction es with
  | nil => rfl
  | cons e rest ih => rw [itemParamCount, ih, List.map_cons, List.sum_cons]

theorem itemParamCount_append (es es' : List Expr) :
    itemParamCount (es ++ es') = itemParamCount es + itemParamCount es' := by
  simp only [itemParamCount_eq_sum, List.map_append, List.sum_append]

theorem entryParamCount_eq (entries : List (String × Expr)) :
    entryParamCount entries = itemParamCount (entries.map Prod.snd) := by
  induction entries with
  | nil => rfl
  | cons entry rest ih => rw [entryParamCount, List.map_cons, itemParamCount, ih]

end Expr

/-! ## Planning settles on the first fault -/

section

variable (r : Registry)

theorem Scope.lookup_eq_none_iff {scope : Scope} {name : String} :
    scope.lookup name = none ↔ name ∉ scope.map Prod.fst := by
  rw [List.lookup_eq_none_iff]
  constructor
  · intro h hmem
    obtain ⟨entry, hentry, rfl⟩ := List.mem_map.mp hmem
    exact absurd (h entry hentry) (by simp)
  · intro h entry hentry
    exact bne_iff_ne.mpr fun heq => h (heq ▸ List.mem_map_of_mem hentry)

theorem resolve_settles (name : String) :
    (Drawing.ofOutcome .registry (r.resolve name)).Settles 0
      ((Mention.head name).fault? r) := by
  rw [Registry.resolve, Mention.fault?]
  cases r.get? name with
  | some c => exact Drawing.settles_pure c
  | none => exact Drawing.settles_throw _ 0

/-- The names that a function's body may use. -/
theorem Scope.names_zip {params : List String} {ids : List Nat} {scope : Scope}
    (h : ids.length = params.length) :
    (params.zip ids ++ scope).map Prod.fst = params ++ scope.map Prod.fst := by
  rw [List.map_append, List.map_fst_zip (Nat.le_of_eq h.symm)]

namespace Expr

mutual

/-- Planning settles on the fault of the first name that has one, and otherwise
draws one number for each parameter. -/
theorem plan_settles : ∀ (e : Expr) (scope : Scope),
    (e.plan r scope).Settles e.paramCount
      ((e.mentions (scope.map Prod.fst)).findSome? (Mention.fault? r))
  | .null, _ | .bool _, _ | .number _, _ | .string _, _ => Drawing.settles_pure _
  | .symbol name offset, scope => by
      rw [plan, mentions, List.findSome?_singleton, Mention.fault?]
      cases hlookup : scope.lookup name with
      | some id =>
          have hmem : name ∈ scope.map Prod.fst := by
            by_contra hmem
            exact nomatch hlookup.symm.trans (Scope.lookup_eq_none_iff.mpr hmem)
          rw [if_pos hmem]
          exact Drawing.settles_pure _
      | none =>
          rw [if_neg (Scope.lookup_eq_none_iff.mp hlookup)]
          exact Drawing.settles_throw _ 0
  | .vector items, scope => by
      rw [plan, mentions, paramCount]
      exact (planItems_settles items scope).map _
  | .map entries, scope => by
      rw [plan, mentions, paramCount]
      exact (planEntries_settles entries scope).map _
  | .call head _ args options, scope => by
      have hhead := resolve_settles r head
      have hargs := planItems_settles args scope
      have hoptions := planEntries_settles options scope
      have h := hhead.bind fun c => hargs.bind fun args =>
        hoptions.map fun options => Plan.call c args options
      rw [Nat.zero_add] at h
      rw [plan, mentions, paramCount, List.findSome?_cons, List.findSome?_append]
      cases hfault : (Mention.head head).fault? r with
      | some fault => rwa [hfault] at h
      | none => rwa [hfault] at h
  | .fn params body, scope => by
      rw [plan, mentions, paramCount]
      refine Drawing.Settles.fresh_bind ?_
      intro ids hids
      rw [← Scope.names_zip hids]
      exact (plan_settles body (params.zip ids ++ scope)).map _

theorem planItems_settles : ∀ (items : List Expr) (scope : Scope),
    (planItems r scope items).Settles (itemParamCount items)
      ((itemMentions (scope.map Prod.fst) items).findSome? (Mention.fault? r))
  | [], _ => Drawing.settles_pure []
  | e :: rest, scope => by
      rw [planItems, itemMentions, itemParamCount, List.findSome?_append]
      exact (plan_settles e scope).bind fun _ => (planItems_settles rest scope).map _

theorem planEntries_settles : ∀ (entries : List (String × Expr)) (scope : Scope),
    (planEntries r scope entries).Settles (entryParamCount entries)
      ((entryMentions (scope.map Prod.fst) entries).findSome? (Mention.fault? r))
  | [], _ => Drawing.settles_pure []
  | (_, e) :: rest, scope => by
      rw [planEntries, entryMentions, entryParamCount, List.findSome?_append]
      exact (plan_settles e scope).bind fun _ => (planEntries_settles rest scope).map _

end

end Expr

/-! ## Building -/

variable {r} {text : String} {e : Expr}

theorem Registry.build_of_parse (h : Expr.parse text = .ok e) : r.build text = e.build r := by
  rw [Registry.build, h]
  rfl

/-- Building a text fails with the fault of its first name that means nothing.  If
every name means something there is a term, or an argument is at fault. -/
theorem Registry.build_first_fault (h : Expr.parse text = .ok e) (r : Registry) (start : Nat) :
    (∀ before mention after fault, e.mentions [] = before ++ mention :: after →
      (∀ earlier ∈ before, earlier.fault? r = none) → mention.fault? r = some fault →
        ((r.build text).runFrom start).1 = .error fault) ∧
    ((∀ mention ∈ e.mentions [], mention.fault? r = none) →
      (∃ t, ((r.build text).runFrom start).1 = .ok t) ∨
        ∃ cause, ((r.build text).runFrom start).1 = .error (.argument cause)) := by
  rw [Registry.build_of_parse h, Expr.build, Drawing.runFrom_bind]
  have hplan := Expr.plan_settles r e []
  rw [List.map_nil] at hplan
  constructor
  · intro before mention after fault hmentions hbefore hfault
    have hfirst : (e.mentions []).findSome? (Mention.fault? r) = some fault := by
      rw [hmentions, List.findSome?_append, List.findSome?_eq_none_iff.mpr hbefore,
        Option.none_or, List.findSome?_cons, hfault]
    rw [hfirst] at hplan
    obtain ⟨next, hnext⟩ := hplan start
    rw [hnext]
  · intro hmentions
    rw [List.findSome?_eq_none_iff.mpr hmentions] at hplan
    obtain ⟨p, hp⟩ := hplan start
    rw [hp]
    simp only [Drawing.runFrom_ofOutcome]
    cases p.term r.normalizer with
    | ok t => exact .inl ⟨t, rfl⟩
    | error cause => exact .inr ⟨cause, rfl⟩

/-- A parameter used past the end of its function, before a command that there is
not; and a function in place of the name of a table. -/
theorem Registry.build_first_fault_table :
    let r := (blank.register { name := "table", operation := .table, required := [.string] }).registry
    ((r.build "(table (fn [x] x) x (frob))").runFrom 1).1 =
        .error (.read 18 (.unboundSymbol "x")) ∧
      ((∃ t, ((r.build "(table (fn [x] x))").runFrom 1).1 = .ok t) ∨
        ∃ cause, ((r.build "(table (fn [x] x))").runFrom 1).1 = .error (.argument cause)) := by
  intro r
  have hunbound : Expr.parse "(table (fn [x] x) x (frob))" =
      .ok (.call "table" 1
        [.fn ["x"] (.symbol "x" 15), .symbol "x" 18, .call "frob" 21 [] []] []) := rfl
  have hfunction : Expr.parse "(table (fn [x] x))" =
      .ok (.call "table" 1 [.fn ["x"] (.symbol "x" 15)] []) := rfl
  exact ⟨(build_first_fault hunbound r 1).1
      [.head "table", .symbol "x" 15 ["x"]] (.symbol "x" 18 []) [.head "frob"] _ rfl
      (by decide +kernel) rfl,
    (build_first_fault hfunction r 1).2 (by decide +kernel)⟩

end

end Reql
