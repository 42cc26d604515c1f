/-
# `Reql.Expr.Plan` — an expression with every name looked up

In a plan each head is the command it stands for and each symbol the
number of the parameter it is bound to.  All names are looked up before any
term is made, so an unknown command or an unbound symbol is reported whatever
else is wrong.

Parameters are numbered in the order in which functions begin.  A number is
never given out twice: `Drawing` carries the next one along, also past a failure.
-/
import Reql.Expr.Reader
import Reql.Registry

namespace Reql

/-- An expression with every head resolved and every symbol bound. -/
inductive Plan where
  | literal (value : Datum)
  | var (id : Nat)
  | array (items : List Plan)
  | object (entries : List (String × Plan))
  | call (command : Command) (args : List Plan) (options : List (String × Plan))
  | func (ids : List Nat) (body : Plan)
  deriving Repr

/-- A computation that draws numbers from a counter and may fail. -/
abbrev Drawing (α : Type) := ExceptT Error (StateM Nat) α

namespace Drawing

/-- The next numbers. -/
def fresh (count : Nat) : Drawing (List Nat) :=
  modifyGet fun next => (List.range' next count, next + count)

/-- An outcome that draws no numbers. -/
def ofOutcome {α ε : Type} (toError : ε → Error) : Except ε α → Drawing α
  | .ok a => pure a
  | .error cause => throw (toError cause)

end Drawing

/-- The parameters in reach with their numbers, innermost first. -/
abbrev Scope := List (String × Nat)

namespace Expr

mutual

/-- Looks up every name in an expression, heads before what they are given. -/
def plan (r : Registry) (scope : Scope) : Expr → Drawing Plan
  | .null => pure (.literal .null)
  | .bool value => pure (.literal (.bool value))
  | .number value => pure (.literal (.number value))
  | .string value => pure (.literal (.string value))
  | .symbol name offset =>
    match scope.lookup name with
    | some id => pure (.var id)
    | none => throw (.read offset (.unboundSymbol name))
  | .vector items => do
    let items ← planItems r scope items
    return .array items
  | .map entries => do
    let entries ← planEntries r scope entries
    return .object entries
  | .call head _ args options => do
    let c ← Drawing.ofOutcome .registry (r.resolve head)
    let args ← planItems r scope args
    let options ← planEntries r scope options
    return .call c args options
  | .fn params body => do
    let ids ← Drawing.fresh params.length
    let body ← plan r (params.zip ids ++ scope) body
    return .func ids body

def planItems (r : Registry) (scope : Scope) : List Expr → Drawing (List Plan)
  | [] => pure []
  | e :: rest => do
    let item ← plan r scope e
    let items ← planItems r scope rest
    return item :: items

def planEntries (r : Registry) (scope : Scope) :
    List (String × Expr) → Drawing (List (String × Plan))
  | [] => pure []
  | (name, e) :: rest => do
    let entry ← plan r scope e
    let entries ← planEntries r scope rest
    return (name, entry) :: entries

end

end Expr

namespace Plan

mutual

/-- Carries a plan out, innermost parts first: invocations and functions become
terms, the rest stays raw. -/
def realize (n : Normalizer) : Plan → Except ArgumentError Value
  | .literal value => .ok (Value.ofDatum value)
  | .var id => .ok (.term (Term.var id))
  | .array items => do
    let items ← realizeItems n items
    return .array items
  | .object entries => do
    let entries ← realizeEntries n entries
    return Value.ofEntries entries
  | .call c args options => do
    let args ← realizeItems n args
    let options ← realizeEntries n options
    let t ← c.construct n args options
    return .term t
  | .func ids body => do
    let body ← realize n body
    let body ← n.normalize body
    return .term (Term.func ids body)

def realizeItems (n : Normalizer) : List Plan → Except ArgumentError (List Value)
  | [] => .ok []
  | item :: rest => do
    let value ← realize n item
    let values ← realizeItems n rest
    return value :: values

def realizeEntries (n : Normalizer) :
    List (String × Plan) → Except ArgumentError (List (String × Value))
  | [] => .ok []
  | (name, entry) :: rest => do
    let value ← realize n entry
    let values ← realizeEntries n rest
    return (name, value) :: values

end

/-- The term of a plan. -/
def term (n : Normalizer) (p : Plan) : Except ArgumentError Term := do
  let value ← p.realize n
  n.normalize value

end Plan

/-- The term of an expression: its names looked up, then made. -/
def Expr.build (r : Registry) (e : Expr) : Drawing Term := do
  let p ← e.plan r []
  Drawing.ofOutcome .argument (p.term r.normalizer)

/-- The term that a text means: read, looked up, then made. -/
def Registry.build (r : Registry) (text : String) : Drawing Term := do
  let e ← Drawing.ofOutcome (fun fault => .read fault.offset fault.value) (Expr.parse text)
  e.build r

end Reql
