/-
# `Reql.Term.Builder` — putting one node together

Arguments and options are added one by one; what is wrong with them is
said when the node is built.
-/
import Reql.Error
import Reql.Term.Basic

namespace Reql.Term

/-- The parts of a node so far, options in the order they were given. -/
structure Builder where
  operation : Operation
  args : List Term
  options : List (String × Term)
  deriving Repr, Inhabited

namespace Builder

/-- A node without arguments and options. -/
def new (operation : Operation) : Builder := ⟨operation, [], []⟩

/-- Adds an argument after the ones so far. -/
def arg (b : Builder) (t : Term) : Builder := { b with args := b.args ++ [t] }

/-- Adds several arguments after the ones so far. -/
def addArgs (b : Builder) (ts : List Term) : Builder := { b with args := b.args ++ ts }

/-- Adds an option. -/
def option (b : Builder) (name : String) (t : Term) : Builder :=
  { b with options := b.options ++ [(name, t)] }

/-- The node.  It cannot have the operation of literals, and no option twice:
the one whose second mention comes first is reported. -/
def build (b : Builder) : Except ArgumentError Term :=
  if b.operation = .datum then .error .literalOperation
  else
    match Fields.firstRepeated? (b.options.map Prod.fst) with
    | some name => .error (.duplicateOption name b.operation)
    | none => .ok (.apply b.operation b.args (Fields.ofList b.options))

end Builder

end Reql.Term
