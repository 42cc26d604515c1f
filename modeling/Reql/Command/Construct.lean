/-
# `Reql.Command.Construct` — the term of an invocation

A command given arguments and options makes its term, or says what is
wrong with them.  How it goes about it is its `Assembly`.
-/
import Reql.Command.Basic
import Reql.Normalize

namespace Reql.Command

variable (c : Command) (n : Normalizer)

/-! ## The assemblies -/

/-- Everything checked, then everything normalized. -/
def constructPlain (args : List Value) (options : Options) : Except ArgumentError Term := do
  c.validateArgs args
  c.validateOptions options
  n.createTerm c.operation args options

/-- Splits off a database in front of the arguments. -/
def splitDatabase : List Value → List Value × List Value
  | [] => ([], [])
  | v :: rest => if v.isOfKind .db then ([v], rest) else ([], v :: rest)

/-- The signature describes the arguments after the database. -/
def constructScoped (args : List Value) (options : Options) : Except ArgumentError Term := do
  let (database, own) := splitDatabase args
  c.validateArgs own
  c.validateOptions options
  n.createTerm c.operation (database ++ own) options

/-- Replicas are a number, or numbers by server tag; the latter need the tag of
the primary, and that tag needs replicas. -/
def validateReplicas (options : Options) : Except ArgumentError Unit :=
  let tagged := options.any fun option => option.1 == "primary_replica_tag"
  match options.lookup "replicas" with
  | some replicas =>
    if replicas.isObject && !tagged then .error (.replicasNeedTag c.name)
    else if replicas.isInteger || replicas.isObject || replicas.isDeferred then .ok ()
    else .error (.mustBe c.name (.option "replicas") "integer|object" replicas.kindName)
  | none => if tagged then .error (.tagNeedsReplicas c.name) else .ok ()

def constructTableCreate (args : List Value) (options : Options) : Except ArgumentError Term := do
  c.validateReplicas options
  c.constructScoped n args options

/-- The values in pairs; `none` if one is left over. -/
def pairUp? : List Value → Option (List (Value × Value))
  | [] => some []
  | [_] => none
  | key :: value :: rest => (pairUp? rest).map ((key, value) :: ·)

/-- Refuses the first key that is no string and cannot turn out to be one. -/
def verifyKeys (index : Nat) : List (Value × Value) → Except ArgumentError Unit
  | [] => .ok ()
  | (key, _) :: rest =>
    if key.isString || key.isDeferred then verifyKeys (index + 1) rest
    else .error (.mustBe c.name (.key (index + 1)) Check.string.describe key.kindName)

/-- With literal keys, the object that has them; if some key is only known
later, the operation on all keys and values. -/
def constructObject (args : List Value) (options : Options) : Except ArgumentError Term := do
  c.validateOptions options
  match pairUp? args with
  | none => .error (.unpaired c.name args.length)
  | some pairs =>
    c.verifyKeys 0 pairs
    if pairs.any fun pair => pair.1.isDeferred then n.createTerm c.operation args []
    else n.createTerm .makeObj [] (pairs.map fun pair => (pair.1.string?.getD "", pair.2))

/-- Refuses the first part of a time that is no number, and a time zone that
is no string. -/
def verifyTimeParts (index : Nat) : List Value → Except ArgumentError Unit
  | [] => .ok ()
  | [timezone] =>
    if Check.string.admits timezone then .ok ()
    else .error (.mustBe c.name .timezone Check.string.describe timezone.kindName)
  | part :: rest =>
    if Check.number.admits part then verifyTimeParts (index + 1) rest
    else .error (.mustBe c.name (.argument (index + 1)) Check.number.describe part.kindName)

/-- Four parts or seven, the last of them a time zone. -/
def constructTime (args : List Value) (options : Options) : Except ArgumentError Term := do
  if args.length ≠ 4 ∧ args.length ≠ 7 then .error (.timeParts c.name args.length)
  c.verifyTimeParts 0 args
  c.validateOptions options
  n.createTerm c.operation args options

/-- The function comes last here and first in the term; it takes exactly the
other arguments. -/
def constructCall (args : List Value) (options : Options) : Except ArgumentError Term := do
  c.validateArgs args
  c.validateOptions options
  match args.getLast? with
  | none => .error (.functionMissing c.name)
  | some function =>
    let others := args.dropLast
    match function.expectArity others.length with
    | .error cause => .error (.functionOf c.name cause)
    | .ok () => n.createTerm c.operation (function :: others) options

/-- Tests and results in turn and one result more: an odd number. -/
def constructBranch (args : List Value) (options : Options) : Except ArgumentError Term := do
  c.validateArgs args
  if args.length % 2 = 0 then .error (.evenCount c.name args.length)
  c.validateOptions options
  n.createTerm c.operation args options

/-! ## All of them -/

/-- The term of the command for the given arguments and options. -/
def construct (args : List Value) (options : Options) : Except ArgumentError Term :=
  match c.assembly with
  | .plain => c.constructPlain n args options
  | .scoped => c.constructScoped n args options
  | .tableCreate => c.constructTableCreate n args options
  | .object => c.constructObject n args options
  | .time => c.constructTime n args options
  | .call => c.constructCall n args options
  | .branch => c.constructBranch n args options

/-- The same with the default limit on nesting. -/
def call (args : List Value) (options : Options) : Except ArgumentError Term :=
  c.construct default args options

end Reql.Command
