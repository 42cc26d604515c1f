/-
# `Reql.Registry` — which names stand for which commands

A registry has commands by name and aliases, other spellings that each
stand for a command.  It changes by writes.  A write answers something or is
refused, and either way there is a registry afterwards; `Outcome` has both.

A name is looked up as it is, first among the commands and then among the
aliases; a name with dashes is then looked up with underscores in their place.
-/
import Reql.Command.Catalogue
import Reql.Command.Construct

namespace Reql

/-- Commands and their other spellings, and how their terms are made. -/
structure Registry where
  commands : Fields Command
  /-- The name of a command for each alias. -/
  aliases : Fields String
  normalizer : Normalizer
  /-- Whether a name that is taken may be given to another command. -/
  allowRedefinition : Bool
  deriving DecidableEq, Repr

namespace Registry

/-- A registry without commands. -/
def empty (normalizer : Normalizer) (allowRedefinition : Bool) : Registry :=
  ⟨[], [], normalizer, allowRedefinition⟩

/-- A registry without commands, with the defaults. -/
def blank : Registry := empty default true

/-! ## Looking up -/

section

variable (r : Registry)

/-- The command of a name or an alias, spelled exactly so. -/
def lookup? (name : String) : Option Command :=
  match r.commands.get? name with
  | some c => some c
  | none => (r.aliases.get? name).bind r.commands.get?

/-- The other form that a name is looked up in: a name of more than one byte with
dashes has underscores in their place. -/
def foldDashes? (name : String) : Option String :=
  if '-' ∈ name.toList ∧ 1 < name.utf8ByteSize then some (Text.replaceChar '-' '_' name)
  else none

/-- The command that a name stands for. -/
def get? (name : String) : Option Command :=
  match r.lookup? name with
  | some c => some c
  | none => (foldDashes? name).bind r.lookup?

/-- The command that a name stands for, or a refusal. -/
def resolve (name : String) : Except RegistryError Command :=
  match r.get? name with
  | some c => .ok c
  | none => .error (.unknownCommand name)

def contains (name : String) : Bool := (r.get? name).isSome

/-- The names of the commands, in increasing order. -/
def names : List String := r.commands.names

/-- The aliases of a command, in increasing order. -/
def aliasesOf (name : String) : List String :=
  Fields.names (r.aliases.filter fun entry => entry.2 == name)

/-- How many commands there are. -/
def size : Nat := r.commands.length

def isEmpty : Bool := r.size == 0

/-- The term of a command, given by name. -/
def dispatch (name : String) (args : List Value) (options : Options) : Except Error Term := do
  let c ← (r.resolve name).mapError .registry
  (c.construct r.normalizer args options).mapError .argument

end

/-! ## Writing -/

/-- What a write comes to. -/
structure Outcome (α : Type) where
  registry : Registry
  answer : Except RegistryError α

section

variable (r : Registry)

/-- Gives a command its name.  The command that had the name before is the
answer; an alias of that spelling is dropped. -/
def register (c : Command) : Outcome (Option Command) :=
  if !r.allowRedefinition && (r.commands.has c.name || r.aliases.has c.name) then
    ⟨r, .error (.commandTaken c.name)⟩
  else
    ⟨{ r with commands := r.commands.insert c.name c, aliases := r.aliases.erase c.name },
      .ok (r.commands.get? c.name)⟩

/-- Makes a spelling stand for a command.  No command may have it for its name. -/
def addAlias (spelling target : String) : Outcome Unit :=
  if !r.commands.has target then ⟨r, .error (.noTarget spelling target)⟩
  else if r.commands.has spelling || (!r.allowRedefinition && r.aliases.has spelling) then
    ⟨r, .error (.nameTaken spelling)⟩
  else ⟨{ r with aliases := r.aliases.insert spelling target }, .ok ()⟩

/-- Removes an alias, or a command and all its aliases.  The command is the answer. -/
def unregister (name : String) : Outcome Command :=
  match r.aliases.get? name with
  | some target =>
    ⟨{ r with aliases := r.aliases.erase name },
      match r.commands.get? target with
      | some c => .ok c
      | none => .error (.notFound target)⟩
  | none =>
    match r.commands.get? name with
    | some c =>
      ⟨{ r with
          commands := r.commands.erase name
          aliases := r.aliases.filter fun entry => entry.2 ≠ name }, .ok c⟩
    | none => ⟨r, .error (.notFound name)⟩

/-- Registers commands in order, up to the first refusal. -/
def registerAll : List Command → Registry → Outcome Unit
  | [], r => ⟨r, .ok ()⟩
  | c :: rest, r =>
    match r.register c with
    | ⟨r, .ok _⟩ => registerAll rest r
    | ⟨r, .error cause⟩ => ⟨r, .error cause⟩

/-- Adds aliases in order, up to the first refusal. -/
def addAliases : List (String × String) → Registry → Outcome Unit
  | [], r => ⟨r, .ok ()⟩
  | (spelling, target) :: rest, r =>
    match r.addAlias spelling target with
    | ⟨r, .ok _⟩ => addAliases rest r
    | ⟨r, .error cause⟩ => ⟨r, .error cause⟩

/-- Puts the whole catalogue in, up to the first refusal. -/
def installCatalogue : Outcome Unit :=
  match registerAll Command.Catalogue.commands r with
  | ⟨r, .ok ()⟩ => addAliases Command.Catalogue.spellings r
  | ⟨r, .error cause⟩ => ⟨r, .error cause⟩

end

/-- The registry that holds the catalogue and has the defaults. -/
def standard : Registry := (installCatalogue blank).registry

end Registry

end Reql
