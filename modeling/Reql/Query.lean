/-
# `Reql.Query` — the most common queries by name

One function for each command in frequent use.  All of them go through the
command of that name in the catalogue and apply exactly its checks.
-/
import Reql.Registry

namespace Reql.Query

/-- A command of the catalogue. -/
def invoke (name : String) (args : List Value) (options : Options) : Except Error Term :=
  match Command.Catalogue.find? name with
  | some c => (c.call args options).mapError .argument
  | none => .error (.registry (.unknownCommand name))

/-- Any value as a term. -/
def expr (value : Value) : Except Error Term :=
  ((default : Normalizer).normalize value).mapError .argument

/-- Any command, under any of its spellings. -/
def call (name : String) (args : List Value) (options : Options) : Except Error Term :=
  Registry.standard.dispatch name args options

/-- The option that names an index. -/
def indexOption (index : Option String) : Options :=
  index.toList.map fun name => ("index", .string name)

def db (name : String) : Except Error Term := invoke "db" [.string name] []

def table (name : String) : Except Error Term := invoke "table" [.string name] []

/-- A table of a given database. -/
def tableOf (database : Term) (name : String) : Except Error Term :=
  invoke "table" [.term database, .string name] []

def tableCreate (name : String) (options : Options) : Except Error Term :=
  invoke "table_create" [.string name] options

def get (table : Term) (key : Value) : Except Error Term := invoke "get" [.term table, key] []

def getAll (table : Term) (keys : List Value) (index : Option String) : Except Error Term :=
  invoke "get_all" (.term table :: keys) (indexOption index)

def between (selection : Term) (lower upper : Value) (index : Option String) : Except Error Term :=
  invoke "between" [.term selection, lower, upper] (indexOption index)

def filter (sequence : Term) (predicate : Value) : Except Error Term :=
  invoke "filter" [.term sequence, predicate] []

def insert (table : Term) (documents : Value) (options : Options) : Except Error Term :=
  invoke "insert" [.term table, documents] options

def update (selection : Term) (changes : Value) (options : Options) : Except Error Term :=
  invoke "update" [.term selection, changes] options

def delete (selection : Term) (options : Options) : Except Error Term :=
  invoke "delete" [.term selection] options

def map (sequence function : Term) : Except Error Term :=
  invoke "map" [.term sequence, .term function] []

def reduce (sequence function : Term) : Except Error Term :=
  invoke "reduce" [.term sequence, .term function] []

def count (sequence : Term) : Except Error Term := invoke "count" [.term sequence] []

/-- An object from keys and values. -/
def object (pairs : List (Value × Value)) : Except Error Term :=
  invoke "object" (pairs.flatMap fun pair => [pair.1, pair.2]) []

def now : Except Error Term := invoke "now" [] []

/-- A day. -/
def date (year : Int) (month day : Nat) (timezone : String) : Except Error Term :=
  invoke "time" [.number (.ofInt year), .number (.ofNat month), .number (.ofNat day),
    .string timezone] []

/-- A day and a time of day; the seconds may have a fraction. -/
def time (year : Int) (month day hour minute : Nat) (second : Double) (timezone : String) :
    Except Error Term :=
  invoke "time" [.number (.ofInt year), .number (.ofNat month), .number (.ofNat day),
    .number (.ofNat hour), .number (.ofNat minute), .number second, .string timezone] []

/-- A function called with arguments. -/
def callWith (args : List Value) (function : Term) : Except Error Term :=
  invoke "do" (args ++ [.term function]) []

end Reql.Query
