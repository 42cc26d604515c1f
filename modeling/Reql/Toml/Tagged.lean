/-
# `Reql.Toml.Tagged` — dates written as tables

A table whose first key is the date mark is not a table but the date or time
that the text under this key writes; what else stands in it does not matter.
Nothing but such a text may stand under a mark that comes first.
-/
import Reql.Toml.Reader

namespace Reql.Toml

/-- The key that makes a table a date. -/
def dateMark : String := "$__toml_private_datetime"

/-- The date that a text writes. -/
def Value.date? : Value → Option Value
  | .string text => (Datetime.ofText? text).map .datetime
  | _ => none

mutual

/-- The value with every marked table as the date it stands for. -/
def Value.untagged? : Value → Option Value
  | .table entries =>
    match entries.head? with
    | some (key, value) =>
      if key = dateMark then value.date? else (untaggedEntries? entries).map .table
    | none => some (.table [])
  | .array items => (untaggedItems? items).map .array
  | value => some value

def untaggedItems? : List Value → Option (List Value)
  | [] => some []
  | item :: rest => do return (← item.untagged?) :: (← untaggedItems? rest)

def untaggedEntries? : List (String × Value) → Option (List (String × Value))
  | [] => some []
  | (key, value) :: rest => do return (key, ← value.untagged?) :: (← untaggedEntries? rest)

end

/-- The entries of a document, its dates in either form. -/
def parseTagged? (document : String) : Option (List (String × Value)) := do
  match ← (Value.table (← parse? document)).untagged? with
  | .table entries => some entries
  | _ => none

end Reql.Toml
