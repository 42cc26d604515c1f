/-
# `Reql.Config.Layers` — settings from a file and the environment

Variables whose names begin with `REQL_` override what a file says.  As a
variable is only a text, it is first read as a truth value, an integer or a
number where it looks like one; then every setting takes what it is given in
any form that it can make sense of (`on` for true, `"8"` for 8).

Here the case of a key does not matter, and a key may be a path.  A path that goes
inside a setting makes a container of it, which no setting can use.
-/
import Reql.Config.Document
import Reql.Config.Path
import Reql.Toml.Tagged

namespace Reql.Config

/-- What a setting is given. -/
inductive Given where
  | text (value : String)
  | integer (value : Int)
  | number (value : Double)
  | bool (value : Bool)
  /-- An array, or a table with entries. -/
  | container
  /-- A table without entries, which leaves what was given before. -/
  | emptyTable
  deriving DecidableEq, Repr

/-- A text in lower case, ASCII letters only. -/
def lowered (text : String) : String := String.ofList (text.toList.map Char.toLower)

/-- The natural number that a text writes, perhaps with a plus. -/
def natOfText? (text : String) : Option Nat :=
  let digits := match text.toList with
    | '+' :: rest => rest
    | letters => letters
  if digits.isEmpty || !digits.all Char.isDigit then none
  else some (Double.Numeral.natOfDigits digits)

/-- The integer that a text writes, perhaps with a sign. -/
def intOfText? (text : String) : Option Int :=
  match text.toList with
  | '-' :: digits =>
    if digits.isEmpty || !digits.all Char.isDigit then none
    else some (-(Double.Numeral.natOfDigits digits : Int))
  | _ => (natOfText? text).map Int.ofNat

namespace Given

/-- What a variable gives. -/
def ofVariable (written : String) : Given :=
  if lowered written = "true" then .bool true
  else if lowered written = "false" then .bool false
  else
    match (intOfText? written).filter Toml.fitsInteger with
    | some i => .integer i
    | none =>
      match Double.ofText? written with
      | some x => .number x
      | none => .text written

/-- What an entry of a file gives. -/
def ofToml : Toml.Value → Given
  | .string value => .text value
  | .integer value => .integer value
  | .float value => .number value
  | .boolean value => .bool value
  | .datetime value => .text value
  | .array _ => .container
  | .table entries => if entries.isEmpty then .emptyTable else .container

/-- The nearest natural number of 64 bits, halves rounded up. -/
def clamp : Double → Nat
  | .nan => 0
  | .infinity negative => if negative then 0 else UInt64.size - 1
  | .finite negative rank =>
    if negative then 0
    else min ((2 * Double.units rank.val + Nat.pow 2 1074) / Nat.pow 2 1075) (UInt64.size - 1)

/-- As a natural number. -/
def toNat : Given → Except ConfigError Nat
  | .text value =>
    if lowered value ∈ ["true", "on", "yes"] then .ok 1
    else if lowered value ∈ ["false", "off", "no"] then .ok 0
    else ((natOfText? value).filter (· < UInt64.size)).elim (.error .unreadable) .ok
  | .integer value => if value < 0 then .error .unreadable else .ok value.toNat
  | .number value => .ok (clamp value)
  | .bool value => .ok value.toNat
  | .container | .emptyTable => .error .unreadable

/-- As a truth value. -/
def toBool : Given → Except ConfigError Bool
  | .text value =>
    if lowered value ∈ ["1", "true", "on", "yes"] then .ok true
    else if lowered value ∈ ["0", "false", "off", "no"] then .ok false
    else .error .unreadable
  | .integer value => .ok (value != 0)
  | .number value => .ok (!value.equals (Double.zero false))
  | .bool value => .ok value
  | .container | .emptyTable => .error .unreadable

/-- As a text. -/
def toText : Given → Except ConfigError String
  | .text value => .ok value
  | .integer value => .ok (Double.signText (value < 0) ++ Double.digitText value.natAbs)
  | .number value => .ok value.plain
  | .bool value => .ok (Json.boolText value)
  | .container | .emptyTable => .error .unreadable

end Given

/-- What a setting has been given when it is given something more. -/
def Given.after (given : Given) : Option Given → Given
  | some before => if given = .emptyTable then before else given
  | none => given

/-- What a key gives to the setting that it names. -/
def assignment (key : String) (given : Given) : String × Given :=
  let key := lowered key
  match Path.ofText? key with
  | some ⟨name, _ :: _⟩ => (name, .container)
  | _ => (key, given)

/-- How the names of variables begin, in lower case. -/
def variableMark : String := "reql_"

/-- What a variable gives, if it is one of ours. -/
def variableAssignment? (entry : String × String) : Option (String × Given) :=
  let name := (lowered entry.1).toList
  let mark := variableMark.toList
  if mark.isPrefixOf name then
    some (assignment (String.ofList (name.drop mark.length)) (.ofVariable entry.2))
  else none

/-- What a setting has been given after all assignments. -/
def given? (assignments : List (String × Given)) (name : String) : Option Given :=
  assignments.foldl
    (fun before entry => if entry.1 = name then some (entry.2.after before) else before) none

/-- What a setting is, read as it has to be. -/
def setting {α : Type} (assignments : List (String × Given)) (name : String) (default : α)
    (read : Given → Except ConfigError α) : Except ConfigError α :=
  match given? assignments name with
  | some given => read given
  | none => .ok default

/-- The entries of a file.  A byte order mark in front of its text does not count. -/
def fileEntries? (content : String) : Option (List (String × Toml.Value)) :=
  Toml.parseTagged? (match content.toList with
    | '\ufeff' :: rest => String.ofList rest
    | _ => content)

/-- The settings that a file, if there is one, and the environment ask for. -/
def load (file : Option String) (environment : List (String × String)) :
    Except ConfigError Config := do
  let entries ← match file with
    | none => pure []
    | some content => (fileEntries? content).elim (.error .unreadable) .ok
  let assignments := entries.map (fun entry => assignment entry.1 (.ofToml entry.2))
    ++ environment.filterMap variableAssignment?
  let depth ← setting assignments "nesting_depth" ({} : Config).nestingDepth Given.toNat
  let redefine ←
    setting assignments "allow_redefinition" ({} : Config).allowRedefinition Given.toBool
  let level ← setting assignments "log_level" ({} : Config).logLevel Given.toText
  let c : Config := ⟨depth, redefine, level⟩
  c.validate
  return c

end Reql.Config
