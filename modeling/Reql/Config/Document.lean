/-
# `Reql.Config.Document` — settings as a TOML document

A document says what each setting is, in the type the setting has; a
setting that it leaves out has its default, and other keys do not matter.
-/
import Reql.Config.Basic
import Reql.Toml.Quoted
import Reql.Toml.Reader

namespace Reql.Config

/-- A setting that is a natural number. -/
def natSetting (default : Nat) : Option Toml.Value → Except ConfigError Nat
  | none => .ok default
  | some (.integer value) => if value < 0 then .error .unreadable else .ok value.toNat
  | some _ => .error .unreadable

/-- A setting that is a truth value. -/
def boolSetting (default : Bool) : Option Toml.Value → Except ConfigError Bool
  | none => .ok default
  | some (.boolean value) => .ok value
  | some _ => .error .unreadable

/-- A setting that is a text. -/
def textSetting (default : String) : Option Toml.Value → Except ConfigError String
  | none => .ok default
  | some (.string text) => .ok text
  | some _ => .error .unreadable

/-- The settings of a document. -/
def ofDocument (document : String) : Except ConfigError Config := do
  let entries ← (Toml.parse? document).elim (.error .unreadable) .ok
  let depth ← natSetting ({} : Config).nestingDepth (entries.lookup "nesting_depth")
  let redefine ← boolSetting ({} : Config).allowRedefinition (entries.lookup "allow_redefinition")
  let level ← textSetting ({} : Config).logLevel (entries.lookup "log_level")
  let c : Config := ⟨depth, redefine, level⟩
  c.validate
  return c

/-- The settings as a document.  Its integers have 64 bits with a sign. -/
def toDocument (c : Config) : Except ConfigError String :=
  if !Toml.fitsInteger c.nestingDepth then .error .outOfRange
  else .ok
    ("nesting_depth = " ++ Double.digitText c.nestingDepth ++ "\n"
      ++ "allow_redefinition = " ++ Json.boolText c.allowRedefinition ++ "\n"
      ++ "log_level = " ++ Toml.quoted c.logLevel ++ "\n")

end Reql.Config
