/-
# `Reql.Config.Basic` — what can be configured

Three settings, each with a default, and the registry that they ask for.
-/
import Reql.Registry

namespace Reql

/-- The settings. -/
structure Config where
  /-- How deep raw arrays and objects may nest. -/
  nestingDepth : Nat := Normalizer.defaultDepth
  /-- Whether a name that is taken may be given to another command. -/
  allowRedefinition : Bool := true
  /-- How much the command line tool logs. -/
  logLevel : String := "info"
  deriving DecidableEq, Repr

namespace Config

instance : Inhabited Config := ⟨{}⟩

/-- Refuses settings under which no container could be built. -/
def validate (c : Config) : Except ConfigError Unit :=
  if c.nestingDepth = 0 then .error .zeroDepth else .ok ()

/-- The registry that holds the catalogue under the settings.  It is empty before, so nothing of the
catalogue can be refused. -/
def registry (c : Config) : Except ConfigError Registry := do
  c.validate
  return (Registry.empty ⟨c.nestingDepth⟩ c.allowRedefinition).installCatalogue.registry

end Config

end Reql
