/-
# `Reql.Cli.Run` — what the command line tool answers

The tool reads its settings, makes the registry they ask for, and does one
thing with it.  Everything it needs from outside is in `Surroundings`, so what
it prints is a function of them.
-/
import Reql.Cli.Arguments
import Reql.Config.Layers
import Reql.Expr.Plan
import Reql.Term.Render
import Reql.Term.Wire

namespace Reql.Cli

/-- Why a file cannot be read. -/
inductive FileError where
  | missing
  | directory
  | denied
  | notText
  deriving DecidableEq, Repr

def FileError.message : FileError → String
  | .missing => "No such file or directory (os error 2)"
  | .directory => "Is a directory (os error 21)"
  | .denied => "Permission denied (os error 13)"
  | .notText => "stream did not contain valid UTF-8"

/-- What the tool finds around it. -/
structure Surroundings where
  environment : List (String × String)
  /-- Standard input. -/
  input : String
  /-- The content of a file. -/
  file : String → Except FileError String

/-- What the tool leaves behind. -/
structure Outcome where
  code : Nat
  output : String
  errors : String
  deriving DecidableEq, Repr

namespace Outcome

/-- Success. -/
def printed (output : String) : Outcome := ⟨0, output, ""⟩

/-- A failure in one line. -/
def failed (what : String) : Outcome := ⟨1, "", "Error: " ++ what ++ "\n"⟩

/-- A text with every line four blanks in. -/
def indented (text : String) : String :=
  "    " ++ String.ofList (text.toList.flatMap fun c => if c = '\n' then "\n    ".toList else [c])

/-- A failure with its cause. -/
def failedBy (what cause : String) : Outcome :=
  failed (what ++ "\n\nCaused by:\n" ++ indented cause)

/-- A command line that makes no sense. -/
def usage : Outcome := ⟨2, "", ""⟩

end Outcome

/-- The version that the tool reports. -/
def release : String := "0.1.0"

/-- Lines, each with its end. -/
def printLines (lines : List String) : String := String.join (lines.map (· ++ "\n"))

/-- The text of a query. -/
def readSource (s : Surroundings) : Source → Except (String × FileError) String
  | .argument text => .ok text
  | .file path => (s.file path).mapError fun cause => (path, cause)
  | .input => .ok s.input

/-- Builds a query and prints it. -/
def build (r : Registry) (s : Surroundings) (source : Source) (json : Bool) : Outcome :=
  match readSource s source with
  | .error (path, cause) => .failedBy ("Failed to read " ++ path) cause.message
  | .ok text =>
    match ((r.build text).run.run 1).1 with
    | .error cause => .failedBy "Failed to build term" cause.message
    | .ok t => .printed ((if json then t.toJson.pretty else t.tree 0) ++ "\n")

/-- One line about a command. -/
def commandLine (r : Registry) (aliases : Bool) (c : Command) : String :=
  let others := r.aliasesOf c.name
  if aliases && !others.isEmpty then c.signature ++ "  [" ++ Text.joined " " others ++ "]"
  else c.signature

/-- Everything about a command. -/
def describe (r : Registry) (name : String) : Outcome :=
  match r.get? name with
  | none => .failed (RegistryError.unknownCommand name).message
  | some c =>
    let others := r.aliasesOf c.name
    .printed (printLines
      ([c.signature,
        "  operation: " ++ c.operation.name ++ " (" ++ Double.digitText c.operation.code ++ ")"]
        ++ if others.isEmpty then [] else ["  aliases:   " ++ Text.joined " " others]))

/-- Prints the settings in force. -/
def showConfig (c : Config) : Outcome :=
  match c.toDocument with
  | .ok document => .printed document
  | .error _ => .failed "Configuration error: out-of-range value for u64 type"

/-- Does what is asked for. -/
def Action.run (s : Surroundings) (c : Config) (r : Registry) : Action → Outcome
  | .build source json => Cli.build r s source json
  | .commands aliases =>
    .printed (printLines ((r.names.filterMap r.get?).map (commandLine r aliases)))
  | .describe name => Cli.describe r name
  | .config => showConfig c
  | .version => .printed ("reql " ++ release ++ "\n")

/-- The settings in force. -/
def settings (s : Surroundings) (path : Option String) : Except ConfigError Config :=
  match path with
  | none => Config.load none s.environment
  | some path =>
    match s.file path with
    | .ok document => Config.load (some document) s.environment
    | .error _ => .error .unreadable

/-- A failure to get settings. -/
def unconfigured (cause : ConfigError) : Outcome :=
  match cause.message? with
  | some message => .failedBy "Failed to load configuration" ("Configuration error: " ++ message)
  | none => .failed "Failed to load configuration"

/-- Answers a request. -/
def Request.run (s : Surroundings) (q : Request) : Outcome :=
  match q.action with
  | .version => Action.run s {} Registry.blank .version
  | action =>
    match settings s q.config with
    | .error cause => unconfigured cause
    | .ok c =>
      match c.registry with
      | .error cause => unconfigured cause
      | .ok r => action.run s c r

/-- Answers a command line. -/
def run (s : Surroundings) (args : List String) : Outcome :=
  match parse? args s.environment with
  | some q => q.run s
  | none => .usage

end Reql.Cli
