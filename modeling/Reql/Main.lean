/-
# `Reql.Main` — the command line tool

Collects what the tool needs from outside, runs it, and prints.
-/
import Reql.Cli.Run

namespace Reql

/-- The files that a request reads. -/
def Cli.Request.files (q : Cli.Request) : List String :=
  q.config.toList ++ match q.action with
    | .build (.file path) _ => [path]
    | _ => []

/-- Whether a request reads standard input. -/
def Cli.Request.readsInput (q : Cli.Request) : Bool :=
  match q.action with
  | .build .input _ => true
  | _ => false

/-- Reads a file as text. -/
def readText (path : String) : IO (Except Cli.FileError String) := do
  try
    let bytes ← IO.FS.readBinFile path
    match String.fromUTF8? bytes with
    | some text => return .ok text
    | none => return .error .notText
  catch cause =>
    match cause with
    | .permissionDenied .. => return .error .denied
    | .inappropriateType .. => return .error .directory
    | _ => return .error .missing

/-- The variables that the tool looks at. -/
def variableNames : List String :=
  ["REQL_CONFIG", "REQL_LOG_DIR", "REQL_NESTING_DEPTH", "REQL_ALLOW_REDEFINITION",
    "REQL_LOG_LEVEL"]

end Reql

open Reql in
def main (args : List String) : IO UInt32 := do
  let environment ← variableNames.filterMapM fun name => do
    return (← IO.getEnv name).map fun value => (name, value)
  let request := Cli.parse? args environment
  let files ← (request.toList.flatMap Cli.Request.files).mapM fun path => do
    return (path, ← readText path)
  let input ←
    if request.any Cli.Request.readsInput then (← IO.getStdin).readToEnd else pure ""
  let outcome := Cli.run
    { environment, input, file := fun path => (files.lookup path).getD (.error .missing) } args
  IO.print outcome.output
  IO.eprint outcome.errors
  return outcome.code.toUInt32
