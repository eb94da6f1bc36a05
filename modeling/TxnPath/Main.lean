import TxnPath.CommandLine.Run

/-!
# The tool

The command line on the files and the environment of the process.
-/

set_option autoImplicit false

namespace TxnPath

/-- Why the system refuses access to a file. -/
def accessReason : IO.Error → String
  | .noFileOrDirectory .. => "No such file or directory (os error 2)"
  | .permissionDenied .. => "Permission denied (os error 13)"
  | e => toString e

/-- The outcome of an access to a file. -/
def attempt {α : Type} (access : IO α) : IO (Except String α) := do
  try
    pure (.ok (← access))
  catch e =>
    pure (.error (accessReason e))

/-- The surroundings of the process. -/
def surroundings : IO (CommandLine.Surroundings IO) := do
  let settings ← Config.variableNames.mapM fun name => do pure (name, ← IO.getEnv name)
  pure
    { readFile := fun path => attempt (IO.FS.readFile path)
      writeFile := fun path text => attempt (IO.FS.writeFile path text)
      setting? := fun name => (settings.lookup name).join }

end TxnPath

/-- Runs the command line. -/
def main (args : List String) : IO UInt32 := do
  let outcome ← TxnPath.CommandLine.run (← TxnPath.surroundings) args
  IO.print outcome.transcript.output
  IO.eprint outcome.transcript.diagnostics
  pure (UInt32.ofNat outcome.code)
