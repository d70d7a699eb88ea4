import EntityMap.CommandLine

/-!
# The program

Reads the files that the arguments name, and prints the answer.
-/

namespace EntityMap.CommandLine

/-- The text of a file, if it can be read. -/
def readText? (path : String) : IO (Option String) := do
  try return some (← IO.FS.readFile path)
  catch _ => return none

/-- The settings in a file, or else those in the environment. -/
def readSettings (config : Option String) : IO (Except SettingsError Settings) := do
  match config with
  | some path =>
    match ← readText? path with
    | some text => return Settings.ofYaml text
    | none => return .error .malformed
  | none =>
    let names := ["RELPLAN_MAX_PARALLEL_COLLECTIONS", "RELPLAN_COMMAND_TIMEOUT_MS",
      "RELPLAN_IDENTITY_INSERT", "RELPLAN_CHANNEL_CAPACITY"]
    let found ← names.filterMapM fun name => do
      return (← IO.getEnv name).map fun text => (name, text)
    return Settings.ofEnvironment fun name => found.lookup name

/-- Answers arguments with the files that they name. -/
def answer (arguments : Arguments) : IO Outcome := do
  let settings ← readSettings arguments.config
  match ← readText? arguments.mapping, ← readText? arguments.request with
  | some mapping, some request => return arguments.run settings mapping request
  | _, _ => return ⟨1, ""⟩

end EntityMap.CommandLine

open EntityMap.CommandLine in
def main (arguments : List String) : IO UInt32 := do
  let outcome ← match Arguments.read? arguments with
    | some arguments => answer arguments
    | none => pure usageError
  IO.print outcome.output
  match outcome.exitCode with
  | 0 => pure ()
  | 1 => IO.eprintln "The request cannot be planned."
  | _ =>
    IO.eprintln ("Usage: --mapping FILE --request FILE --entity NAME [--config FILE] " ++
      "[--limit-style limit-offset|offset-fetch] [--json]")
  return outcome.exitCode.toUInt32
