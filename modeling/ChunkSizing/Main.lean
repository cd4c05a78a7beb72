import ChunkSizing.Program

/-!
# ChunkSizing.Main — the command line.

Hands the environment and the arguments to `Program.run` and prints what comes of it. This layer has
no sockets: no request gets through, and the service cannot be started from here.
-/

open ChunkSizing

/-- The part of the environment that settings come from. -/
def settingsEnvironment : IO Settings.Environment := do
  let names := [Settings.bindAddressVariable, Settings.logLevelVariable,
    Settings.advisorUrlVariable, Settings.timeoutVariable]
  names.filterMapM fun name => do
    return (← IO.getEnv name).map fun text => (name, text)

/-- Runs the program once. -/
def main (arguments : List String) : IO UInt32 := do
  let outcome := Program.run (← settingsEnvironment) arguments Transport.down
  IO.print outcome.stdout
  IO.eprint outcome.stderr
  match outcome with
  | .listening address =>
    IO.eprintln ("Error: bind " ++ address ++ ": no sockets")
    return 1
  | _ => return UInt32.ofNat outcome.exitCode
