import Wiretap.Command.Run

/-!
# The program

Reads the arguments and the environment and prints what a run prints. The
certificate directory begins empty.
-/

namespace Wiretap

/-- The variables that a configuration looks at. -/
def variableNames : List String :=
  [Config.hostVar, Config.portVar, Config.interceptVar, Config.certDirVar, Config.logDirVar,
    Config.idleVar, Config.dumpVar] ++ Config.proxyVars

def surroundings : IO Command.Surroundings := do
  let values ← variableNames.mapM fun name => return (name, ← IO.getEnv name)
  return {
    lookup := fun name => (values.lookup name).join
    vault := .empty
    listen := fun _ => .ok () }

end Wiretap

open Wiretap

def main (args : List String) : IO UInt32 := do
  let (ending, _) := Command.run (← surroundings) args
  IO.print ending.output
  match ending.failure, ending with
  | some text, _ => IO.eprintln text
  | none, .misuse => IO.eprintln Command.usage
  | none, _ => pure ()
  return ending.code.toUInt32
