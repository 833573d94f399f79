import Exemplar.CommandLine.Run
import Exemplar.CommandLine.Snapshot

/-!
# The program

Reads its arguments, looks at the disk once, and prints what a run over that snapshot leaves behind.
-/

namespace Exemplar.CommandLine

/-- Whether text for the terminal is to be styled. -/
def showsStyles : IO Bool := do
  return (← IO.getEnv "NO_COLOR").isNone && (← (← IO.getStdout).isTty)

/-- Runs with the arguments of the program and answers its exit code. -/
def execute (texts : List String) : IO UInt32 := do
  match Arguments.ofList? texts with
  | none =>
    IO.eprintln "error: invalid arguments"
    return 2
  | some arguments =>
    let tree ← Snapshot.take (arguments.config?.toList ++ arguments.paths)
    let result := run tree (← showsStyles) arguments
    IO.print result.stdout
    IO.eprint result.stderr
    return UInt32.ofNat result.exitCode

end Exemplar.CommandLine

def main (args : List String) : IO UInt32 :=
  Exemplar.CommandLine.execute args
