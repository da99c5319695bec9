import Outline.CommandLine.Run

/-!
The command line as a program. Its disk lives as long as the run.
-/

/-- Runs the command line on an empty disk. -/
def main (args : List String) : IO UInt32 := do
  let (outcome, _) := Outline.CommandLine.run args { top := .directory false [], home := [] }
  (← IO.getStdout).putStr outcome.stdout
  (← IO.getStderr).putStr outcome.stderr
  return outcome.code.toUInt32
