import Transact.CommandLine

/-! # The program

Hands the arguments to `CommandLine.run` and prints what it answers. -/

open Transact

/-- Runs the scenario that the arguments ask for, and prints what came of it. -/
def main (arguments : List String) : IO UInt32 := do
  match CommandLine.run arguments with
  | .ok answer =>
    (← IO.getStdout).putStr answer.stdout
    (← IO.getStderr).putStr answer.stderr
    return answer.exit.toUInt32
  | .error (.raised failure) =>
    (← IO.getStderr).putStrLn failure.message
    return 1
  | .error .exhausted =>
    (← IO.getStderr).putStrLn "nesting exhausted"
    return 1
