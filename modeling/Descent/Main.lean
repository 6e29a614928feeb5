import Descent.Demo

/-!
# The command line

Takes the path of a script, or no argument for the sample.
-/

namespace Descent.Demo

/-- Prints a report and gives the exit code. -/
def Report.finish (report : Report) : IO UInt32 := do
  (← IO.getStdout).putStr report.output
  (← IO.getStderr).putStr report.complaint
  return if report.success then 0 else 1

/-- What kept a file from being read. -/
def ReadError.ofFailure : IO.Error → ReadError
  | .inappropriateType .. => .directory
  | .permissionDenied .. => .denied
  | _ => .missing

end Descent.Demo

open Descent.Demo in
/-- The demonstration as a program. -/
def main (args : List String) : IO UInt32 := do
  match args with
  | [] => (runText sample).finish
  | path :: _ =>
    match ← (IO.FS.readBinFile path).toBaseIO with
    | .ok content => (runFile path content).finish
    | .error e => (unusable path (.ofFailure e)).finish
