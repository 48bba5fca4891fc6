import StateGuard.CommandLine.Run

/-!
# The command line

Reads the files that a command names, runs the command on them and prints the outcome.
-/

namespace StateGuard.CommandLine

/-- Read a file. -/
def readFile (path : String) : IO (Except ReadFailure String) := do
  try
    return .ok (← IO.FS.readFile path)
  catch
    | .noFileOrDirectory .. => return .error .notFound
    | .inappropriateType _ _ "not a directory" => return .error .notDirectory
    | .inappropriateType _ 21 _ => return .error .isDirectory
    | error => return .error (.other (toString error))

/-- Read all files of a list. Every other file is taken to be missing. -/
def readFiles (paths : List String) : IO FileReader := do
  let contents ← paths.mapM fun path => return (path, ← readFile path)
  return fun path => (contents.lookup path).getD (.error .notFound)

/-- Print an outcome. The exit code is returned. -/
def printOutcome (outcome : Outcome) : IO UInt32 := do
  IO.print outcome.output.text
  outcome.errors.forM IO.eprintln
  return outcome.exitCode.toUInt32

end StateGuard.CommandLine

open StateGuard in
/-- Run a command line. -/
def main (args : List String) : IO UInt32 := do
  match Command.parse args with
  | .error error =>
    IO.eprintln ("error: " ++ error.message)
    return Outcome.inputCode.toUInt32
  | .ok command =>
    let start ← IO.monoMsNow
    let read ← CommandLine.readFiles command.paths
    let answer ← IO.lazyPure fun _ => command.answer read
    let stop ← IO.monoMsNow
    CommandLine.printOutcome (answer.outcome (stop - start))
