import QueryPipeline.CommandLine.Program

/-!
# Entry point

Reads files, runs the program and prints what it leaves behind.
-/

namespace QueryPipeline

/-- A system error as a reason why a file cannot be read. -/
def FileFault.ofSystem : IO.Error → FileFault
  | .noFileOrDirectory _ _ _ => .missing
  | .permissionDenied _ _ _ => .denied
  | .inappropriateType _ 21 _ => .isDirectory
  | .inappropriateType _ _ _ => .notDirectory
  | .userError _ => .notText
  | error => .other (toString error)

def readFile (path : String) : IO (Except FileFault String) := do
  try
    return .ok (← IO.FS.readFile path)
  catch error =>
    return .error (.ofSystem error)

end QueryPipeline

/-- Run on the arguments of the process. -/
def main (args : List String) : IO UInt32 := do
  let outcome ← QueryPipeline.program QueryPipeline.readFile args
  IO.print outcome.output
  IO.eprint outcome.errors
  return outcome.exitCode
