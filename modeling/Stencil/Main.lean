import Stencil.Command

/-!
# The program

Reads the files that the command line names and leaves every decision to `Request.answer`.
-/

namespace Stencil

/-- The number by which the system says that a path goes on below a file. -/
def notDirectoryCode : UInt32 := 20

def failureOfError (e : IO.Error) : ReadFailure :=
  match e with
  | .noFileOrDirectory .. => .notFound
  | .inappropriateType _ code _ =>
    -- opening a file reports the number negated, reading from it does not
    if code = notDirectoryCode ∨ code = -notDirectoryCode then .notDirectory else .isDirectory
  | e => .other (toString e)

def readText (path : String) : IO (Except ReadFailure String) := do
  try
    return textOfBytes (← IO.FS.readBinFile path)
  catch e =>
    return .error (failureOfError e)

/-- The outcome of a run in the directory of the process. -/
def runHere (args : List String) : IO (Except Failure Outcome) := do
  match Request.ofArgs args with
  | .error failure => return .error failure
  | .ok request =>
    let settings ← readText settingsFile
    let template ← readText (request.file.getD "")
    return request.answer settings fun _ => template

end Stencil

/-- Runs the tool on the arguments of the process. -/
def main (args : List String) : IO UInt32 := do
  let outcome := Stencil.outcomeOf (← Stencil.runHere args)
  IO.print outcome.stdout
  IO.eprint outcome.stderr
  return outcome.code
