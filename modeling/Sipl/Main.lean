import Sipl.CommandLine.Command

namespace Sipl

/-- Why the system could not read a file. -/
def readFailureOf : IO.Error → ReadFailure
  | .noFileOrDirectory _ _ _ => .notFound
  | .permissionDenied _ 13 _ => .permissionDenied
  | .inappropriateType _ 20 _ => .notDirectory
  | .inappropriateType _ 21 _ => .isDirectory
  | .invalidArgument _ 36 _ => .nameTooLong
  | error => .other (toString error)

def readSource (path : String) : IO (Except ReadFailure String) := do
  try
    return decodeFile (← IO.FS.readBinFile path)
  catch error =>
    return .error (readFailureOf error)

/-- Read the file that the command needs, answer, and pass on the exit code. -/
def runCommandLine (arguments : List String) : IO UInt32 := do
  let command := Command.ofArguments arguments
  let terminal ← (← IO.getStderr).isTty
  let source ← match command.path? with
    | some path => readSource path
    | none => pure (.error .notFound)
  match command.respond ampleFuel terminal fun _ => source with
  | some response =>
    IO.print response.stdout
    IO.eprint response.stderr
    return response.exitCode.toUInt32
  | none => return 70

end Sipl

def main (arguments : List String) : IO UInt32 := Sipl.runCommandLine arguments
