import TreeQuery.Command.Run

/-! The program: reads the words of its command line and the file they name, prints the report
and ends with its exit code. A line that cannot be understood ends with code 2. -/
open TreeQuery TreeQuery.Command

/-- The fault that an error of the system stands for. Some of its calls give the code with a minus
sign. -/
def readFault : IO.Error → ReadFault
  | .noFileOrDirectory _ code words | .interrupted _ code words | .alreadyExists _ code words
  | .invalidArgument _ code words | .permissionDenied _ code words
  | .resourceExhausted _ code words | .inappropriateType _ code words
  | .noSuchThing _ code words | .otherError code words | .resourceBusy code words
  | .resourceVanished code words | .unsupportedOperation code words | .hardwareFault code words
  | .unsatisfiedConstraints code words | .illegalOperation code words | .protocolError code words
  | .timeExpired code words => .ofCode code.toInt32.toInt.natAbs words
  | error => .system (toString error)

def readSystemFile (path : String) : IO (Except ReadFault String) := do
  try
    match String.fromUTF8? (← IO.FS.readBinFile path) with
    | some text => return .ok text
    | none => return .error .notUtf8
  catch error => return .error (readFault error)

/-- The file that a command line names, read beforehand. -/
def fileReader (words : List String) : IO FileReader := do
  match Request.ofWords words with
  | .ok (.query arguments) =>
    match arguments.file with
    | some path =>
      let answer ← readSystemFile path
      return fun _ => answer
    | none => return fun _ => .error .notFound
  | _ => return fun _ => .error .notFound

/-- The last line of every message about a line that cannot be understood. What is wrong with the
line stands above it and is not written here. -/
def usageHint : String := "For more information, try '--help'.\n"

def main (words : List String) : IO UInt32 := do
  match run (← fileReader words) words with
  | .error _ =>
    IO.eprint usageHint
    return 2
  | .ok report =>
    IO.print report.stdout
    IO.eprint report.stderr
    return report.exit.toUInt32
