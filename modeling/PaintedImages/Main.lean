import PaintedImages.Command.Action

/-! The command line: reads the environment and the file a command names, and carries out the
effects of the command. -/
namespace PaintedImages.Main

/-- The cause behind an error of the system; 21 and 36 are its codes for a directory in the place of
a file and for a name that is too long. -/
def cause (e : IO.Error) : FileFault :=
  match e with
  | .noFileOrDirectory .. => .notFound
  | .noSuchThing .. => .notFound
  | .alreadyExists .. => .alreadyExists
  | .inappropriateType _ 21 _ => .isDirectory
  | .inappropriateType .. => .notDirectory
  | .invalidArgument _ 36 _ => .nameTooLong
  | e => .stated (toString e)

def readFile (path : String) : IO (Except FileFault Bytes) := do
  try
    return .ok (← IO.FS.readBinFile path).toList
  catch e => return .error (cause e)

def perform (effect : Effect) : IO (Option Fault) := do
  try
    match effect with
    | .makeDirectories path => IO.FS.createDirAll path
    | .savePayload path payload => IO.FS.writeBinFile path ⟨payload.toArray⟩
    | .saveText path text => IO.FS.writeFile path text
    | .print text => IO.print text
    | .fail fault => return some fault
    | .abort => return none
    return none
  catch e => return some (effect.fault (cause e))

def performAll : List Effect → IO Command.Ending
  | [] => return { status := 0 }
  | .abort :: _ => return .aborted ""
  | effect :: rest => do
    match ← perform effect with
    | some fault => return .failed "" fault
    | none => performAll rest

def fileOf : Command → Option String
  | .extract r _ => some r.file
  | .json r _ _ _ => some r.file
  | .info r => some r.file
  | .version => none

def finish (ending : Command.Ending) : IO UInt32 := do
  IO.print ending.output
  IO.eprint ending.errors
  return ending.status

def execute (environment : String → Option String) (arguments : List String) : IO UInt32 := do
  match Command.parse environment arguments with
  | .error stop => finish (.ofStop stop)
  | .ok command =>
    let content ← match fileOf command with
      | some path => readFile path
      | none => pure (.ok [])
    finish (← performAll (command.effects fun _ => content))

end PaintedImages.Main

def main (arguments : List String) : IO UInt32 := do
  let policy ← IO.getEnv "PDFIMG_DECODE"
  let format ← IO.getEnv "PDFIMG_DEFAULT_FORMAT"
  PaintedImages.Main.execute
    (fun key => [("PDFIMG_DECODE", policy), ("PDFIMG_DEFAULT_FORMAT", format)].lookup key |>.join)
    arguments
