import PaintedImages.Command.Arguments
import PaintedImages.Command.Overview
import PaintedImages.Output.Images
import PaintedImages.Source
import PaintedImages.Version

/-! What commands do: the effects of each, given a way to read files. Nothing is printed or written
before the document has been read. -/
namespace PaintedImages

namespace Request

def selection (r : Request) : Except Fault PageSelection :=
  match r.pages with
  | some text => PageSelection.parse text
  | none => .ok .all

def options (r : Request) : Except Fault Options :=
  r.selection.map fun pages => { policy := r.policy, defaultFormat := r.defaultFormat, pages }

def report (files : Source.Files) (r : Request) : Except Fault Report := do
  let options ← r.options
  ((Source.file r.file).extract files options).value

end Request

namespace Command

/-- The last name of a path without its last extension; a period at the front begins none. -/
def stem (path : String) : String :=
  match (FileTree.names path).getLast? with
  | none => ""
  | some name =>
    match Parts.around '.' name.toList.reverse with
    | some (_, rest) => if rest.isEmpty then name else String.ofList rest.reverse
    | none => name

def directoryFor (r : Request) (directory : Option String) : String :=
  directory.getD (stem r.file ++ "_images")

def extractedLine (path : String) (record : Record) : String :=
  s!"Extracted {path} ({record.mediaType}, {record.payloadLength} bytes)\n"

def doneText (directory : String) (report : Report) : String :=
  s!"\nDone! {report.records.length} images extracted to {directory}\n" ++
    if 0 < report.statistics.duplicatesSkipped then
      s!"Note: {report.statistics.duplicatesSkipped.toNat} duplicate images skipped\n"
    else ""

def extractEffects (directory : String) (report : Report) : List Effect :=
  Images.effects directory report.records ++
    (Images.placed directory report.records).map (fun (path, record) =>
      .print (extractedLine path record)) ++
    [.print (doneText directory report)]

def jsonText (layout : Layout) (statistics : Bool) (report : Report) : String :=
  if statistics then report.render layout else Record.render layout report.records

def jsonEffects (output : Option String) (text : String) : List Effect :=
  match output with
  | some path => [.saveText path text, .print s!"Saved to {path}\n"]
  | none => [.print (text ++ "\n")]

/-- The overview is printed whole if its failures have a total, and up to there if not. -/
def overviewEffects (file version : String) (pageCount : Nat) (policy : DecodePolicy)
    (report : Report) : List Effect :=
  match report.statistics.failures with
  | some _ => [.print (Overview.text file version pageCount policy report)]
  | none => [.print (Overview.opening file version pageCount policy report.statistics), .abort]

/-- The file is opened before the options are looked at. -/
def infoEffects (files : Source.Files) (r : Request) : Except Fault (List Effect) := do
  let document ← ((Source.file r.file).document files).value
  let options ← r.options
  let report := (Report.extract document.source options).value
  .ok (overviewEffects r.file document.version document.pages.size options.policy report)

def versionText : String :=
  s!"pdfimg {release}\nPDF image extraction tool\n\nLicense: MIT\n"

def orFail {α : Type} (result : Except Fault α) (f : α → List Effect) : List Effect :=
  match result with
  | .ok a => f a
  | .error fault => [.fail fault]

def effects (files : Source.Files) : Command → List Effect
  | extract r directory => orFail (r.report files) (extractEffects (directoryFor r directory))
  | json r output layout statistics =>
    orFail (r.report files) fun report => jsonEffects output (jsonText layout statistics report)
  | info r => orFail (infoEffects files r) id
  | .version => [.print versionText]

def helpText : String := String.intercalate "\n" [
  "Extract embedded images from PDF files in paint order",
  "",
  "Usage: pdfimg <COMMAND>",
  "",
  "Commands:",
  "  extract  Write each unique image to a file",
  "  json     Print the records as JSON",
  "  info     Show document and image statistics",
  "  version  Show version information",
  "  help     Print this message or the help of the given subcommand(s)",
  "",
  "Options:",
  "  -h, --help     Print help",
  "  -V, --version  Print version",
  ""]

def usageText : String := String.intercalate "\n" [
  "Usage: pdfimg extract FILE [--output DIR] [OPTIONS]",
  "       pdfimg json FILE [--output FILE] [--compact] [--stats] [OPTIONS]",
  "       pdfimg info FILE [OPTIONS]",
  "       pdfimg version",
  "",
  "Options: [--pages PAGES] [--decode raw|unfiltered] [--default-format LABEL]",
  ""]

structure Ending where
  status : UInt32
  output : String := ""
  errors : String := ""
  deriving DecidableEq, Repr

namespace Ending

def ofStop : Stop → Ending
  | .usage => { status := 2, errors := usageText }
  | .help => { status := 0, output := helpText }
  | .version => { status := 0, output := s!"pdfimg {release}\n" }

def failed (output : String) (fault : Fault) : Ending :=
  { status := 1, output, errors := "Error: " ++ fault.message ++ "\n" }

/-- The place in the program, which an aborted process tells, is left out. -/
def aborted (output : String) : Ending :=
  { status := 101, output, errors := "attempt to add with overflow\n" }

def ofOutcome (outcome : Outcome) : Ending :=
  match outcome.fault with
  | some fault => failed outcome.printed fault
  | none =>
    if outcome.aborted then aborted outcome.printed
    else { status := 0, output := outcome.printed }

end Ending

def run (environment : String → Option String) (tree : FileTree) (arguments : List String) :
    Ending × FileTree :=
  match parse environment arguments with
  | .error stop => (.ofStop stop, tree)
  | .ok command =>
    let outcome := Effect.runAll tree (command.effects tree.read)
    (.ofOutcome outcome, outcome.tree)

end Command
end PaintedImages
