import PaintedImages.Document.Opening
import PaintedImages.Extraction.Report

/-! Sources: where a document comes from, and extraction from there. Files are read through a
function that the caller provides. -/
namespace PaintedImages

inductive Source where
  | file (path : String)
  | memory (data : Bytes)
  deriving DecidableEq, Repr

namespace Source

abbrev Files := String → Except FileFault Bytes

/-- A path wins over bytes. -/
def ofParts (path : Option String) (data : Option Bytes) : Except Fault Source :=
  match path, data with
  | some path, _ => .ok (.file path)
  | none, some data => .ok (.memory data)
  | none, none => .error .noSource

def label : Source → String
  | file path => path
  | memory data => s!"<{data.length} bytes in memory>"

def read (files : Files) : Source → Except Fault Bytes
  | file path => (files path).mapError .file
  | memory data => .ok data

def document (files : Files) (source : Source) : Traced (Except Fault Document) :=
  match source.read files with
  | .ok data => Document.ofBytes data
  | .error fault => .silent (.error fault)

def extractingNote (source : Source) (policy : DecodePolicy) : Message :=
  ⟨.debug, s!"extracting images from {source.label} ({policy.name} policy)"⟩

/-- Extraction fails only where the document cannot be opened. -/
def extract (files : Files) (options : Options) (source : Source) :
    Traced (Except Fault Report) :=
  let result := (source.document files).andThen fun document =>
    (Report.extract document.source options).map .ok
  ⟨result.value, source.extractingNote options.policy :: result.log⟩

def records (files : Files) (options : Options) (source : Source) :
    Traced (Except Fault (List Record)) :=
  (source.extract files options).map fun result => result.map Report.records

end Source
end PaintedImages
