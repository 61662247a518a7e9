import PaintedImages.Source

/-! Results for hosts that speak in texts which end at a NUL. Such a text cannot hold a NUL; one
that would is passed on empty. -/
namespace PaintedImages

inductive ForeignResult where
  | success (data : String)
  | failure (code message : String)
  deriving DecidableEq, Repr

namespace ForeignResult

def passed (text : String) : String := if text.toList.contains '\x00' then "" else text

def ofResult : Except Fault (List Record) → ForeignResult
  | .ok records => success (passed (Record.render .compact records))
  | .error fault => failure (passed fault.code) (passed fault.message)

def extract (files : Source.Files) (source : Source) : Traced ForeignResult :=
  (source.records files {}).map ofResult

def ofBytes (files : Source.Files) : Option Bytes → Traced ForeignResult
  | some data => extract files (.memory data)
  | none => .silent (ofResult (.error .noSource))

/-- Extraction from a file; a path is bytes up to the first NUL, and has to be UTF-8. -/
def ofPath (files : Source.Files) : Option Bytes → Traced ForeignResult
  | some path =>
    match Utf8.decode (path.takeWhile (· ≠ 0)) with
    | some path => extract files (.file path)
    | none => .silent (failure "ExtractionError" "Invalid UTF-8 path")
  | none => .silent (ofResult (.error .noSource))

end ForeignResult
end PaintedImages
