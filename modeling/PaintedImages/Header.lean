import PaintedImages.Text.Utf8
import PaintedImages.Fault

/-! The first bytes of a PDF file: the version it declares, and whether a comment with high bytes
follows, which marks a file as binary. -/
namespace PaintedImages

structure Header where
  version : String
  binaryMarker : Bool
  deriving DecidableEq, Repr

namespace Header

def magic : Bytes := Bytes.ofText "%PDF-"

def isLineEnd (b : UInt8) : Bool := b == 13 || b == 10

def startsMarked : Bytes → Bool
  | 37 :: rest => (rest.take 4).any (128 ≤ ·)
  | _ => false

def detect (data : Bytes) : Except Fault Header :=
  match Bytes.strip magic data with
  | some (major :: point :: minor :: rest) =>
    let version := Utf8.lossy [major, point, minor]
    if Bytes.isDigit major && point == 46 && Bytes.isDigit minor then
      .ok ⟨version, startsMarked (rest.dropWhile isLineEnd)⟩
    else .error (.unsupportedVersion version)
  | _ => .error .unknownFormat

def isPresent (data : Bytes) : Bool := (detect data).toOption.isSome

def label (h : Header) : String := "PDF " ++ h.version

end Header
end PaintedImages
