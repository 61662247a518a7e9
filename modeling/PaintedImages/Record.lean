import PaintedImages.Fault
import PaintedImages.Text.Utf8
import PaintedImages.Text.Numeral
import PaintedImages.Json.Reader

/-! Records: an image as two texts, a format label and the payload in base 64. -/
namespace PaintedImages

structure Record where
  format : String
  data : String
  deriving DecidableEq, Repr

namespace Record

def encode (format : String) (payload : Bytes) : Record :=
  ⟨format, Bytes.toText (Base64.encode payload)⟩

def payload (r : Record) : Except Fault Bytes :=
  (Base64.decode (Utf8.encode r.data)).mapError fun cause => .encoding (.payload cause)

/-- The length of the payload, from the length of its text and the padding at its end alone. -/
def payloadLength (r : Record) : Nat :=
  let text := Utf8.encode r.data
  text.length / 4 * 3 - (text.reverse.takeWhile (· == Base64.pad)).length

def extension (r : Record) : String := if r.format.isEmpty then "bin" else r.format

def mediaTypes : List (List String × String) :=
  [(["jpg", "jpeg"], "image/jpeg"), (["png"], "image/png"), (["jpx", "jp2"], "image/jp2"),
    (["tiff", "tif"], "image/tiff"), (["jb2", "jbig2"], "image/x-jbig2")]

def mediaType (r : Record) : String :=
  match mediaTypes.find? fun entry => entry.1.contains r.format with
  | some (_, mediaType) => mediaType
  | none => "application/octet-stream"

def fileName (r : Record) (index : Nat) : String :=
  "image-" ++ Numeral.padded 3 index ++ "." ++ r.extension

def toJson (r : Record) : Json := .object [("format", .string r.format), ("data", .string r.data)]

abbrev Draft := Option String × Option String

def draftField (name : String) : Option (Draft → Json.Reader Draft) :=
  if name = "format" then
    some fun d t => (Json.once Json.text d.1 t).map fun r => ((r.1, d.2), r.2)
  else if name = "data" then
    some fun d t => (Json.once Json.text d.2 t).map fun r => ((d.1, r.1), r.2)
  else none

def read : Json.Reader Record := fun t => do
  match Json.skipSpace t with
  | '[' :: rest =>
    let (format, t) ← Json.text rest
    let t ← Json.expect ',' t
    let (data, t) ← Json.text t
    let t ← Json.expect ']' t
    some (⟨format, data⟩, t)
  | _ =>
    let ((format, data), t) ← Json.fieldsOf draftField (none, none) t
    some (⟨← format, ← data⟩, t)

def readList : Json.Reader (List Record) := Json.list read

def render (layout : Layout) (records : List Record) : String :=
  Json.render layout (.array (records.map toJson))

def parse (text : String) : Except Fault (List Record) :=
  (Json.readAll readList text).elim (.error (.render .unreadable)) .ok

end Record
end PaintedImages
