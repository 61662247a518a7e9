import PaintedImages.Host.Call
import PaintedImages.Source

/-! Answering the calls of a host. One method is served: it extracts the images of a document that
the arguments name by a path or carry as bytes, in a list or in base 64. -/
namespace PaintedImages

namespace Call

def extractMethod : String := "extractImages"

def argument? (call : Call) (name : String) : Option Json := call.arguments.member? name

def bytesOfItems (items : List Json) : Except Fault Bytes :=
  items.mapM fun item =>
    match item.natural? with
    | some n => if n < 256 then .ok (UInt8.ofNat n) else .error (.encoding .notByte)
    | none => .error (.encoding .notByte)

def data (call : Call) : Except Fault (Option Bytes) :=
  match call.argument? "pdfData" with
  | none => .ok none
  | some .null => .ok none
  | some (.string text) =>
    ((Base64.decode (Utf8.encode text)).map some).mapError fun cause => .encoding (.document cause)
  | some (.array items) => (bytesOfItems items).map some
  | some _ => .error (.encoding .notBytes)

/-- Bytes that are malformed spoil a call even if it names a path. -/
def source (call : Call) : Except Fault Source := do
  let data ← call.data
  Source.ofParts ((call.argument? "filePath").bind Json.text?) data

end Call

namespace Reply

def ofFault : Fault → Reply
  | .noSource => failure Fault.noSource.code "PDF source not available." none
  | fault => failure fault.code "Failed to extract images." (some fault.message)

end Reply

namespace Call

def failureNote (fault : Fault) : Message :=
  ⟨.warning, extractMethod ++ " failed: " ++ fault.message⟩

def unknownNote (method : String) : Message := ⟨.debug, s!"method '{method}' not implemented"⟩

def records (files : Source.Files) (options : Options) (call : Call) :
    Traced (Except Fault (List Record)) :=
  match call.source with
  | .ok source => source.records files options
  | .error fault => .silent (.error fault)

def answer (files : Source.Files) (options : Options) (call : Call) : Traced Reply :=
  if call.method = extractMethod then
    (call.records files options).bind fun
      | .ok records => .silent (.success (.array (records.map Record.toJson)))
      | .error fault => ⟨.ofFault fault, [failureNote fault]⟩
  else ⟨.notImplemented, [unknownNote call.method]⟩

end Call
end PaintedImages
