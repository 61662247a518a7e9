import PaintedImages.Base64
import PaintedImages.Document.Identity

/-! The causes for which an operation can fail, grouped by the part that finds them, and the one
wording of each. A cause reported by something outside the library carries that report's text. -/
namespace PaintedImages

inductive FileFault where
  | notFound | alreadyExists | notDirectory | isDirectory | nameTooLong | nulInName | endOfData
  | stated (text : String)
  deriving DecidableEq, Repr

def FileFault.message : FileFault → String
  | .notFound => "No such file or directory (os error 2)"
  | .alreadyExists => "File exists (os error 17)"
  | .notDirectory => "Not a directory (os error 20)"
  | .isDirectory => "Is a directory (os error 21)"
  | .nameTooLong => "File name too long (os error 36)"
  | .nulInName => "file name contained an unexpected NUL byte"
  | .endOfData => "failed to fill whole buffer"
  | .stated text => text

inductive DocumentFault where
  | missingObject (id : ObjectId)
  | referenceLimit
  | notDictionary (found : ObjectKind)
  | startOffset
  | previousOffset
  | hybridOffset
  | header
  | trailer
  | crossReferences
  | contentStream
  | contentsPart (found : ObjectKind)
  | contents (found : ObjectKind)
  | stated (text : String)
  deriving DecidableEq, Repr

def DocumentFault.message : DocumentFault → String
  | .missingObject id => s!"object ID {id.number.toNat} {id.generation.toNat} not found"
  | .referenceLimit => "dereferencing object reached limit, may indicate a reference cycle"
  | .notDictionary found =>
    s!"object has wrong type; expected type Dictionary but found type {found.label}"
  | .startOffset => "failed parsing cross reference table: invalid start value"
  | .previousOffset => "failed parsing cross reference table: invalid start value in Prev field"
  | .hybridOffset => "failed parsing cross reference table: invalid start value in XRefStm field"
  | .header => "couldn't parse input: invalid file header"
  | .trailer => "couldn't parse input: invalid file trailer"
  | .crossReferences => "couldn't parse input: invalid cross reference table"
  | .contentStream => "couldn't parse input: invalid content stream"
  | .contentsPart found => s!"content array holds a {found.label}"
  | .contents found => s!"/Contents is a {found.label}"
  | .stated text => text

inductive DeflateFault where
  | corrupt | incomplete
  deriving DecidableEq, Repr

def DeflateFault.message : DeflateFault → String
  | .corrupt => "corrupt deflate stream"
  | .incomplete => "incomplete deflate stream"

inductive DecodeFault where
  | hexDigit (byte : UInt8)
  | base85Zeros
  | base85Character (byte : UInt8)
  | base85Single
  | base85Overflow
  | literalRun (count : Nat)
  | repeatedByte
  | lzwCode
  | deflate (cause : DeflateFault)
  | predictor (number : Int)
  | tiffBits (bits : Nat)
  | pixelSize (colors bits : Nat)
  | rowSize (columns : Nat)
  | longRow (row size : Nat)
  | rowTag (tag : UInt8)
  | outputLimit (filter : String) (size limit : Nat)
  | filterEntry (found : ObjectKind)
  | filterValue (found : ObjectKind)
  | stated (text : String)
  deriving DecidableEq, Repr

def quoteByte (b : UInt8) : String := "'" ++ String.singleton (Char.ofNat b.toNat) ++ "'"

def DecodeFault.message : DecodeFault → String
  | .hexDigit byte => "ASCIIHexDecode: invalid hex digit " ++ quoteByte byte
  | .base85Zeros => "ASCII85Decode: 'z' inside a group"
  | .base85Character byte => "ASCII85Decode: invalid character " ++ quoteByte byte
  | .base85Single => "ASCII85Decode: dangling single character"
  | .base85Overflow => "ASCII85Decode: group overflow"
  | .literalRun count => s!"RunLengthDecode: literal run of {count} bytes overruns input"
  | .repeatedByte => "RunLengthDecode: missing repeated byte"
  | .lzwCode => "LZWDecode: InvalidCode"
  | .deflate cause => "FlateDecode: " ++ cause.message
  | .predictor number => s!"unsupported predictor {number}"
  | .tiffBits bits => s!"TIFF predictor with {bits} bits per component"
  | .pixelSize colors bits =>
    s!"predictor pixel size out of range ({colors} colors x {bits} bits)"
  | .rowSize columns => s!"predictor row size out of range ({columns} columns)"
  | .longRow row size => s!"predictor row of {row} bytes exceeds {size}-byte stream"
  | .rowTag tag => s!"invalid PNG predictor tag {tag.toNat}"
  | .outputLimit filter size limit =>
    s!"{filter} output of {size} bytes exceeds limit of {limit} bytes"
  | .filterEntry found => s!"filter entry is a {found.label}, expected a name"
  | .filterValue found => s!"/Filter is a {found.label}, expected a name or array"
  | .stated text => text

inductive OperandFault where
  | missing
  | kind (found : String)
  | stated (text : String)
  deriving DecidableEq, Repr

def OperandFault.message : OperandFault → String
  | .missing => "missing operand"
  | .kind found => s!"operand is a {found}, expected a name"
  | .stated text => text

inductive EncodingFault where
  | payload (cause : Base64.Fault)
  | document (cause : Base64.Fault)
  | notByte
  | notBytes
  | stated (text : String)
  deriving DecidableEq, Repr

def EncodingFault.message : EncodingFault → String
  | .payload cause => "invalid base64 payload: " ++ cause.message
  | .document cause => "pdfData is not base64: " ++ cause.message
  | .notByte => "pdfData holds a non-byte value"
  | .notBytes => "pdfData must be bytes"
  | .stated text => text

inductive PagesFault where
  | notPage (text : String)
  | reversed (text : String)
  | stated (text : String)
  deriving DecidableEq, Repr

def PagesFault.message : PagesFault → String
  | .notPage text => s!"'{text}' is not a page number"
  | .reversed text => text
  | .stated text => text

inductive OtherFault where
  | policy (text : String)
  | unwritten (path : String) (cause : FileFault)
  | unsaved (cause : FileFault)
  | stated (text : String)
  deriving DecidableEq, Repr

def OtherFault.message : OtherFault → String
  | .policy text => s!"unknown decode policy '{text}' (expected raw or unfiltered)"
  | .unwritten path cause => s!"failed to write {path}: {cause.message}"
  | .unsaved cause => cause.message
  | .stated text => text

inductive RenderFault where
  | unreadable
  | stated (text : String)
  deriving DecidableEq, Repr

def RenderFault.message : RenderFault → String
  | .unreadable => "JSON parse error"
  | .stated text => text

/-- Everything that can go wrong. Only the first six concern a document as a whole. -/
inductive Fault where
  | noSource
  | file (cause : FileFault)
  | unknownFormat
  | unsupportedVersion (version : String)
  | encrypted
  | document (cause : DocumentFault)
  | pageContent (page : UInt32) (reason : String)
  | operator (keyword : String) (cause : OperandFault)
  | unresolved (name : String)
  | decode (cause : DecodeFault)
  | filter (name : String)
  | encoding (cause : EncodingFault)
  | pages (cause : PagesFault)
  | render (cause : RenderFault)
  | other (cause : OtherFault)
  deriving DecidableEq, Repr

namespace Fault

def message : Fault → String
  | .noSource => "PDF source not available"
  | .file cause => "I/O error: " ++ cause.message
  | .unknownFormat => "Unknown file format: not a valid PDF"
  | .unsupportedVersion version => "Unsupported PDF version: " ++ version
  | .encrypted => "Document is encrypted"
  | .document cause => "Failed to open document: " ++ cause.message
  | .pageContent page reason => s!"Page {page.toNat}: unreadable content stream: {reason}"
  | .operator keyword cause => "Malformed `" ++ keyword ++ "` operator: " ++ cause.message
  | .unresolved name => "Unresolved XObject reference: /" ++ name
  | .decode cause => "Image decode error: " ++ cause.message
  | .filter name => "Unsupported stream filter: " ++ name
  | .encoding cause => "Encoding error: " ++ cause.message
  | .pages cause => "Invalid page range: " ++ cause.message
  | .render cause => "Rendering error: " ++ cause.message
  | .other cause => cause.message

def code : Fault → String
  | .noSource => "NoSource"
  | _ => "ExtractionError"

end Fault
end PaintedImages
