import PaintedImages.Text.Utf8

/-! The filters a stream can name. Containers hold bytes for a further stage; the output of an image
codec already is an image file. -/
namespace PaintedImages

inductive Filter where
  | flate | lzw | hexadecimal | base85 | runLength
  | dct | jpx | jbig2 | ccitt
  | other (name : String)
  deriving DecidableEq, Repr

namespace Filter

def names : List (String × Filter) :=
  [("FlateDecode", flate), ("LZWDecode", lzw), ("ASCIIHexDecode", hexadecimal),
    ("ASCII85Decode", base85), ("RunLengthDecode", runLength), ("DCTDecode", dct),
    ("JPXDecode", jpx), ("JBIG2Decode", jbig2), ("CCITTFaxDecode", ccitt)]

def abbreviations : List (String × Filter) :=
  [("Fl", flate), ("LZW", lzw), ("AHx", hexadecimal), ("A85", base85), ("RL", runLength),
    ("DCT", dct), ("CCF", ccitt)]

def ofName (name : Bytes) : Filter :=
  match (names ++ abbreviations).find? fun entry => Bytes.ofText entry.1 == name with
  | some (_, filter) => filter
  | none => other (Utf8.lossy name)

def name : Filter → String
  | flate => "FlateDecode"
  | lzw => "LZWDecode"
  | hexadecimal => "ASCIIHexDecode"
  | base85 => "ASCII85Decode"
  | runLength => "RunLengthDecode"
  | dct => "DCTDecode"
  | jpx => "JPXDecode"
  | jbig2 => "JBIG2Decode"
  | ccitt => "CCITTFaxDecode"
  | other name => name

def isKnown : Filter → Bool
  | other _ => false
  | _ => true

def isImageCodec : Filter → Bool
  | dct | jpx | jbig2 | ccitt => true
  | _ => false

/-- Predictors apply to the output of Flate and LZW only. -/
def isPredictable : Filter → Bool
  | flate | lzw => true
  | _ => false

end Filter
end PaintedImages
