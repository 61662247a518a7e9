import PaintedImages.Filter.Chain

/-! External objects: what a page can paint by name. -/
namespace PaintedImages

structure Image where
  content : Bytes
  filters : List Filter
  parameters : ParameterList := []
  width : Option UInt32 := none
  height : Option UInt32 := none
  bits : Option UInt8 := none
  colorSpace : Option String := none
  deriving DecidableEq, Repr

namespace Image

def unfiltered (image : Image) (limit : Nat) : Traced (Except Fault Bytes) :=
  Filter.undoAll limit image.filters image.parameters image.content

def suffixes : List (List Filter × String) :=
  [([.dct], "jpg"), ([.jpx], "jpx"), ([.ccitt], "tiff"), ([.flate, .lzw, .runLength], "png"),
    ([.jbig2], "jb2")]

def suffix? (image : Image) : Option String :=
  if image.filters.isEmpty then some "png"
  else (suffixes.find? fun entry => image.filters.any entry.1.contains).map Prod.snd

end Image

inductive XObject where
  | image (image : Image)
  | form
  | other (kind : String)
  deriving DecidableEq, Repr

def XObject.kind : XObject → String
  | .image _ => "Image"
  | .form => "Form"
  | .other kind => kind

end PaintedImages
