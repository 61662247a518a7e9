import PaintedImages.Extraction.Selection

/-! What an extraction can be told: whether payloads are the stored bytes or the unfiltered ones,
the format label where the filters suggest none, the pages, and a limit on unfiltered sizes. -/
namespace PaintedImages

inductive DecodePolicy where
  | raw | unfiltered
  deriving DecidableEq, Repr

namespace DecodePolicy

def name : DecodePolicy → String
  | raw => "raw"
  | unfiltered => "unfiltered"

def parse (s : String) : Except Fault DecodePolicy :=
  let word := String.ofList (PageSelection.lower (Blank.trim s.toList))
  if word = "raw" then .ok raw
  else if word = "unfiltered" ∨ word = "decoded" then .ok unfiltered
  else .error (.other (.policy word))

end DecodePolicy

structure Options where
  policy : DecodePolicy := .raw
  defaultFormat : String := "jpg"
  pages : PageSelection := .all
  sizeLimit : Nat := 100 * 1024 * 1024
  deriving DecidableEq, Repr

end PaintedImages
