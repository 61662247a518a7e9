import PaintedImages.Filter.Basic
import PaintedImages.Filter.Hexadecimal
import PaintedImages.Filter.Base85
import PaintedImages.Filter.RunLength
import PaintedImages.Filter.Lzw
import PaintedImages.Filter.Flate
import PaintedImages.Filter.Prediction

/-! Filter chains. The filters of a stream are undone in order, each with the parameters at its own
place, until the chain ends or an image codec is reached; the output of every stage may be
limited. -/
namespace PaintedImages

abbrev ParameterList := List (Option DecodeParameters)

namespace Filter

def unpack (filter : Filter) (p : Option DecodeParameters) (data : Bytes) :
    Traced (Except Fault Bytes) :=
  match filter with
  | flate => (Flate.decode data).map (·.mapError .decode)
  | lzw => .silent ((Lzw.decode (p.elim true (·.earlyChange)) data).mapError .decode)
  | hexadecimal => .silent ((Hexadecimal.decode data).mapError .decode)
  | base85 => .silent ((Base85.decode data).mapError .decode)
  | runLength => .silent ((RunLength.decode data).mapError .decode)
  | filter => .silent (.error (.filter filter.name))

def unpredict (filter : Filter) (p : Option DecodeParameters) (data : Bytes) :
    Except Fault Bytes :=
  match p with
  | some p =>
    if filter.isPredictable ∧ 1 < p.predictor then (Prediction.decode p data).mapError .decode
    else .ok data
  | none => .ok data

/-- Passes bytes on if they keep to the limit; a limit of zero is none. -/
def limited (filter : Filter) (limit : Nat) (data : Bytes) : Except Fault Bytes :=
  if 0 < limit ∧ limit < data.length then
    .error (.decode (.outputLimit filter.name data.length limit))
  else .ok data

def undo (filter : Filter) (p : Option DecodeParameters) (limit : Nat) (data : Bytes) :
    Traced (Except Fault Bytes) :=
  (filter.unpack p data).map fun unpacked =>
    unpacked.bind fun data => (filter.unpredict p data).bind (filter.limited limit)

def undoAll (limit : Nat) : List Filter → ParameterList → Bytes → Traced (Except Fault Bytes)
  | [], _, data => .silent (.ok data)
  | filter :: filters, ps, data =>
    if filter.isImageCodec then .silent (.ok data)
    else (filter.undo ps.head?.join limit data).andThen (undoAll limit filters ps.tail)

end Filter
end PaintedImages
