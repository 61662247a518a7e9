import PaintedImages.Fault

/-! Prediction. A row of samples is stored as the differences of its bytes from a guess made from
the bytes to the left, above, and above left; undoing it adds the guess back. Each byte's left
neighbour is the byte at the same place of the pixel before it, zero in the first pixel. -/
namespace PaintedImages

/-- The decoding parameters of one filter. The sizes are those of a 64-bit machine. -/
structure DecodeParameters where
  predictor : Int := 1
  colors : UInt64 := 1
  bits : UInt64 := 8
  columns : UInt64 := 1
  earlyChange : Bool := true
  deriving DecidableEq, Repr

namespace DecodeParameters

def pixelBits (p : DecodeParameters) : Except DecodeFault Nat :=
  let bits := p.colors.toNat * p.bits.toNat
  if 0 < bits ∧ bits < UInt64.size then .ok bits
  else .error (.pixelSize p.colors.toNat p.bits.toNat)

def bytesFor (bits : Nat) : Nat := (bits + 7) / 8

def rowBytes (p : DecodeParameters) : Except DecodeFault Nat := do
  let bits := (← p.pixelBits) * p.columns.toNat
  if 0 < bits ∧ bits < UInt64.size then .ok (bytesFor bits)
  else .error (.rowSize p.columns.toNat)

def pixelBytes (p : DecodeParameters) : Except DecodeFault Nat := p.pixelBits.map bytesFor

end DecodeParameters

namespace Prediction

abbrev Guess := UInt8 → UInt8 → UInt8 → UInt8

def average (left above : UInt8) : UInt8 := UInt8.ofNat ((left.toNat + above.toNat) / 2)

/-- Of the three neighbours, the nearest to left plus above minus above left; the earlier wins a
tie. -/
def paeth (left above corner : UInt8) : UInt8 :=
  let estimate : Int := left.toNat + above.toNat - corner.toNat
  let distance (b : UInt8) : Nat := (estimate - b.toNat).natAbs
  if distance left ≤ distance above ∧ distance left ≤ distance corner then left
  else if distance above ≤ distance corner then above
  else corner

inductive RowFilter where
  | plain | sub | up | average | paeth
  deriving DecidableEq, Repr

namespace RowFilter

def ofTag (tag : UInt8) : Option RowFilter :=
  if tag = 0 then some plain
  else if tag = 1 then some sub
  else if tag = 2 then some up
  else if tag = 3 then some average
  else if tag = 4 then some paeth
  else none

def guess : RowFilter → Guess
  | plain => fun _ _ _ => 0
  | sub => fun left _ _ => left
  | up => fun _ above _ => above
  | average => fun left above _ => Prediction.average left above
  | paeth => Prediction.paeth

end RowFilter

/-- Rebuilds a row. `lefts` holds the last pixel rebuilt, `above` the row above from here on and
`corners` the same row one pixel earlier. -/
def rebuild (g : Guess) : (lefts above corners : Bytes) → Bytes → Bytes
  | left :: lefts, a :: above, corner :: corners, d :: differences =>
    let b := d + g left a corner
    b :: rebuild g (lefts ++ [b]) above corners differences
  | _, _, _, _ => []

def rebuildRow (g : Guess) (pixel : Nat) (above differences : Bytes) : Bytes :=
  rebuild g (List.replicate pixel 0) above (List.replicate pixel 0 ++ above) differences

def pieces (size : Nat) (bs : Bytes) : List Bytes :=
  match bs with
  | [] => []
  | b :: rest => (b :: rest.take size) :: pieces size (rest.drop size)
termination_by bs.length
decreasing_by
  simp only [List.length_drop, List.length_cons]
  omega

/-- Every row is guessed from itself alone, with one guess for all rows. In a row shorter than a
pixel no byte has a left neighbour. -/
def decodeTiff (p : DecodeParameters) (data : Bytes) : Except DecodeFault Bytes := do
  if p.bits ≠ 8 then throw (.tiffBits p.bits.toNat)
  let row ← p.rowBytes
  let pixel ← p.pixelBytes
  .ok ((pieces (row - 1) data).flatMap fun r =>
    rebuildRow RowFilter.sub.guess (min pixel r.length) (List.replicate r.length 0) r)

def decodeRows (row pixel : Nat) (above : Bytes) : List Bytes → Except DecodeFault Bytes
  | [] => .ok []
  | [] :: rest => decodeRows row pixel above rest
  | (tag :: differences) :: rest =>
    match RowFilter.ofTag tag with
    | none => .error (.rowTag tag)
    | some kind => do
      let bytes := rebuildRow kind.guess pixel above
        (differences ++ List.replicate (row - differences.length) 0)
      let more ← decodeRows row pixel bytes rest
      .ok (bytes ++ more)

/-- Every row begins with the tag of its guess. Rows longer than the data are refused, so that the
output stays in proportion to it. -/
def decodePng (p : DecodeParameters) (data : Bytes) : Except DecodeFault Bytes := do
  if data.isEmpty then return []
  let row ← p.rowBytes
  let pixel ← p.pixelBytes
  if data.length ≤ row then throw (.longRow row data.length)
  decodeRows row pixel (List.replicate row 0) (pieces row data)

def decode (p : DecodeParameters) (data : Bytes) : Except DecodeFault Bytes :=
  if p.predictor = 1 then .ok data
  else if p.predictor = 2 then decodeTiff p data
  else if 10 ≤ p.predictor ∧ p.predictor ≤ 15 then decodePng p data
  else .error (.predictor p.predictor)

end Prediction
end PaintedImages
