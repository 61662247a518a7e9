import PaintedImages.Proofs.RowFilters

/-! Undoing prediction on a machine. Here sizes and samples are numbers of a fixed width, a byte is
read and written at its place in a row that is rebuilt where it stands, and whatever leaves its
range is a trap. This module has the machine, and what its single steps and its sizes come to. -/
namespace PaintedImages

namespace Guarded
open Prediction

inductive Trap where
  | place
  | emptyPieces
  | division
  | overflow
  deriving DecidableEq, Repr

inductive Stop where
  | fault (cause : DecodeFault)
  | trap (kind : Trap)

abbrev Run := Except Stop

def ranged (low high n : Int) : Run Int :=
  if low ≤ n ∧ n < high then .ok n else .error (.trap .overflow)

def size (n : Int) : Run Nat := do
  .ok (← ranged 0 (2 ^ 64 : Nat) n).toNat

def short (n : Int) : Run Int := ranged (-(2 ^ 15 : Nat)) (2 ^ 15 : Nat) n

def quotient (n divisor : Nat) : Run Nat :=
  if divisor = 0 then .error (.trap .division) else .ok (n / divisor)

def byteAt (bs : Bytes) (i : Nat) : Run UInt8 :=
  match bs[i]? with
  | some b => .ok b
  | none => .error (.trap .place)

def setByte (bs : Bytes) (i : Nat) (b : UInt8) : Run Bytes :=
  if i < bs.length then .ok (bs.set i b) else .error (.trap .place)

def bytesFrom (i : Nat) (bs : Bytes) : Run Bytes :=
  if i ≤ bs.length then .ok (bs.drop i) else .error (.trap .place)

def chunks (length : Nat) (bs : Bytes) : Run (List Bytes) :=
  if length = 0 then .error (.trap .emptyPieces) else .ok (pieces (length - 1) bs)

def resized (length : Nat) (bs : Bytes) : Bytes :=
  (bs ++ List.replicate (length - bs.length) 0).take length

/-! Sizes. -/

def product (a b : Nat) : Option Nat := if a * b < UInt64.size then some (a * b) else none

def pixelBits (p : DecodeParameters) : Run Nat :=
  match (product p.colors.toNat p.bits.toNat).filter (0 < ·) with
  | some bits => .ok bits
  | none => .error (.fault (.pixelSize p.colors.toNat p.bits.toNat))

def bytesFor (bits : Nat) : Run Nat := do
  let bytes ← quotient bits 8
  if 0 < bits % 8 then size (bytes + 1) else .ok bytes

def rowBytes (p : DecodeParameters) : Run Nat := do
  match product (← pixelBits p) p.columns.toNat with
  | some bits =>
    let row ← bytesFor bits
    if 0 < row then .ok row else .error (.fault (.rowSize p.columns.toNat))
  | none => .error (.fault (.rowSize p.columns.toNat))

def pixelBytes (p : DecodeParameters) : Run Nat := do
  bytesFor (← pixelBits p)

/-! Rows. -/

def average (left above : UInt8) : Run UInt8 := do
  let sum ← ranged 0 (2 ^ 16 : Nat) (left.toNat + above.toNat)
  .ok (UInt8.ofInt (sum / 2))

def distance (estimate : Int) (b : UInt8) : Run Nat := do
  let apart ← short (estimate - b.toNat)
  .ok (← short apart.natAbs).toNat

def paeth (left above corner : UInt8) : Run UInt8 := do
  let sum ← short (left.toNat + above.toNat)
  let estimate ← short (sum - corner.toNat)
  let toLeft ← distance estimate left
  let toAbove ← distance estimate above
  let toCorner ← distance estimate corner
  .ok (if toLeft ≤ toAbove ∧ toLeft ≤ toCorner then left
    else if toAbove ≤ toCorner then above
    else corner)

def before (pixel : Nat) (row : Bytes) (i : Nat) : Run UInt8 :=
  if pixel ≤ i then do byteAt row (← size (i - pixel)) else .ok 0

def amount (kind : RowFilter) (pixel : Nat) (above row : Bytes) (i : Nat) : Run UInt8 :=
  match kind with
  | .plain => .ok 0
  | .sub => do byteAt row (← size (i - pixel))
  | .up => byteAt above i
  | .average => do average (← before pixel row i) (← byteAt above i)
  | .paeth => do
    paeth (← before pixel row i) (← byteAt above i) (← before pixel above i)

def addAt (kind : RowFilter) (pixel : Nat) (above row : Bytes) (i : Nat) : Run Bytes := do
  setByte row i ((← byteAt row i) + (← amount kind pixel above row i))

def places (start stop : Nat) : List Nat := List.range' start (stop - start)

def sweep (kind : RowFilter) (pixel : Nat) (above : Bytes) (stop : Nat) (row : Bytes) : Run Bytes :=
  match kind with
  | .plain => .ok row
  | .sub => (places pixel stop).foldlM (addAt .sub pixel above) row
  | kind => (places 0 stop).foldlM (addAt kind pixel above) row

/-! Data. -/

def decodeTiff (p : DecodeParameters) (data : Bytes) : Run Bytes := do
  if p.bits ≠ 8 then throw (.fault (.tiffBits p.bits.toNat))
  let row ← rowBytes p
  let pixel ← pixelBytes p
  let rows ← (← chunks row data).mapM fun r => sweep .sub pixel [] r.length r
  .ok rows.flatten

structure Plan where
  row : Nat
  pixel : Nat
  stride : Nat
  reserved : Nat

def plan (p : DecodeParameters) (data : Bytes) : Run Plan := do
  let row ← rowBytes p
  let pixel ← pixelBytes p
  if data.length ≤ row then throw (.fault (.longRow row data.length))
  let stride ← size (row + 1)
  let reserved ← size ((← quotient data.length stride) * row)
  .ok { row, pixel, stride, reserved }

def decodeRows (row pixel : Nat) : (above output : Bytes) → List Bytes → Run Bytes
  | _, output, [] => .ok output
  | above, output, chunk :: rest => do
    let tag ← byteAt chunk 0
    let stored ← bytesFrom 1 chunk
    match RowFilter.ofTag tag with
    | none => .error (.fault (.rowTag tag))
    | some kind =>
      let bytes ← sweep kind pixel above row (resized row stored)
      decodeRows row pixel bytes (output ++ bytes) rest

def decodePng (p : DecodeParameters) (data : Bytes) : Run Bytes := do
  if data.isEmpty then return []
  let plan ← plan p data
  decodeRows plan.row plan.pixel (List.replicate plan.row 0) [] (← chunks plan.stride data)

def decode (p : DecodeParameters) (data : Bytes) : Run Bytes :=
  if p.predictor = 1 then .ok data
  else if p.predictor = 2 then decodeTiff p data
  else if 10 ≤ p.predictor ∧ p.predictor ≤ 15 then decodePng p data
  else .error (.fault (.predictor p.predictor))

/-! Nothing leaves its range. -/

/- A step that is known to succeed is passed by this lemma. Unfolding it instead would have the
bounds of the machine counted up one by one. -/
theorem afterOk {α β : Type} {x : Run α} {a : α} (ok : x = .ok a) (f : α → Run β) :
    (x >>= f) = f a := by
  rw [ok]
  rfl

theorem afterError {α β : Type} {x : Run α} {stop : Stop} (failed : x = .error stop)
    (f : α → Run β) : (x >>= f) = .error stop := by
  rw [failed]
  rfl

theorem rangedWithin {low high n : Int} (within : low ≤ n ∧ n < high) :
    ranged low high n = .ok n := if_pos within

theorem shortWithin {n : Int} (within : -(2 ^ 15 : Nat) ≤ n ∧ n < (2 ^ 15 : Nat)) :
    short n = .ok n :=
  rangedWithin within

theorem sizeWithin {n : Int} (within : 0 ≤ n ∧ n < (2 ^ 64 : Nat)) : size n = .ok n.toNat := by
  rw [size, afterOk (rangedWithin within)]

theorem byteAtInside {bs : Bytes} {i : Nat} (inside : i < bs.length) :
    byteAt bs i = .ok (bs.getD i 0) := by
  rw [byteAt, List.getElem?_eq_getElem inside, List.getD_eq_getElem _ _ inside]

theorem averageGuarded (left above : UInt8) :
    average left above = .ok (Prediction.average left above) := by
  have a := left.toNat_lt
  have b := above.toNat_lt
  rw [average, afterOk (rangedWithin (by omega)), averageExact]

theorem distanceGuarded {estimate : Int} (within : -256 < estimate ∧ estimate < 512)
    (b : UInt8) : distance estimate b = .ok (estimate - b.toNat).natAbs := by
  have byte := b.toNat_lt
  have apart : short (estimate - b.toNat) = .ok _ := shortWithin (by omega)
  have size : short (estimate - b.toNat).natAbs = .ok _ := shortWithin (by omega)
  rw [distance, afterOk apart, afterOk size, Int.toNat_natCast]

theorem paethGuarded (left above corner : UInt8) :
    paeth left above corner = .ok (Prediction.paeth left above corner) := by
  have a := left.toNat_lt
  have b := above.toNat_lt
  have c := corner.toNat_lt
  have sum : short (left.toNat + above.toNat) = .ok _ := shortWithin (by omega)
  have estimate : short (left.toNat + above.toNat - corner.toNat) = .ok _ :=
    shortWithin (by omega)
  have within : -256 < (left.toNat + above.toNat - corner.toNat : Int) ∧
    (left.toNat + above.toNat - corner.toNat : Int) < 512 := by omega
  rw [paeth, afterOk sum, afterOk estimate, afterOk (distanceGuarded within left),
    afterOk (distanceGuarded within above), afterOk (distanceGuarded within corner),
    Prediction.paeth]

theorem bytesForGuarded {bits : Nat} (fits : bits < 2 ^ 64) :
    bytesFor bits = .ok (DecodeParameters.bytesFor bits) := by
  have eighths : quotient bits 8 = .ok (bits / 8) := rfl
  rw [bytesFor, afterOk eighths, DecodeParameters.bytesFor]
  split
  · rw [sizeWithin (by omega)]
    congr 1
    omega
  · congr 1
    omega

section Sizes
variable (p : DecodeParameters)

theorem pixelBitsGuarded : pixelBits p = p.pixelBits.mapError .fault := by
  simp only [pixelBits, product, DecodeParameters.pixelBits]
  by_cases fits : p.colors.toNat * p.bits.toNat < UInt64.size
  · by_cases positive : 0 < p.colors.toNat * p.bits.toNat
    · simp only [fits, positive, if_true, Option.filter, decide_true, and_self]
      rfl
    · simp only [fits, positive, if_true, Option.filter, decide_false, false_and, if_false]
      rfl
  · simp only [fits, if_false, Option.filter, and_false]
    rfl

theorem pixelBitsFit {bits : Nat} (found : p.pixelBits = .ok bits) : 0 < bits ∧ bits < 2 ^ 64 := by
  simp only [DecodeParameters.pixelBits] at found
  split at found
  · cases found
    assumption
  · contradiction

theorem rowBytesGuarded : rowBytes p = p.rowBytes.mapError .fault := by
  have guarded := pixelBitsGuarded p
  rw [rowBytes, DecodeParameters.rowBytes]
  cases found : p.pixelBits with
  | error fault =>
    rw [found] at guarded
    rw [afterError guarded]
    rfl
  | ok pixel =>
    rw [found] at guarded
    rw [afterOk guarded]
    simp only [product, bind, Except.bind]
    by_cases fits : pixel * p.columns.toNat < UInt64.size
    · have row := bytesForGuarded fits
      simp only [fits, if_true, row, DecodeParameters.bytesFor, and_true]
      by_cases positive : 0 < pixel * p.columns.toNat
      · rw [if_pos (by omega), if_pos positive]
        rfl
      · rw [if_neg (by omega), if_neg positive]
        rfl
    · simp only [fits, if_false, and_false]
      rfl

theorem pixelBytesGuarded : pixelBytes p = p.pixelBytes.mapError .fault := by
  have guarded := pixelBitsGuarded p
  rw [pixelBytes, DecodeParameters.pixelBytes]
  cases found : p.pixelBits with
  | error fault =>
    rw [found] at guarded
    rw [afterError guarded]
    rfl
  | ok bits =>
    rw [found] at guarded
    rw [afterOk guarded, bytesForGuarded (pixelBitsFit p found).2]
    rfl

end Sizes

end Guarded
end PaintedImages
