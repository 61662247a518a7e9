import Mathlib.Algebra.Group.Nat.Defs
import PaintedImages.Proofs.RowPieces

/-! Rows stored as differences. Behind the first pixel of a row every byte is stored as its
difference from the byte one pixel to the left. Undoing this gives the bytes back, whatever their
number, and what a row decodes to depends on that row alone. Rows with a tag of their own are left
to the module on row filters. -/
namespace PaintedImages.Prediction

def differences (pixel row : Nat) (data : Bytes) : Bytes :=
  data.mapIdx fun i b => if i % row < pixel then b else b - data.getD (i - pixel) 0

def rowAt (row k : Nat) (data : Bytes) : Bytes := (data.drop (k * row)).take row

def summedRow (pixel : Nat) (row : Bytes) : Bytes :=
  rebuildRow RowFilter.sub.guess (min pixel row.length) (List.replicate row.length 0) row

theorem differencesAppend {pixel row : Nat} {front : Bytes} (within : pixel ≤ row)
    (whole : front.length = row) (rest : Bytes) :
    differences pixel row (front ++ rest) =
      differences pixel row front ++ differences pixel row rest := by
  unfold differences
  rw [List.mapIdx_append]
  congr 1
  · rw [List.mapIdx_eq_mapIdx_iff]
    intro i inside
    rw [List.getD_append _ _ _ _ (by omega)]
  · rw [List.mapIdx_eq_mapIdx_iff]
    intro i _
    rw [whole, Nat.add_mod_right]
    split
    · rfl
    · rename_i behind
      have left : pixel ≤ i := Nat.le_trans (Nat.le_of_not_lt behind) (Nat.mod_le i row)
      have place : i + row - pixel - front.length = i - pixel := by omega
      rw [List.getD_append_right _ _ _ _ (by omega), place]

/- Within one row the stored differences are those of the filter that looks to the left. -/
theorem differencesRow {pixel row : Nat} {data : Bytes} (short : data.length ≤ row) :
    differences pixel row data =
      RowFilter.sub.apply (min pixel data.length) (List.replicate data.length 0) data := by
  unfold differences RowFilter.apply
  rw [List.mapIdx_eq_mapIdx_iff]
  intro i inside
  simp only [RowFilter.before, RowFilter.estimate,
    Nat.mod_eq_of_lt (Nat.lt_of_lt_of_le inside short)]
  by_cases first : i < pixel
  · rw [if_pos first, if_pos (Nat.lt_min.mpr ⟨first, inside⟩), UInt8.toNat_zero, Int.natCast_zero,
      Int.sub_zero, ofIntNat, UInt8.ofNat_toNat]
  · have whole : min pixel data.length = pixel := Nat.min_eq_left (by omega)
    have taken := addedBack data[i] (data.getD (i - pixel) 0).toNat
    rw [ofIntNat, UInt8.ofNat_toNat] at taken
    rw [whole, if_neg first, if_neg first]
    exact (UInt8.eq_sub_iff_add_eq.mpr taken).symm

theorem differencesLength (pixel row : Nat) (data : Bytes) :
    (differences pixel row data).length = data.length :=
  List.length_mapIdx

theorem summedDifferences {pixel row : Nat} {data : Bytes} (positive : 0 < pixel)
    (nonempty : data ≠ []) (short : data.length ≤ row) :
    summedRow pixel (differences pixel row data) = data := by
  have bytes : 0 < data.length := List.length_pos_iff.mpr nonempty
  rw [summedRow, differencesLength, differencesRow short]
  exact rebuildRowApplied (Nat.lt_min.mpr ⟨positive, bytes⟩) List.length_replicate

theorem summedRowNil (pixel : Nat) : summedRow pixel [] = [] := by
  simp [summedRow, rebuildRow, rebuild]

theorem summedRowLength {pixel : Nat} (positive : 0 < pixel) (row : Bytes) :
    (summedRow pixel row).length = row.length := by
  cases row with
  | nil => rw [summedRowNil]
  | cons b rest =>
    have bytes : 0 < (b :: rest).length := Nat.succ_pos rest.length
    exact rebuildRowLength _ (Nat.lt_min.mpr ⟨positive, bytes⟩) List.length_replicate

section Rows
variable {size : Nat} {front rest : Bytes}

theorem rowAtFirst (cut : front.length = size + 1 ∨ (front.length ≤ size + 1 ∧ rest = [])) :
    rowAt (size + 1) 0 (front ++ rest) = front := by
  rw [rowAt, Nat.zero_mul, List.drop_zero]
  obtain whole | ⟨short, rfl⟩ := cut
  · exact List.take_left' whole
  · rw [List.append_nil, List.take_of_length_le short]

theorem rowAtLater (cut : front.length = size + 1 ∨ (front.length ≤ size + 1 ∧ rest = []))
    (k : Nat) : rowAt (size + 1) (k + 1) (front ++ rest) = rowAt (size + 1) k rest := by
  rw [rowAt, rowAt, Nat.succ_mul, Nat.add_comm (k * (size + 1)), ← List.drop_drop]
  obtain whole | ⟨short, rfl⟩ := cut
  · rw [List.drop_left' whole]
  · rw [List.append_nil, List.drop_eq_nil_of_le short]

end Rows

theorem summedPieces {pixel size : Nat} (positive : 0 < pixel) (within : pixel ≤ size + 1)
    (data : Bytes) :
    (pieces size (differences pixel (size + 1) data)).flatMap (summedRow pixel) = data := by
  induction data using rowsInduction size with
  | nil => rw [differences, List.mapIdx_nil, piecesNil, List.flatMap_nil]
  | row front rest nonempty cut ih =>
    have split : differences pixel (size + 1) (front ++ rest) =
        differences pixel (size + 1) front ++ differences pixel (size + 1) rest := by
      obtain whole | ⟨_, rfl⟩ := cut
      · exact differencesAppend within whole rest
      · rw [List.append_nil]
        exact (List.append_nil _).symm
    have stored : differences pixel (size + 1) front ≠ [] :=
      List.ne_nil_of_length_pos (by
        rw [differencesLength]
        exact List.length_pos_iff.mpr nonempty)
    have cut' : (differences pixel (size + 1) front).length = size + 1 ∨
        ((differences pixel (size + 1) front).length ≤ size + 1 ∧
          differences pixel (size + 1) rest = []) := by
      rw [differencesLength]
      obtain whole | ⟨short, rfl⟩ := cut
      · exact .inl whole
      · exact .inr ⟨short, rfl⟩
    rw [split, piecesFirst stored _ cut', List.flatMap_cons, ih,
      summedDifferences positive nonempty (by omega)]

theorem summedLength {pixel size : Nat} (positive : 0 < pixel) (data : Bytes) :
    ((pieces size data).flatMap (summedRow pixel)).length = data.length := by
  induction data using rowsInduction size with
  | nil => rw [piecesNil, List.flatMap_nil]
  | row front rest nonempty cut ih =>
    rw [piecesFirst nonempty rest cut, List.flatMap_cons, List.length_append, List.length_append,
      summedRowLength positive, ih]

theorem rowAtSummed {pixel size : Nat} (positive : 0 < pixel) (data : Bytes) (k : Nat) :
    rowAt (size + 1) k ((pieces size data).flatMap (summedRow pixel)) =
      summedRow pixel (rowAt (size + 1) k data) := by
  induction data using rowsInduction size generalizing k with
  | nil =>
    rw [piecesNil, List.flatMap_nil, rowAt, List.drop_nil, List.take_nil, summedRowNil]
  | row front rest nonempty cut ih =>
    have cut' : (summedRow pixel front).length = size + 1 ∨
        ((summedRow pixel front).length ≤ size + 1 ∧
          (pieces size rest).flatMap (summedRow pixel) = []) := by
      rw [summedRowLength positive]
      obtain whole | ⟨short, rfl⟩ := cut
      · exact .inl whole
      · exact .inr ⟨short, by rw [piecesNil, List.flatMap_nil]⟩
    rw [piecesFirst nonempty rest cut, List.flatMap_cons]
    cases k with
    | zero => rw [rowAtFirst cut, rowAtFirst cut']
    | succ k => rw [rowAtLater cut, rowAtLater cut', ih]

/-! Whole data. -/

section Whole
variable {p : DecodeParameters} (predictor : p.predictor = 2) (bits : p.bits = 8)
include predictor bits

theorem decodeSummed (positive : 0 < p.colors ∧ 0 < p.columns)
    (fits : p.colors.toNat * 8 * p.columns.toNat < 2 ^ 64) (data : Bytes) :
    decode p data = .ok ((pieces (p.colors.toNat * p.columns.toNat - 1) data).flatMap
      (summedRow p.colors.toNat)) := by
  have eight : p.bits.toNat = 8 := by rw [bits]; rfl
  have filled : 0 < p.colors.toNat * p.bits.toNat * p.columns.toNat :=
    Nat.mul_pos (Nat.mul_pos positive.1 (by rw [eight]; decide)) positive.2
  have sized : p.Sized := ⟨filled, by rwa [eight]⟩
  have row : p.rowLength = p.colors.toNat * p.columns.toNat := by
    rw [DecodeParameters.rowLength, DecodeParameters.bytesFor, eight, Nat.mul_right_comm]
    omega
  have pixel : p.pixelLength = p.colors.toNat := by
    rw [DecodeParameters.pixelLength, DecodeParameters.bytesFor, eight]
    omega
  rw [decode, if_neg (by omega), if_pos predictor]
  simp only [decodeTiff, bits, ne_eq, not_true_eq_false, if_false,
    DecodeParameters.sizedRow sized, DecodeParameters.sizedPixelBytes sized, row, pixel, bind,
    Except.bind]
  rfl

theorem decodeOversized (long : 2 ^ 64 ≤ p.colors.toNat * 8 * p.columns.toNat) (data : Bytes) :
    ∃ fault, decode p data = .error fault := by
  have eight : p.bits.toNat = 8 := by rw [bits]; rfl
  rw [decode, if_neg (by omega), if_pos predictor]
  cases found : p.rowBytes with
  | error fault =>
    simp only [decodeTiff, bits, ne_eq, not_true_eq_false, if_false, found, bind, Except.bind]
    exact ⟨fault, rfl⟩
  | ok row =>
    have fits := (DecodeParameters.rowSized found).fits
    rw [eight] at fits
    omega

end Whole

/- The bits of a row are counted in a word: rows of more are refused, whatever they hold. -/
theorem decodeDifferences (p : DecodeParameters) (predictor : p.predictor = 2) (bits : p.bits = 8)
    (positive : 0 < p.colors ∧ 0 < p.columns) :
    let pixel := p.colors.toNat
    let row := p.colors.toNat * p.columns.toNat
    (pixel * 8 * p.columns.toNat < 2 ^ 64 →
      (∀ data, decode p (differences pixel row data) = .ok data) ∧
      ∀ stored stored' k, rowAt row k stored = rowAt row k stored' →
        ∃ data data', decode p stored = .ok data ∧ decode p stored' = .ok data' ∧
          rowAt row k data = rowAt row k data') ∧
    (2 ^ 64 ≤ pixel * 8 * p.columns.toNat → ∀ stored, ∃ fault, decode p stored = .error fault) := by
  intro pixel row
  have pixelPositive : 0 < pixel := positive.1
  have within : pixel ≤ row := Nat.le_mul_of_pos_right _ positive.2
  obtain ⟨size, whole⟩ : ∃ size, row = size + 1 := ⟨row - 1, by omega⟩
  refine ⟨fun fits => ⟨fun data => ?_, fun stored stored' k same => ?_⟩,
    decodeOversized predictor bits⟩
  · rw [decodeSummed predictor bits positive fits]
    change Except.ok ((pieces (row - 1) _).flatMap (summedRow pixel)) = _
    rw [whole, Nat.add_sub_cancel, summedPieces pixelPositive (whole ▸ within)]
  · refine ⟨_, _, decodeSummed predictor bits positive fits stored,
      decodeSummed predictor bits positive fits stored', ?_⟩
    change rowAt row k ((pieces (row - 1) stored).flatMap (summedRow pixel)) =
      rowAt row k ((pieces (row - 1) stored').flatMap (summedRow pixel))
    rw [whole] at same ⊢
    rw [Nat.add_sub_cancel, rowAtSummed pixelPositive, rowAtSummed pixelPositive, same]

/- Rows of three pixels of two colors, the last row cut inside its second pixel. -/
theorem decodeDifferencesShortRow :
    let p : DecodeParameters := { predictor := 2, colors := 2, columns := 3 }
    let data : Bytes := [10, 200, 9, 100, 255, 0, 7, 8, 6]
    (p.predictor = 2 ∧ p.bits = 8 ∧ 0 < p.colors ∧ 0 < p.columns) ∧
    p.colors.toNat * 8 * p.columns.toNat < 2 ^ 64 ∧
    differences 2 6 data = [10, 200, 255, 156, 246, 156, 7, 8, 255] ∧
    decode p (differences 2 6 data) = .ok data := by
  intro p data
  have decoded := decodeDifferences p rfl rfl (by decide)
  exact ⟨by decide, by decide, by decide, (decoded.1 (by decide)).1 data⟩

end PaintedImages.Prediction
