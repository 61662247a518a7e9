import PaintedImages.Proofs.GuardedRows
import PaintedImages.Proofs.RowDifferences

/-! Safety of undoing prediction. No data and no parameters lead the machine into a trap: it ends as
the definition on lists does, it reserves no more than the data takes, and what comes out is less
than twice the data. The length of the data has to be a size of the machine itself. -/
namespace PaintedImages
namespace Guarded
open Prediction

theorem rowHeld {p : DecodeParameters} (sized : p.Sized) : p.rowLength < 2 ^ 62 := by
  have fits := sized.fits
  rw [DecodeParameters.rowLength, DecodeParameters.bytesFor]
  omega

theorem rowsSummed {pixel row : Nat} (positive : 0 < pixel) (held : row ≤ 2 ^ 64)
    {rows : List Bytes} (sizes : ∀ r ∈ rows, r ≠ [] ∧ r.length ≤ row) :
    (rows.mapM fun r => sweep .sub pixel [] r.length r) = .ok (rows.map (summedRow pixel)) := by
  induction rows with
  | nil => rfl
  | cons r rest ih =>
    obtain ⟨⟨nonempty, short⟩, others⟩ := List.forall_mem_cons.mp sizes
    have zeros : (List.replicate r.length (0 : UInt8)).length = r.length := List.length_replicate
    have narrowed : rebuildRow RowFilter.sub.guess pixel (List.replicate r.length 0) r =
        summedRow pixel r := by
      obtain whole | short := Nat.le_total pixel r.length
      · rw [summedRow, Nat.min_eq_left whole]
      · rw [summedRow, Nat.min_eq_right short, shortRowKept positive zeros.symm short]
        exact (shortRowKept (List.length_pos_iff.mpr nonempty) zeros.symm (Nat.le_refl _)).symm
    -- the row above is not looked at
    have swept : sweep .sub pixel [] r.length r = .ok (summedRow pixel r) :=
      (sweepGuarded positive .sub zeros.symm (by omega)).trans (congrArg Except.ok narrowed)
    rw [List.mapM_cons, afterOk swept, afterOk (ih others)]
    rfl

theorem decodeTiffGuarded (p : DecodeParameters) (data : Bytes) :
    decodeTiff p data = (Prediction.decodeTiff p data).mapError .fault := by
  by_cases eight : p.bits = 8
  · simp only [decodeTiff, Prediction.decodeTiff, eight, ne_eq, not_true_eq_false, if_false]
    have row := rowBytesGuarded p
    cases found : p.rowBytes with
    | error fault =>
      rw [found] at row
      rw [afterError row]
      rfl
    | ok length =>
      have sized := DecodeParameters.rowSized found
      have positive := DecodeParameters.rowPositive sized
      have pixel := pixelBytesGuarded p
      rw [DecodeParameters.sizedRow sized] at found
      cases found
      rw [DecodeParameters.sizedRow sized] at row
      rw [DecodeParameters.sizedPixelBytes sized] at pixel
      have cut : chunks p.rowLength data = .ok (pieces (p.rowLength - 1) data) :=
        if_neg (Nat.ne_of_gt positive)
      have sizes : ∀ r ∈ pieces (p.rowLength - 1) data, r ≠ [] ∧ r.length ≤ p.rowLength := by
        have whole : p.rowLength - 1 + 1 = p.rowLength := Nat.sub_add_cancel positive
        exact whole ▸ piecesSizes _ data
      have summed := rowsSummed (DecodeParameters.pixelPositive sized)
        (Nat.le_of_lt (Nat.lt_trans (rowHeld sized) (by decide))) sizes
      rw [afterOk row, afterOk pixel, afterOk cut, afterOk summed,
        DecodeParameters.sizedPixelBytes sized, ← List.flatMap_def]
      rfl
  · simp only [decodeTiff, Prediction.decodeTiff, ne_eq, eight, not_false_eq_true, if_true]
    rfl

/- Measuring ends in a fault of data or parameters, or in a plan that the data outweighs. -/
theorem planned (p : DecodeParameters) {data : Bytes} (held : data.length < 2 ^ 64) :
    (∃ fault, plan p data = .error (.fault fault) ∧
      (data.isEmpty = false → Prediction.decodePng p data = .error fault)) ∨
    (p.Sized ∧ p.rowLength < data.length ∧ plan p data = .ok {
      row := p.rowLength, pixel := p.pixelLength, stride := p.rowLength + 1
      reserved := data.length / (p.rowLength + 1) * p.rowLength }) := by
  have row := rowBytesGuarded p
  cases found : p.rowBytes with
  | error fault =>
    rw [found] at row
    refine .inl ⟨fault, afterError row _, fun filled => ?_⟩
    simp only [Prediction.decodePng, filled, Bool.false_eq_true, if_false, found, bind, Except.bind]
  | ok length =>
    have sized := DecodeParameters.rowSized found
    have pixel := pixelBytesGuarded p
    rw [DecodeParameters.sizedRow sized] at row
    rw [DecodeParameters.sizedPixelBytes sized] at pixel
    obtain long | short := Nat.lt_or_ge p.rowLength data.length
    · have low := rowHeld sized
      have within : data.length / (p.rowLength + 1) * p.rowLength ≤ data.length :=
        Nat.le_trans (Nat.mul_le_mul_left _ (Nat.le_succ p.rowLength)) (Nat.div_mul_le_self _ _)
      have stride : size (p.rowLength + 1) = .ok (p.rowLength + 1) := sizeWithin (by omega)
      have count : quotient data.length (p.rowLength + 1) =
          .ok (data.length / (p.rowLength + 1)) := if_neg (Nat.succ_ne_zero _)
      have reserved : size ((data.length / (p.rowLength + 1) : Nat) * p.rowLength) =
          .ok (data.length / (p.rowLength + 1) * p.rowLength) := by
        rw [← Int.natCast_mul]
        exact sizeWithin (by omega)
      refine .inr ⟨sized, long, ?_⟩
      rw [plan, afterOk row, afterOk pixel]
      simp only [if_neg (Nat.not_le.mpr long)]
      rw [afterOk stride, afterOk count, afterOk reserved]
    · refine .inl ⟨.longRow p.rowLength data.length, ?_, fun filled => ?_⟩
      · rw [plan, afterOk row, afterOk pixel, if_pos short]
        rfl
      · simp only [Prediction.decodePng, filled, Bool.false_eq_true, if_false,
          DecodeParameters.sizedRow sized, DecodeParameters.sizedPixelBytes sized, bind,
          Except.bind, if_pos short]
        rfl

theorem decodePngGuarded (p : DecodeParameters) {data : Bytes} (held : data.length < 2 ^ 64) :
    decodePng p data = (Prediction.decodePng p data).mapError .fault := by
  cases filled : data.isEmpty with
  | true =>
    simp only [decodePng, Prediction.decodePng, filled, if_true]
    rfl
  | false =>
    rw [decodePng, filled, if_neg Bool.false_ne_true]
    obtain ⟨fault, failed, refused⟩ | ⟨sized, long, measured⟩ := planned p held
    · rw [afterError failed, refused filled]
      rfl
    · have cut : chunks (p.rowLength + 1) data = .ok (pieces p.rowLength data) :=
        if_neg (Nat.succ_ne_zero _)
      have zeros : (List.replicate p.rowLength (0 : UInt8)).length = p.rowLength :=
        List.length_replicate
      have rows := decodeRowsGuarded (DecodeParameters.pixelPositive sized)
        (Nat.le_of_lt (Nat.lt_trans (rowHeld sized) (by decide)))
        zeros [] (piecesSizes p.rowLength data)
      rw [afterOk measured, afterOk cut, rows, decodePngRows (DecodeParameters.sizedRow sized)
        (DecodeParameters.sizedPixelBytes sized) long]
      congr 1
      cases Prediction.decodeRows p.rowLength p.pixelLength _ _ <;> rfl

theorem decodeGuarded (p : DecodeParameters) {data : Bytes} (held : data.length < 2 ^ 64) :
    decode p data = (Prediction.decode p data).mapError .fault := by
  unfold decode Prediction.decode
  split
  · rfl
  · split
    · exact decodeTiffGuarded p data
    · split
      · exact decodePngGuarded p held
      · rfl

end Guarded

namespace Prediction

theorem decodedTiff {p : DecodeParameters} {data out : Bytes}
    (whole : decodeTiff p data = .ok out) : out.length = data.length := by
  by_cases eight : p.bits = 8
  · simp only [decodeTiff, eight, ne_eq, not_true_eq_false, if_false] at whole
    obtain ⟨row, found, rest⟩ := bindOk whole
    obtain ⟨pixel, foundPixel, joined⟩ := bindOk rest
    have sized := DecodeParameters.rowSized found
    rw [DecodeParameters.sizedPixelBytes sized] at foundPixel
    cases foundPixel
    cases joined
    exact summedLength (DecodeParameters.pixelPositive sized) data
  · simp only [decodeTiff, ne_eq, eight, not_false_eq_true, if_true] at whole
    contradiction

/- The last row may be filled up, by less than a row, and a row is shorter than the data. -/
theorem rowsBounded {row length : Nat} (long : row < length) :
    (length + row) / (row + 1) * row < 2 * length := by
  have first : 0 < (length + row) / (row + 1) := Nat.div_pos (by omega) (Nat.succ_pos row)
  have all := Nat.div_mul_le_self (length + row) (row + 1)
  rw [Nat.mul_succ] at all
  omega

theorem decodePngLength {p : DecodeParameters}
    (predictor : 10 ≤ p.predictor ∧ p.predictor ≤ 15) {data out : Bytes}
    (whole : decode p data = .ok out) :
    (data ≠ [] → p.rowBytes = .ok p.rowLength ∧ p.rowLength < data.length) ∧
    out.length = (data.length + p.rowLength) / (p.rowLength + 1) * p.rowLength := by
  by_cases empty : data = []
  · rw [decodePredicted predictor, empty] at whole
    cases whole
    rw [empty, List.length_nil, Nat.zero_add, Nat.div_eq_of_lt (Nat.lt_succ_self _), Nat.zero_mul]
    exact ⟨fun bytes => absurd rfl bytes, rfl⟩
  · obtain ⟨sized, long, rows⟩ := decodedRows predictor empty whole
    exact ⟨fun _ => ⟨DecodeParameters.sizedRow sized, long⟩,
      decodeRowsLength (DecodeParameters.pixelPositive sized) List.length_replicate rows⟩

theorem decodePlainLength {p : DecodeParameters} (predictor : p.predictor = 1 ∨ p.predictor = 2)
    {data out : Bytes} (whole : decode p data = .ok out) : out.length = data.length := by
  unfold decode at whole
  obtain one | two := predictor
  · rw [if_pos one] at whole
    cases whole
    rfl
  · rw [if_neg (by omega), if_pos two] at whole
    exact decodedTiff whole

theorem predictorKnown {p : DecodeParameters} {data out : Bytes}
    (whole : decode p data = .ok out) :
    (p.predictor = 1 ∨ p.predictor = 2) ∨ (10 ≤ p.predictor ∧ p.predictor ≤ 15) := by
  unfold decode at whole
  split at whole
  · exact .inl (.inl ‹_›)
  · split at whole
    · exact .inl (.inr ‹_›)
    · split at whole
      · exact .inr ‹_›
      · contradiction

theorem decodeSafe (p : DecodeParameters) (data : Bytes) (held : data.length < 2 ^ 64) :
    (∀ kind, Guarded.decode p data ≠ .error (.trap kind)) ∧
    Guarded.decode p data = (decode p data).mapError .fault ∧
    (∀ plan, Guarded.plan p data = .ok plan →
      plan.row < data.length ∧ plan.reserved ≤ data.length) ∧
    ∀ out, decode p data = .ok out →
      (p.predictor = 1 ∨ p.predictor = 2 → out.length = data.length) ∧
      (10 ≤ p.predictor ∧ p.predictor ≤ 15 →
        (data ≠ [] → p.rowBytes = .ok p.rowLength) ∧
        out.length = (data.length + p.rowLength) / (p.rowLength + 1) * p.rowLength) ∧
      (data ≠ [] → out.length < 2 * data.length) := by
  have guarded := Guarded.decodeGuarded p held
  refine ⟨fun kind trapped => ?_, guarded, fun plan measured => ?_, fun out whole => ?_⟩
  · rw [guarded] at trapped
    cases found : decode p data with
    | error fault =>
      rw [found] at trapped
      cases trapped
    | ok out =>
      rw [found] at trapped
      cases trapped
  · obtain ⟨fault, failed, _⟩ | ⟨_, long, planned⟩ := Guarded.planned p held
    · rw [failed] at measured
      contradiction
    · rw [planned] at measured
      cases measured
      exact ⟨long, Nat.le_trans (Nat.mul_le_mul_left _ (Nat.le_succ p.rowLength))
        (Nat.div_mul_le_self _ _)⟩
  · refine ⟨fun predictor => decodePlainLength predictor whole, fun predictor => ?_,
      fun nonempty => ?_⟩
    · obtain ⟨measured, length⟩ := decodePngLength predictor whole
      exact ⟨fun nonempty => (measured nonempty).1, length⟩
    · have bytes : 0 < data.length := List.length_pos_iff.mpr nonempty
      obtain plain | tagged := predictorKnown whole
      · rw [decodePlainLength plain whole]
        omega
      · obtain ⟨measured, length⟩ := decodePngLength tagged whole
        rw [length]
        exact rowsBounded (measured nonempty).2

/- Seven bytes in rows of four, the last row filled up: more comes out than the whole rows hold, but
less than twice the data. -/
theorem decodeSafeShortRow :
    let p : DecodeParameters := { predictor := 14, columns := 3 }
    let data : Bytes := [1, 10, 20, 30, 4, 5, 5]
    data.length < 2 ^ 64 ∧
    (∀ kind, Guarded.decode p data ≠ .error (.trap kind)) ∧
    Guarded.decode p data = .ok [10, 30, 60, 15, 35, 60] ∧
    (∀ plan, Guarded.plan p data = .ok plan →
      plan.row < data.length ∧ plan.reserved ≤ data.length) ∧
    decode p data = .ok [10, 30, 60, 15, 35, 60] ∧ 6 < 2 * data.length := by
  intro p data
  have held : data.length < 2 ^ 64 := by decide
  have whole : decode p data = .ok [10, 30, 60, 15, 35, 60] := by cbv
  obtain ⟨untrapped, guarded, within, sizes⟩ := decodeSafe p data held
  rw [whole] at guarded
  exact ⟨held, untrapped, guarded, within, whole, (sizes _ whole).2.2 (List.cons_ne_nil _ _)⟩

end Prediction
end PaintedImages
