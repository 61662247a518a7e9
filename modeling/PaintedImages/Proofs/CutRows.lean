import PaintedImages.Proofs.Outcomes
import PaintedImages.Proofs.RowPieces

/-! Tagged rows cut short. Every row read gives a row of bytes, made from the rows before it alone;
so of data that can be decoded every part with one whole row can be decoded too, to the same rows as
far as they are whole and to one more where the part ends inside a row. Which bytes a filled up row
decodes to is not told. -/
namespace PaintedImages.Prediction

section Rows
variable {row pixel : Nat} (positive : 0 < pixel)

theorem filledLength {stored : Bytes} (short : stored.length ≤ row) :
    (stored ++ List.replicate (row - stored.length) 0).length = row := by
  rw [List.length_append, List.length_replicate, Nat.add_sub_cancel' short]

include positive

/- Rows read before the others show in the others only through the lowest of them. -/
theorem decodeRowsSplit {above : Bytes} (size : above.length = row) {front more : List Bytes}
    (rows : ∀ r ∈ front, r ≠ [] ∧ r.length ≤ row + 1) {out : Bytes}
    (whole : decodeRows row pixel above (front ++ more) = .ok out) :
    ∃ top below lowest, out = top ++ below ∧ top.length = front.length * row ∧
      lowest.length = row ∧ decodeRows row pixel lowest more = .ok below ∧
      ∀ others, decodeRows row pixel above (front ++ others) =
        (decodeRows row pixel lowest others).map (top ++ ·) := by
  induction front generalizing above out with
  | nil =>
    refine ⟨[], out, above, rfl, (Nat.zero_mul row).symm, size, whole, fun others => ?_⟩
    rw [List.nil_append]
    cases decodeRows row pixel above others <;> rfl
  | cons r front ih =>
    obtain ⟨⟨nonempty, short⟩, rest⟩ := List.forall_mem_cons.mp rows
    obtain ⟨tag, stored, rfl⟩ := List.exists_cons_of_ne_nil nonempty
    rw [List.cons_append, decodeRows] at whole
    cases known : RowFilter.ofTag tag with
    | none =>
      simp only [known] at whole
      contradiction
    | some kind =>
      simp only [known] at whole
      obtain ⟨more', read, joined⟩ := bindOk whole
      cases joined
      have filled := filledLength (Nat.le_of_succ_le_succ short)
      have rebuilt := rebuildRowLength kind.guess positive (size.trans filled.symm)
      obtain ⟨top, below, lowest, rfl, count, level, under, others⟩ :=
        ih (rebuilt.trans filled) rest read
      refine ⟨_ ++ top, below, lowest, (List.append_assoc _ _ _).symm, ?_, level, under,
        fun next => ?_⟩
      · rw [List.length_append, rebuilt, filled, count, List.length_cons, Nat.succ_mul,
          Nat.add_comm]
      · rw [List.cons_append, decodeRows]
        simp only [known, others next]
        cases decodeRows row pixel lowest next with
        | error fault => rfl
        | ok bytes =>
          simp only [Except.map, bind, Except.bind, List.append_assoc]

theorem decodeRowsLength {above : Bytes} (size : above.length = row) {data out : Bytes}
    (whole : decodeRows row pixel above (pieces row data) = .ok out) :
    out.length = (data.length + row) / (row + 1) * row := by
  rw [← List.append_nil (pieces row data)] at whole
  obtain ⟨top, below, lowest, rfl, count, _, ended, _⟩ :=
    decodeRowsSplit positive size (piecesSizes row data) whole
  cases ended
  rw [List.append_nil, count, piecesCount]

/- A short row with a known tag is filled up and read. -/
theorem decodeRowsLast {lowest : Bytes} (size : lowest.length = row) {part rest below : Bytes}
    (nonempty : part ≠ []) (short : part.length ≤ row)
    (whole : decodeRows row pixel lowest (pieces row (part ++ rest)) = .ok below) :
    ∃ last, decodeRows row pixel lowest (pieces row part) = .ok last ∧ last.length = row := by
  obtain ⟨tag, stored, rfl⟩ := List.exists_cons_of_ne_nil nonempty
  rw [List.cons_append, pieces, decodeRows] at whole
  have single : pieces row (tag :: stored) = [tag :: stored] := by
    have cut := piecesFirst nonempty [] (.inr ⟨Nat.le_succ_of_le short, rfl⟩)
    rwa [List.append_nil, piecesNil] at cut
  rw [single, decodeRows]
  cases known : RowFilter.ofTag tag with
  | none =>
    simp only [known] at whole
    contradiction
  | some kind =>
    have filled := filledLength (Nat.le_of_succ_le short)
    refine ⟨_, rfl, ?_⟩
    rw [List.append_nil, rebuildRowLength kind.guess positive (size.trans filled.symm), filled]

end Rows

theorem decodedRows {p : DecodeParameters} (predictor : 10 ≤ p.predictor ∧ p.predictor ≤ 15)
    {data out : Bytes} (nonempty : data ≠ []) (whole : decode p data = .ok out) :
    p.Sized ∧ p.rowLength < data.length ∧
      decodeRows p.rowLength p.pixelLength (List.replicate p.rowLength 0)
        (pieces p.rowLength data) = .ok out := by
  rw [decodePredicted predictor] at whole
  have bytes : ¬ data.isEmpty = true := by rwa [List.isEmpty_iff]
  have sized : p.Sized := by
    cases found : p.rowBytes with
    | error fault =>
      simp only [decodePng, if_neg bytes, found, bind, Except.bind] at whole
      contradiction
    | ok row => exact DecodeParameters.rowSized found
  have row := DecodeParameters.sizedRow sized
  have pixel := DecodeParameters.sizedPixelBytes sized
  obtain short | long := Nat.lt_or_ge p.rowLength data.length
  · rw [decodePngRows row pixel short] at whole
    exact ⟨sized, short, whole⟩
  · simp only [decodePng, if_neg bytes, row, pixel, bind, Except.bind, if_pos long] at whole
    contradiction

theorem completeRowsKept (p : DecodeParameters)
    (predictor : 10 ≤ p.predictor ∧ p.predictor ≤ 15) {front rest out : Bytes}
    (whole : decode p (front ++ rest) = .ok out) :
    let row := p.rowLength
    let k := front.length / (row + 1)
    1 ≤ k → p.rowBytes = .ok row ∧ ∃ kept, decode p front = .ok kept ∧
      kept.take (k * row) = out.take (k * row) ∧
      kept.length = if front.length % (row + 1) = 0 then k * row else (k + 1) * row := by
  intro row k complete
  have long : row < front.length := by
    rw [Nat.one_le_div_iff (Nat.succ_pos row)] at complete
    exact complete
  have nonempty : front ++ rest ≠ [] :=
    List.ne_nil_of_length_pos (by rw [List.length_append]; omega)
  obtain ⟨sized, _, rows⟩ := decodedRows predictor nonempty whole
  have positive := DecodeParameters.pixelPositive sized
  refine ⟨DecodeParameters.sizedRow sized, ?_⟩
  rw [decodePredicted predictor, decodePngRows (DecodeParameters.sizedRow sized)
    (DecodeParameters.sizedPixelBytes sized) long]
  obtain ⟨full, part, rfl, aligned, count, short⟩ := wholeRowsParted row front
  rw [List.append_assoc, piecesAppend aligned] at rows
  obtain ⟨top, below, lowest, rfl, height, level, under, others⟩ :=
    decodeRowsSplit positive List.length_replicate (piecesSizes row full) rows
  rw [count] at height
  rw [piecesAppend aligned, others, ← height, List.take_left, ← short]
  cases part with
  | nil =>
    refine ⟨top, ?_, List.take_length, rfl⟩
    rw [piecesNil]
    exact congrArg Except.ok (List.append_nil top)
  | cons b part =>
    have inside : (b :: part).length < row + 1 := short ▸ Nat.mod_lt _ (Nat.succ_pos row)
    obtain ⟨last, read, size⟩ :=
      decodeRowsLast positive level (List.cons_ne_nil b part) (Nat.le_of_lt_succ inside) under
    refine ⟨top ++ last, by rw [read]; rfl, List.take_left, ?_⟩
    have ended : ¬ (b :: part).length = 0 := Nat.succ_ne_zero part.length
    rw [if_neg ended, List.length_append, size, height, Nat.succ_mul]

/- The cut falls right behind the tag of the third row, whose bytes are then all taken for zero: it
repeats the row above. -/
theorem completeRowsKeptTagOnly :
    let p : DecodeParameters := { predictor := 12, columns := 2 }
    let front : Bytes := [0, 5, 6, 1, 7, 8, 2]
    let rest : Bytes := [1, 1, 4, 9, 9]
    (10 ≤ p.predictor ∧ p.predictor ≤ 15) ∧
    decode p (front ++ rest) = .ok [5, 6, 7, 15, 8, 16, 17, 26] ∧
    p.rowLength = 2 ∧ 1 ≤ front.length / 3 ∧
    decode p front = .ok [5, 6, 7, 15, 7, 15] ∧
    ∃ kept, decode p front = .ok kept ∧ kept.take 4 = [5, 6, 7, 15] ∧ kept.length = 6 := by
  intro p front rest
  have predictor : 10 ≤ p.predictor ∧ p.predictor ≤ 15 := by decide
  have whole : decode p (front ++ rest) = .ok [5, 6, 7, 15, 8, 16, 17, 26] := by cbv
  have row : p.rowLength = 2 := by decide
  have length : front.length = 7 := rfl
  obtain ⟨_, kept, read, same, height⟩ := completeRowsKept p predictor whole (by decide)
  rw [row, length] at same height
  exact ⟨predictor, whole, row, by decide, by cbv, kept, read, same, height⟩

end PaintedImages.Prediction
