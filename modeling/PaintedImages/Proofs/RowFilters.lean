import Mathlib.Algebra.Group.Nat.Defs
import Mathlib.Data.List.GetD
import PaintedImages.Filter.Prediction

/-! Rows filtered before they are stored, and got back. Each row takes one of five filters; a byte
is stored as its difference from an estimate made of the byte one pixel to the left, the byte above
and the byte above that left one, all counted as zero outside the image. Whatever filters the rows
take, undoing the prediction gives the rows, for every width of a pixel, also below a byte; a row is
rebuilt byte by byte behind the bytes known. Data that no filtering made is not looked at here. -/
namespace PaintedImages

namespace DecodeParameters

def rowLength (p : DecodeParameters) : Nat :=
  bytesFor (p.colors.toNat * p.bits.toNat * p.columns.toNat)

def pixelLength (p : DecodeParameters) : Nat := bytesFor (p.colors.toNat * p.bits.toNat)

variable {p : DecodeParameters}

theorem bytesForPositive {bits : Nat} (positive : 0 < bits) : 0 < bytesFor bits := by
  unfold bytesFor
  omega

structure Sized (p : DecodeParameters) : Prop where
  positive : 0 < p.colors.toNat * p.bits.toNat * p.columns.toNat
  fits : p.colors.toNat * p.bits.toNat * p.columns.toNat < 2 ^ 64

theorem sizedPixel (sized : p.Sized) :
    0 < p.colors.toNat * p.bits.toNat ∧ p.colors.toNat * p.bits.toNat < UInt64.size := by
  have columns : 0 < p.columns.toNat := Nat.pos_of_mul_pos_left sized.positive
  exact ⟨Nat.pos_of_mul_pos_right sized.positive,
    Nat.lt_of_le_of_lt (Nat.le_mul_of_pos_right _ columns) sized.fits⟩

theorem rowPositive (sized : p.Sized) : 0 < p.rowLength := bytesForPositive sized.positive

theorem pixelPositive (sized : p.Sized) : 0 < p.pixelLength :=
  bytesForPositive (sizedPixel sized).1

theorem sizedRow (sized : p.Sized) : p.rowBytes = .ok p.rowLength := by
  have fits : p.colors.toNat * p.bits.toNat * p.columns.toNat < UInt64.size := sized.fits
  simp only [rowBytes, pixelBits, sizedPixel sized, and_self, if_true, bind, Except.bind,
    sized.positive, fits, rowLength]

theorem rowSized {row : Nat} (found : p.rowBytes = .ok row) : p.Sized := by
  simp only [rowBytes, pixelBits] at found
  split at found
  · simp only [bind, Except.bind] at found
    split at found
    · rename_i row
      exact ⟨row.1, row.2⟩
    · contradiction
  · contradiction

theorem sizedPixelBytes (sized : p.Sized) : p.pixelBytes = .ok p.pixelLength := by
  simp only [pixelBytes, pixelBits, sizedPixel sized, and_self, if_true]
  rfl

end DecodeParameters

namespace Prediction

namespace RowFilter

def tag : RowFilter → UInt8
  | plain => 0
  | sub => 1
  | up => 2
  | average => 3
  | paeth => 4

/-- The neighbour nearest to `left + above - corner`, of equally near ones the first. From there
`left` is as far as `above` is from `corner`, and `above` as far as `left` is. -/
def nearest (left above corner : Int) : Int :=
  let toLeft := (above - corner).natAbs
  let toAbove := (left - corner).natAbs
  let toCorner := (left + above - 2 * corner).natAbs
  if toLeft ≤ min toAbove toCorner then left
  else if toAbove ≤ toCorner then above
  else corner

def estimate (left above corner : Int) : RowFilter → Int
  | plain => 0
  | sub => left
  | up => above
  | average => (left + above) / 2
  | paeth => nearest left above corner

def before (pixel : Nat) (row : Bytes) (i : Nat) : UInt8 :=
  if i < pixel then 0 else row.getD (i - pixel) 0

def apply (kind : RowFilter) (pixel : Nat) (above row : Bytes) : Bytes :=
  row.mapIdx fun i b =>
    let left := before pixel row i
    let corner := before pixel above i
    UInt8.ofInt (b.toNat - kind.estimate left.toNat (above.getD i 0).toNat corner.toNat)

end RowFilter

def filterRows (pixel : Nat) (above : Bytes) : List (RowFilter × Bytes) → Bytes
  | [] => []
  | (kind, row) :: rest => kind.tag :: kind.apply pixel above row ++ filterRows pixel row rest

theorem ofIntNat (n : Nat) : UInt8.ofInt n = UInt8.ofNat n := by
  apply UInt8.toNat_inj.mp
  simp only [UInt8.ofInt, UInt8.toNat_ofNat']
  omega

theorem addedBack (b : UInt8) (e : Int) : UInt8.ofInt (b.toNat - e) + UInt8.ofInt e = b := by
  rw [← UInt8.ofInt_add, Int.sub_add_cancel, ofIntNat, UInt8.ofNat_toNat]

theorem averageExact (left above : UInt8) :
    average left above = UInt8.ofInt ((left.toNat + above.toNat) / 2) := by
  rw [average, ← ofIntNat, Int.natCast_ediv, Int.natCast_add]
  rfl

theorem paethExact (left above corner : UInt8) :
    paeth left above corner =
      UInt8.ofInt (RowFilter.nearest left.toNat above.toNat corner.toNat) := by
  have toLeft : ((left.toNat + above.toNat - corner.toNat : Int) - left.toNat).natAbs =
      (above.toNat - corner.toNat : Int).natAbs := by omega
  have toAbove : ((left.toNat + above.toNat - corner.toNat : Int) - above.toNat).natAbs =
      (left.toNat - corner.toNat : Int).natAbs := by omega
  have toCorner : ((left.toNat + above.toNat - corner.toNat : Int) - corner.toNat).natAbs =
      (left.toNat + above.toNat - 2 * corner.toNat : Int).natAbs := by omega
  simp only [paeth, RowFilter.nearest, toLeft, toAbove, toCorner, ← Nat.le_min]
  split
  · rw [ofIntNat, UInt8.ofNat_toNat]
  · split
    · rw [ofIntNat, UInt8.ofNat_toNat]
    · rw [ofIntNat, UInt8.ofNat_toNat]

theorem ofTagTag (kind : RowFilter) : RowFilter.ofTag kind.tag = some kind := by
  cases kind <;> rfl

theorem guessEstimate (kind : RowFilter) (left above corner : UInt8) :
    kind.guess left above corner =
      UInt8.ofInt (kind.estimate left.toNat above.toNat corner.toNat) := by
  cases kind with
  | plain => rfl
  | sub => rw [RowFilter.guess, RowFilter.estimate, ofIntNat, UInt8.ofNat_toNat]
  | up => rw [RowFilter.guess, RowFilter.estimate, ofIntNat, UInt8.ofNat_toNat]
  | average => exact averageExact left above
  | paeth => exact paethExact left above corner

namespace RowFilter

/- A byte's left neighbour stands at its own place of the row shifted by a pixel of zeros. -/
theorem beforeShifted (pixel : Nat) (row : Bytes) (i : Nat) :
    before pixel row i = (List.replicate pixel 0 ++ row).getD i 0 := by
  rw [before, List.getD_eq_getElem?_getD, List.getD_eq_getElem?_getD, List.getElem?_append,
    List.length_replicate]
  split
  · rw [List.getElem?_replicate_of_lt ‹_›, Option.getD_some]
  · rfl

theorem applyLength (kind : RowFilter) (pixel : Nat) (above row : Bytes) :
    (kind.apply pixel above row).length = row.length :=
  List.length_mapIdx

theorem beforeAppend {pixel : Nat} (positive : 0 < pixel) (known rest : Bytes) :
    before pixel (known ++ rest) known.length = before pixel known known.length := by
  rw [before, before]
  split
  · rfl
  · rw [List.getD_append _ _ _ _ (by omega)]

end RowFilter

/-! Rows rebuilt byte by byte. -/

def rebuiltBehind (g : Guess) (pixel : Nat) (above known stored : Bytes) : Bytes :=
  rebuild g ((List.replicate pixel 0 ++ known).drop known.length) (above.drop known.length)
    ((List.replicate pixel 0 ++ above).drop known.length) stored

def guessed (g : Guess) (pixel : Nat) (above known : Bytes) : UInt8 :=
  g (RowFilter.before pixel known known.length) (above.getD known.length 0)
    (RowFilter.before pixel above known.length)

theorem rebuildRowBehind (g : Guess) (pixel : Nat) (above stored : Bytes) :
    rebuildRow g pixel above stored = rebuiltBehind g pixel above [] stored := by
  rw [rebuildRow, rebuiltBehind, List.append_nil]
  rfl

theorem rebuiltNil (g : Guess) (pixel : Nat) (above known : Bytes) :
    rebuiltBehind g pixel above known [] = [] := by
  simp [rebuiltBehind, rebuild]

theorem rebuiltNext {g : Guess} {pixel : Nat} (positive : 0 < pixel) {above known rest : Bytes}
    (d : UInt8) (inside : known.length < above.length) :
    rebuiltBehind g pixel above known (d :: rest) =
      (d + guessed g pixel above known) ::
        rebuiltBehind g pixel above (known ++ [d + guessed g pixel above known]) rest := by
  have window : known.length < (List.replicate pixel 0 ++ known).length := by
    rw [List.length_append, List.length_replicate]
    omega
  have shifted : known.length < (List.replicate pixel 0 ++ above).length := by
    rw [List.length_append]
    omega
  have left : RowFilter.before pixel known known.length =
      (List.replicate pixel 0 ++ known)[known.length] := by
    rw [RowFilter.beforeShifted, List.getD_eq_getElem _ _ window]
  have corner : RowFilter.before pixel above known.length =
      (List.replicate pixel 0 ++ above)[known.length] := by
    rw [RowFilter.beforeShifted, List.getD_eq_getElem _ _ shifted]
  rw [guessed, left, corner, List.getD_eq_getElem _ _ inside, rebuiltBehind,
    List.drop_eq_getElem_cons window, List.drop_eq_getElem_cons inside,
    List.drop_eq_getElem_cons shifted, rebuild, rebuiltBehind, List.length_append,
    List.length_singleton, ← List.append_assoc, List.drop_append_of_le_length window]

section Rows
variable {kind : RowFilter} {pixel : Nat} (positive : 0 < pixel) {above : Bytes}
include positive

/- What the byte behind those known is rebuilt to. -/
theorem byteRestored {known rest : Bytes} {b : UInt8}
    (stored : known.length < (kind.apply pixel above (known ++ b :: rest)).length) :
    (kind.apply pixel above (known ++ b :: rest))[known.length] +
      guessed kind.guess pixel above known = b := by
  simp only [RowFilter.apply, List.getElem_mapIdx, RowFilter.beforeAppend positive, guessed,
    guessEstimate, List.getElem_append_right, Nat.le_refl, Nat.sub_self, List.getElem_cons_zero]
  exact addedBack b _

/- The induction is on the bytes still to be rebuilt. -/
theorem rebuildFrom (known rest : Bytes) (size : above.length = (known ++ rest).length) :
    rebuiltBehind kind.guess pixel above known
      ((kind.apply pixel above (known ++ rest)).drop known.length) = rest := by
  induction rest generalizing known with
  | nil =>
    have ended : (kind.apply pixel above (known ++ [])).drop known.length = [] := by
      rw [List.append_nil, ← RowFilter.applyLength kind pixel above known, List.drop_length]
    rw [ended, rebuiltNil]
  | cons b rest ih =>
    have inside : known.length < above.length := by
      rw [size, List.length_append, List.length_cons]
      omega
    have stored : known.length < (kind.apply pixel above (known ++ b :: rest)).length := by
      rw [RowFilter.applyLength, ← size]
      exact inside
    have tail := ih (known ++ [b]) (by rw [size, List.append_assoc]; rfl)
    rw [List.length_append, List.length_singleton, List.append_assoc, List.singleton_append] at tail
    rw [List.drop_eq_getElem_cons stored, rebuiltNext positive _ inside,
      byteRestored positive stored, tail]

theorem rebuildRowApplied {row : Bytes} (size : above.length = row.length) :
    rebuildRow kind.guess pixel above (kind.apply pixel above row) = row := by
  rw [rebuildRowBehind]
  exact rebuildFrom positive [] row size

end Rows

theorem piecesCons {size : Nat} {bs : Bytes} (b : UInt8) (whole : bs.length = size)
    (rest : Bytes) : pieces size (b :: bs ++ rest) = (b :: bs) :: pieces size rest := by
  rw [List.cons_append, pieces, List.take_left' whole, List.drop_left' whole]

theorem decodeRowsFiltered {row pixel : Nat} (positive : 0 < pixel) {above : Bytes}
    (size : above.length = row) (rows : List (RowFilter × Bytes))
    (whole : ∀ r ∈ rows, r.2.length = row) :
    decodeRows row pixel above (pieces row (filterRows pixel above rows)) =
      .ok (rows.flatMap Prod.snd) := by
  induction rows generalizing above with
  | nil => rw [filterRows, pieces, decodeRows, List.flatMap_nil]
  | cons r rest ih =>
    obtain ⟨kind, bytes⟩ := r
    have full : bytes.length = row := whole _ List.mem_cons_self
    have stored : (kind.apply pixel above bytes).length = row :=
      (kind.applyLength pixel above bytes).trans full
    have filled : kind.apply pixel above bytes ++
        List.replicate (row - (kind.apply pixel above bytes).length) 0 =
          kind.apply pixel above bytes := by
      rw [stored, Nat.sub_self, List.replicate_zero, List.append_nil]
    rw [filterRows, piecesCons _ stored, decodeRows]
    simp only [ofTagTag, filled, rebuildRowApplied positive (size.trans full.symm),
      ih full fun r mem => whole r (List.mem_cons_of_mem _ mem)]
    rfl

theorem decodePngRows {p : DecodeParameters} {row pixel : Nat} {data : Bytes}
    (rowBytes : p.rowBytes = .ok row) (pixelBytes : p.pixelBytes = .ok pixel)
    (long : row < data.length) :
    decodePng p data = decodeRows row pixel (List.replicate row 0) (pieces row data) := by
  have nonempty : ¬ data.isEmpty = true := by
    rw [List.isEmpty_iff_length_eq_zero]
    omega
  simp only [decodePng, if_neg nonempty, rowBytes, pixelBytes, bind, Except.bind,
    if_neg (Nat.not_le.mpr long)]

theorem decodePredicted {p : DecodeParameters} (predictor : 10 ≤ p.predictor ∧ p.predictor ≤ 15)
    (data : Bytes) : decode p data = decodePng p data := by
  rw [decode, if_neg (by omega), if_neg (by omega), if_pos predictor]

theorem decodeFiltered (p : DecodeParameters) (predictor : 10 ≤ p.predictor ∧ p.predictor ≤ 15)
    (positive : 0 < p.colors ∧ 0 < p.bits ∧ 0 < p.columns)
    (fits : p.colors.toNat * p.bits.toNat * p.columns.toNat < 2 ^ 64) :
    let pixel := (p.colors.toNat * p.bits.toNat + 7) / 8
    let row := (p.colors.toNat * p.bits.toNat * p.columns.toNat + 7) / 8
    ∀ rows : List (RowFilter × Bytes), (∀ r ∈ rows, r.2.length = row) →
      decode p (filterRows pixel (List.replicate row 0) rows) = .ok (rows.flatMap Prod.snd) := by
  intro pixel row rows whole
  have sized : p.Sized := ⟨Nat.mul_pos (Nat.mul_pos positive.1 positive.2.1) positive.2.2, fits⟩
  rw [decodePredicted predictor]
  cases rows with
  | nil => rfl
  | cons r rest =>
    have long : row < (filterRows pixel (List.replicate row 0) (r :: rest)).length := by
      have first := whole r List.mem_cons_self
      simp only [filterRows, List.length_append, List.length_cons, RowFilter.applyLength, first]
      omega
    rw [decodePngRows (DecodeParameters.sizedRow sized) (DecodeParameters.sizedPixelBytes sized)
      long]
    exact decodeRowsFiltered (DecodeParameters.pixelPositive sized) List.length_replicate _ whole

/- Two rows of three pixels of twelve bits, the second one under the filter that looks at all three
neighbours. -/
theorem decodeFilteredTwelveBits :
    let p : DecodeParameters := { predictor := 15, colors := 3, bits := 4, columns := 3 }
    let rows : List (RowFilter × Bytes) :=
      [(.average, [200, 17, 3, 90, 255]), (.paeth, [1, 250, 66, 91, 128])]
    (10 ≤ p.predictor ∧ p.predictor ≤ 15) ∧ (0 < p.colors ∧ 0 < p.bits ∧ 0 < p.columns) ∧
    p.colors.toNat * p.bits.toNat * p.columns.toNat < 2 ^ 64 ∧ (∀ r ∈ rows, r.2.length = 5) ∧
    filterRows 2 [0, 0, 0, 0, 0] rows = [3, 200, 17, 159, 82, 254, 4, 57, 233, 65, 97, 129] ∧
    decode p (filterRows 2 [0, 0, 0, 0, 0] rows) =
      .ok [200, 17, 3, 90, 255, 1, 250, 66, 91, 128] := by
  intro p rows
  have predictor : 10 ≤ p.predictor ∧ p.predictor ≤ 15 := by decide
  have positive : 0 < p.colors ∧ 0 < p.bits ∧ 0 < p.columns := by decide
  have fits : p.colors.toNat * p.bits.toNat * p.columns.toNat < 2 ^ 64 := by decide
  have whole : ∀ r ∈ rows, r.2.length = 5 := by decide
  have pixel : (p.colors.toNat * p.bits.toNat + 7) / 8 = 2 := by decide
  have row : (p.colors.toNat * p.bits.toNat * p.columns.toNat + 7) / 8 = 5 := by decide
  -- the sizes are closed terms, but unfolding them inside the goal is slow
  have decoded := decodeFiltered p predictor positive fits rows
  rw [pixel, row] at decoded
  exact ⟨predictor, positive, fits, whole, by decide, decoded whole⟩

end Prediction
end PaintedImages
