import PaintedImages.Proofs.CutRows
import PaintedImages.Proofs.GuardedPrediction

/-! Rows rebuilt where they stand. Going over the places of a row from left to right, each byte is
read before and after the place within the row and the row above; what comes out is the row as it is
rebuilt from lists. A row that is no wider than a pixel stays as it is stored. -/
namespace PaintedImages.Guarded
open Prediction

/- In the first pixel nothing stands to the left. -/
theorem firstPixelIdle {pixel : Nat} (above known : Bytes) (first : known.length < pixel) :
    guessed RowFilter.sub.guess pixel above known = 0 :=
  if_pos first

section Places
variable {g : Guess} {pixel : Nat} (positive : 0 < pixel) {above : Bytes}
include positive

/- Places where the guess is zero stay as they are. -/
theorem rebuiltIdle {stop : Nat}
    (idle : ∀ known : Bytes, known.length < stop → guessed g pixel above known = 0)
    (known front rest : Bytes) (within : known.length + front.length ≤ stop)
    (inside : known.length + front.length ≤ above.length) :
    rebuiltBehind g pixel above known (front ++ rest) =
      front ++ rebuiltBehind g pixel above (known ++ front) rest := by
  induction front generalizing known with
  | nil => rw [List.nil_append, List.nil_append, List.append_nil]
  | cons d front ih =>
    rw [List.length_cons] at within inside
    have zero := idle known (by omega)
    have length : (known ++ [d]).length = known.length + 1 := List.length_append
    rw [List.cons_append, rebuiltNext positive d (by omega), zero, UInt8.add_zero,
      ih _ (by omega) (by omega), List.append_assoc, List.singleton_append, List.cons_append]

/- The induction is on the bytes still to be rebuilt: at each place the row stands rebuilt up to
there and as stored from there on. -/
theorem placesSwept (kind : RowFilter) {start : Nat}
    (added : ∀ known d rest, start ≤ known.length → (known ++ d :: rest).length = above.length →
      amount kind pixel above (known ++ d :: rest) known.length =
        .ok (guessed g pixel above known))
    (known rest : Bytes) (behind : start ≤ known.length)
    (length : (known ++ rest).length = above.length) :
    (List.range' known.length rest.length).foldlM (addAt kind pixel above) (known ++ rest) =
      .ok (known ++ rebuiltBehind g pixel above known rest) := by
  induction rest generalizing known with
  | nil =>
    rw [rebuiltNil]
    rfl
  | cons d rest ih =>
    have inside : known.length < (known ++ d :: rest).length := by
      rw [List.length_append, List.length_cons]
      omega
    have here : byteAt (known ++ d :: rest) known.length = .ok d := by
      rw [byteAtInside inside, List.getD_append_right _ _ _ _ (Nat.le_refl _), Nat.sub_self]
      rfl
    have put : setByte (known ++ d :: rest) known.length (d + guessed g pixel above known) =
        .ok ((known ++ [d + guessed g pixel above known]) ++ rest) := by
      rw [setByte, if_pos inside, List.set_append_right _ _ (Nat.le_refl _), Nat.sub_self,
        List.set_cons_zero, List.append_assoc]
      rfl
    have stepped : addAt kind pixel above (known ++ d :: rest) known.length =
        .ok ((known ++ [d + guessed g pixel above known]) ++ rest) := by
      rw [addAt, afterOk here, afterOk (added known d rest behind length), put]
    have grown : (known ++ [d + guessed g pixel above known]).length = known.length + 1 :=
      List.length_append
    have length' :
        ((known ++ [d + guessed g pixel above known]) ++ rest).length = above.length := by
      rw [List.length_append, grown, ← length, List.length_append, List.length_cons]
      omega
    have next := ih _ (by omega) length'
    rw [grown] at next
    rw [List.length_cons, List.range'_succ, List.foldlM_cons, afterOk stepped, next,
      rebuiltNext positive d (length ▸ inside), List.append_assoc, List.singleton_append]

theorem beforeGuarded {row : Bytes} {i : Nat} (inside : i < row.length)
    (held : row.length ≤ 2 ^ 64) :
    before pixel row i = .ok (RowFilter.before pixel row i) := by
  rw [before, RowFilter.before]
  by_cases first : i < pixel
  · rw [if_neg (Nat.not_le.mpr first), if_pos first]
  · have place : size ((i : Int) - pixel) = .ok _ := sizeWithin (by omega)
    have left : ((i : Int) - pixel).toNat = i - pixel := by omega
    rw [if_pos (Nat.le_of_not_lt first), if_neg first, afterOk place, left,
      byteAtInside (by omega)]

theorem amountGuarded {kind : RowFilter} {known rest : Bytes} {d : UInt8}
    (length : (known ++ d :: rest).length = above.length) (held : above.length ≤ 2 ^ 64)
    (behind : kind = .sub → pixel ≤ known.length) :
    amount kind pixel above (known ++ d :: rest) known.length =
      .ok (guessed kind.guess pixel above known) := by
  have inside : known.length < (known ++ d :: rest).length := by
    rw [List.length_append, List.length_cons]
    omega
  have leftGuarded := beforeGuarded positive inside (length ▸ held)
  have cornerGuarded := beforeGuarded positive (length ▸ inside) held
  have aboveGuarded := byteAtInside (length ▸ inside)
  rw [RowFilter.beforeAppend positive] at leftGuarded
  cases kind with
  | plain => rfl
  | sub => rwa [before, if_pos (behind rfl)] at leftGuarded
  | up => exact aboveGuarded
  | average => rw [amount, afterOk leftGuarded, afterOk aboveGuarded, averageGuarded]; rfl
  | paeth =>
    rw [amount, afterOk leftGuarded, afterOk aboveGuarded, afterOk cornerGuarded, paethGuarded]
    rfl

theorem rebuildRowIdle {row : Bytes} (length : row.length ≤ above.length)
    (idle : ∀ known : Bytes, known.length < row.length → guessed g pixel above known = 0) :
    rebuildRow g pixel above row = row := by
  have rebuilt := rebuiltIdle positive idle [] row [] (Nat.le_of_eq (Nat.zero_add _))
    (by rwa [List.length_nil, Nat.zero_add])
  rw [rebuildRowBehind]
  rwa [List.append_nil, rebuiltNil, List.append_nil] at rebuilt

theorem shortRowKept {row : Bytes} (length : row.length = above.length)
    (short : row.length ≤ pixel) : rebuildRow RowFilter.sub.guess pixel above row = row :=
  rebuildRowIdle positive (Nat.le_of_eq length) fun known inside =>
    firstPixelIdle above known (Nat.lt_of_lt_of_le inside short)

theorem sweepGuarded (kind : RowFilter) {row : Bytes} (length : row.length = above.length)
    (held : above.length ≤ 2 ^ 64) :
    sweep kind pixel above row.length row = .ok (rebuildRow kind.guess pixel above row) := by
  have fromStart (other : kind ≠ .sub) :
      (places 0 row.length).foldlM (addAt kind pixel above) row =
        .ok (rebuildRow kind.guess pixel above row) := by
    rw [rebuildRowBehind]
    exact placesSwept positive kind
      (fun _ _ _ _ length => amountGuarded positive length held fun same => absurd same other)
      [] row (Nat.zero_le _) length
  cases kind with
  | plain =>
    have kept : rebuildRow RowFilter.plain.guess pixel above row = row :=
      rebuildRowIdle positive (Nat.le_of_eq length) fun _ _ => rfl
    exact congrArg Except.ok kept.symm
  | sub =>
    rw [sweep, places]
    obtain short | long := Nat.le_total row.length pixel
    · rw [Nat.sub_eq_zero_of_le short, shortRowKept positive length short]
      rfl
    · -- the first pixel is passed over, which the list does by adding zeros
      have first : (row.take pixel).length = pixel := List.length_take_of_le long
      have swept := placesSwept positive .sub
        (fun _ _ _ behind length => amountGuarded positive length held fun _ => behind)
        (row.take pixel) (row.drop pixel) (Nat.le_of_eq first.symm)
        (by rwa [List.take_append_drop])
      have within : ([] : Bytes).length + (row.take pixel).length = pixel := by
        rw [first, List.length_nil, Nat.zero_add]
      have idle := rebuiltIdle positive (firstPixelIdle above) [] (row.take pixel)
        (row.drop pixel) (Nat.le_of_eq within) (by omega)
      rw [List.take_append_drop, List.nil_append] at idle
      rw [first, List.length_drop, List.take_append_drop] at swept
      rw [rebuildRowBehind, idle, swept]
  | up => exact fromStart (by decide)
  | average => exact fromStart (by decide)
  | paeth => exact fromStart (by decide)

end Places

theorem decodeRowsGuarded {row pixel : Nat} (positive : 0 < pixel) (held : row ≤ 2 ^ 64)
    {above : Bytes} (size : above.length = row) (output : Bytes) {chunks : List Bytes}
    (rows : ∀ r ∈ chunks, r ≠ [] ∧ r.length ≤ row + 1) :
    decodeRows row pixel above output chunks =
      ((Prediction.decodeRows row pixel above chunks).map (output ++ ·)).mapError .fault := by
  induction chunks generalizing above output with
  | nil =>
    rw [decodeRows, Prediction.decodeRows, Except.map, List.append_nil]
    rfl
  | cons chunk rest ih =>
    obtain ⟨⟨nonempty, short⟩, others⟩ := List.forall_mem_cons.mp rows
    obtain ⟨tag, stored, rfl⟩ := List.exists_cons_of_ne_nil nonempty
    have first : byteAt (tag :: stored) 0 = .ok tag := rfl
    have behind : bytesFrom 1 (tag :: stored) = .ok stored := if_pos (Nat.succ_pos _)
    rw [decodeRows, afterOk first, afterOk behind, Prediction.decodeRows]
    cases known : RowFilter.ofTag tag with
    | none => rfl
    | some kind =>
      have filled := filledLength (Nat.le_of_succ_le_succ short)
      have whole : resized row stored = stored ++ List.replicate (row - stored.length) 0 := by
        rw [resized, List.take_of_length_le (Nat.le_of_eq filled)]
      have swept := sweepGuarded positive kind (filled.trans size.symm) (size ▸ held)
      have rebuilt := rebuildRowLength kind.guess positive (size.trans filled.symm)
      rw [filled] at swept
      simp only [whole]
      rw [afterOk swept, ih (rebuilt.trans filled) _ others]
      cases Prediction.decodeRows row pixel _ rest with
      | error fault => rfl
      | ok others => exact congrArg Except.ok (List.append_assoc _ _ _)

end PaintedImages.Guarded
