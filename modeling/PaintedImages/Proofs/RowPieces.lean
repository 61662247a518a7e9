import PaintedImages.Proofs.RowFilters

/-! Data cut into rows. The pieces are all whole but perhaps the last one, the pieces of data parted
between two rows are those of both parts, and a row keeps its size when it is rebuilt. Which bytes a
row is rebuilt to is not looked at here. -/
namespace PaintedImages.Prediction

theorem piecesNil (size : Nat) : pieces size [] = [] := by
  rw [pieces]

theorem piecesFirst {size : Nat} {front : Bytes} (nonempty : front ≠ []) (rest : Bytes)
    (cut : front.length = size + 1 ∨ (front.length ≤ size + 1 ∧ rest = [])) :
    pieces size (front ++ rest) = front :: pieces size rest := by
  cases front with
  | nil => contradiction
  | cons b front =>
    obtain whole | ⟨short, rfl⟩ := cut
    · exact piecesCons b (Nat.succ.inj whole) rest
    · have inside : front.length ≤ size := Nat.le_of_succ_le_succ short
      rw [List.append_nil, piecesNil, pieces, List.take_of_length_le inside,
        List.drop_eq_nil_of_le inside, piecesNil]

/- Cutting the data itself at the first row, so that an induction can follow the pieces. -/
theorem rowsInduction {motive : Bytes → Prop} (size : Nat) (nil : motive [])
    (row : ∀ front rest : Bytes, front ≠ [] →
      (front.length = size + 1 ∨ (front.length ≤ size + 1 ∧ rest = [])) → motive rest →
      motive (front ++ rest)) (data : Bytes) : motive data := by
  induction data using pieces.induct size with
  | case1 => exact nil
  | case2 b rest ih =>
    have cut := row (b :: rest.take size) (rest.drop size) (List.cons_ne_nil _ _) ?_ ih
    · rwa [List.cons_append, List.take_append_drop] at cut
    · obtain short | long := Nat.le_total rest.length size
      · refine .inr ⟨?_, List.drop_eq_nil_of_le short⟩
        rw [List.length_cons, List.take_of_length_le short]
        omega
      · refine .inl ?_
        rw [List.length_cons, List.length_take_of_le long]

theorem piecesSizes (size : Nat) (data : Bytes) :
    ∀ r ∈ pieces size data, r ≠ [] ∧ r.length ≤ size + 1 := by
  induction data using rowsInduction size with
  | nil =>
    rw [piecesNil]
    exact List.forall_mem_nil _
  | row front rest nonempty cut ih =>
    rw [piecesFirst nonempty rest cut, List.forall_mem_cons]
    exact ⟨⟨nonempty, by omega⟩, ih⟩

theorem piecesCount (size : Nat) (data : Bytes) :
    (pieces size data).length = (data.length + size) / (size + 1) := by
  induction data using rowsInduction size with
  | nil =>
    rw [piecesNil, List.length_nil, List.length_nil, Nat.zero_add,
      Nat.div_eq_of_lt (Nat.lt_succ_self size)]
  | row front rest nonempty cut ih =>
    rw [piecesFirst nonempty rest cut, List.length_cons, ih, List.length_append]
    obtain whole | ⟨short, rfl⟩ := cut
    · rw [whole, Nat.add_assoc, Nat.add_div_left _ (Nat.succ_pos size)]
    · have positive : 0 < front.length := List.length_pos_iff.mpr nonempty
      rw [List.length_nil, Nat.add_zero, Nat.zero_add,
        Nat.div_eq_of_lt (Nat.lt_succ_self size)]
      exact (Nat.div_eq_of_lt_le (by omega) (by omega)).symm

theorem piecesAppend {size : Nat} {front : Bytes} (whole : front.length % (size + 1) = 0)
    (rest : Bytes) : pieces size (front ++ rest) = pieces size front ++ pieces size rest := by
  induction front using rowsInduction size with
  | nil => rw [piecesNil, List.nil_append, List.nil_append]
  | row first others nonempty cut ih =>
    -- a whole number of rows leaves no short one at the end
    have full : first.length = size + 1 := by
      obtain full | ⟨short, rfl⟩ := cut
      · exact full
      · rw [List.append_nil] at whole
        have positive : 0 < first.length := List.length_pos_iff.mpr nonempty
        exact Nat.le_antisymm short (Nat.le_of_dvd positive (Nat.dvd_of_mod_eq_zero whole))
    rw [List.length_append, full, Nat.add_mod_left] at whole
    rw [List.append_assoc, piecesFirst nonempty _ (.inl full), piecesFirst nonempty _ cut, ih whole,
      List.cons_append]

/- The whole rows of any data, and what it has of one more. -/
theorem wholeRowsParted (size : Nat) (data : Bytes) :
    ∃ full part, data = full ++ part ∧ full.length % (size + 1) = 0 ∧
      (pieces size full).length = data.length / (size + 1) ∧
      part.length = data.length % (size + 1) := by
  have within : data.length / (size + 1) * (size + 1) ≤ data.length := Nat.div_mul_le_self _ _
  have even : (data.take (data.length / (size + 1) * (size + 1))).length =
      data.length / (size + 1) * (size + 1) := List.length_take_of_le within
  refine ⟨data.take (data.length / (size + 1) * (size + 1)),
    data.drop (data.length / (size + 1) * (size + 1)), (List.take_append_drop _ _).symm, ?_, ?_, ?_⟩
  · rw [even, Nat.mul_mod_left]
  · rw [piecesCount, even, Nat.mul_comm, Nat.mul_add_div (Nat.succ_pos size),
      Nat.div_eq_of_lt (Nat.lt_succ_self size), Nat.add_zero]
  · rw [List.length_drop, Nat.mod_eq_sub_div_mul]

theorem rebuiltLength (g : Guess) {pixel : Nat} (positive : 0 < pixel) {above : Bytes}
    (known stored : Bytes) (size : above.length = known.length + stored.length) :
    (rebuiltBehind g pixel above known stored).length = stored.length := by
  induction stored generalizing known with
  | nil => rw [rebuiltNil]
  | cons d stored ih =>
    rw [List.length_cons] at size
    rw [rebuiltNext positive d (by omega), List.length_cons, List.length_cons,
      ih _ (by rw [List.length_append, List.length_singleton]; omega)]

theorem rebuildRowLength (g : Guess) {pixel : Nat} (positive : 0 < pixel) {above stored : Bytes}
    (size : above.length = stored.length) :
    (rebuildRow g pixel above stored).length = stored.length := by
  rw [rebuildRowBehind]
  exact rebuiltLength g positive [] stored (by rw [size, List.length_nil, Nat.zero_add])

end PaintedImages.Prediction
