import PaintedImages.Filter.RunLength
import PaintedImages.Proofs.Outcomes

/-! Run-length data is read exactly when it is made of complete runs. The grammar is a relation
between an input and the bytes it gives, told by length bytes; the data of a run may be any bytes,
the end mark among them. A writer has runs of bytes instead and picks the length bytes, so what it
writes, ended or not, is in the grammar. -/
namespace PaintedImages.RunLength

/- Complete runs up to the end of the data, and the bytes they give. -/
inductive Complete : Bytes → Bytes → Prop where
  | spent : Complete [] []
  | ended (rest : Bytes) : Complete (128 :: rest) []
  | literal {n : UInt8} {copied input output : Bytes} (low : n.toNat ≤ 127)
      (size : copied.length = n.toNat + 1) (next : Complete input output) :
      Complete (n :: (copied ++ input)) (copied ++ output)
  | repeated {n : UInt8} (b : UInt8) {input output : Bytes} (high : 129 ≤ n.toNat)
      (next : Complete input output) :
      Complete (n :: b :: input) (List.replicate (257 - n.toNat) b ++ output)

theorem lengthLow {n : UInt8} : n < 128 ↔ n.toNat ≤ 127 :=
  UInt8.lt_iff_toNat_lt.trans Nat.lt_succ_iff

theorem lengthHigh {n : UInt8} (notEnd : n ≠ 128) : ¬ n < 128 ↔ 129 ≤ n.toNat := by
  have other : n.toNat ≠ 128 := fun same => notEnd (UInt8.toNat_inj.mp same)
  rw [lengthLow]
  omega

theorem completeRead {input output : Bytes} (complete : Complete input output) :
    decode input = .ok output := by
  induction complete with
  | spent => unfold decode; rfl
  | ended rest => unfold decode; rfl
  | @literal n copied input output low size next ih =>
    have notEnd : n ≠ 128 := by rintro rfl; contradiction
    have taken : (copied ++ input).take (n.toNat + 1) = copied := by rw [← size, List.take_left]
    have left : (copied ++ input).drop (n.toNat + 1) = input := by rw [← size, List.drop_left]
    unfold decode
    simp only [if_neg notEnd, if_pos (lengthLow.mpr low), taken, left, size, Nat.lt_irrefl,
      if_false, ih]
    rfl
  | @repeated n b input output high next ih =>
    have notEnd : n ≠ 128 := by rintro rfl; contradiction
    unfold decode
    simp only [if_neg notEnd, if_neg ((lengthHigh notEnd).mpr high), ih]
    rfl

theorem readComplete {input output : Bytes} (ok : decode input = .ok output) :
    Complete input output := by
  fun_induction decode input generalizing output with
  | case1 =>
    cases Except.ok.inj ok
    exact .spent
  | case2 rest =>
    cases Except.ok.inj ok
    exact .ended rest
  | case3 => contradiction
  | case4 n rest notEnd below count enough =>
    rename_i ih
    obtain ⟨more, found, rfl⟩ := mapOk ok
    have size : (rest.take count).length = count :=
      Nat.le_antisymm (List.length_take_le count rest) (Nat.not_lt.mp enough)
    have whole := Complete.literal (lengthLow.mp below) size (ih found)
    rwa [List.take_append_drop] at whole
  | case5 => contradiction
  | case6 n notEnd above b rest ih =>
    obtain ⟨more, found, rfl⟩ := mapOk ok
    exact .repeated b ((lengthHigh notEnd).mp above) (ih found)

/- What a writer puts out in one go. -/
inductive Run where
  | literal (bytes : Bytes) (any : 1 ≤ bytes.length) (few : bytes.length ≤ 128)
  | repeated (count : Nat) (b : UInt8) (two : 2 ≤ count) (few : count ≤ 128)

namespace Run

def written : Run → Bytes
  | literal bytes _ _ => UInt8.ofNat (bytes.length - 1) :: bytes
  | repeated count b _ _ => [UInt8.ofNat (257 - count), b]

def expanded : Run → Bytes
  | literal bytes _ _ => bytes
  | repeated count b _ _ => List.replicate count b

theorem complete (run : Run) {input output : Bytes} (next : Complete input output) :
    Complete (run.written ++ input) (run.expanded ++ output) := by
  cases run with
  | literal bytes any few =>
    have number : (UInt8.ofNat (bytes.length - 1)).toNat = bytes.length - 1 := by
      rw [UInt8.toNat_ofNat']
      omega
    exact .literal (by omega) (by omega) next
  | repeated count b two few =>
    have number : (UInt8.ofNat (257 - count)).toNat = 257 - count := by
      rw [UInt8.toNat_ofNat']
      omega
    have same : 257 - (UInt8.ofNat (257 - count)).toNat = count := by omega
    have whole := Complete.repeated (n := UInt8.ofNat (257 - count)) b (by omega) next
    rwa [same] at whole

end Run

theorem writtenComplete (runs : List Run) {tail : Bytes} (ended : Complete tail []) :
    Complete (runs.flatMap Run.written ++ tail) (runs.flatMap Run.expanded) := by
  induction runs with
  | nil => exact ended
  | cons run runs ih =>
    rw [List.flatMap_cons, List.flatMap_cons, List.append_assoc]
    exact run.complete ih

theorem decodeRuns (input output : Bytes) (runs : List Run) (rest : Bytes) :
    (decode input = .ok output ↔ Complete input output) ∧
    decode (runs.flatMap Run.written) = .ok (runs.flatMap Run.expanded) ∧
    decode (runs.flatMap Run.written ++ 128 :: rest) = .ok (runs.flatMap Run.expanded) := by
  refine ⟨⟨readComplete, completeRead⟩, ?_, completeRead (writtenComplete runs (.ended rest))⟩
  have whole := writtenComplete runs .spent
  rw [List.append_nil] at whole
  exact completeRead whole

end PaintedImages.RunLength
