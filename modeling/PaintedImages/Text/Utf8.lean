import PaintedImages.Bytes

/-! Reading bytes as UTF-8. A malformed sequence is replaced as a whole: the longest start of a
well-formed character that stands there becomes one replacement character, and reading resumes at
the first byte that could not continue it. -/
namespace PaintedImages.Utf8

def encode (s : String) : Bytes := s.toList.flatMap String.utf8EncodeChar

/-- What a first byte promises: how many bytes continue it, the bounds of the next one, and the
bits it contributes. Overlong forms, surrogates and values past the last code point are excluded by
the bounds. -/
structure Lead where
  more : Nat
  low : UInt8
  high : UInt8
  bits : Nat
  deriving DecidableEq, Repr

def lead (b : UInt8) : Option Lead :=
  if b < 0x80 then some ⟨0, 0x80, 0xBF, b.toNat⟩
  else if b < 0xC2 then none
  else if b < 0xE0 then some ⟨1, 0x80, 0xBF, b.toNat - 0xC0⟩
  else if b = 0xE0 then some ⟨2, 0xA0, 0xBF, 0⟩
  else if b = 0xED then some ⟨2, 0x80, 0x9F, 13⟩
  else if b < 0xF0 then some ⟨2, 0x80, 0xBF, b.toNat - 0xE0⟩
  else if b = 0xF0 then some ⟨3, 0x90, 0xBF, 0⟩
  else if b < 0xF4 then some ⟨3, 0x80, 0xBF, b.toNat - 0xF0⟩
  else if b = 0xF4 then some ⟨3, 0x80, 0x8F, 4⟩
  else none

def follow : (more : Nat) → (low high : UInt8) → (bits : Nat) → Bytes → Option Char × Bytes
  | 0, _, _, bits, bs => (some (Char.ofNat bits), bs)
  | _ + 1, _, _, _, [] => (none, [])
  | more + 1, low, high, bits, b :: bs =>
    if low ≤ b ∧ b ≤ high then follow more 0x80 0xBF (bits * 64 + b.toNat % 64) bs
    else (none, b :: bs)

theorem followShrinks (more : Nat) (low high : UInt8) (bits : Nat) (bs : Bytes) :
    (follow more low high bits bs).2.length ≤ bs.length := by
  induction more generalizing low high bits bs with
  | zero => simp [follow]
  | succ more ih =>
    cases bs with
    | nil => simp [follow]
    | cons b bs =>
      simp only [follow]
      split
      · exact Nat.le_trans (ih ..) (by simp)
      · simp

def scan (bs : Bytes) : List (Option Char) :=
  match bs with
  | [] => []
  | b :: rest =>
    match lead b with
    | none => none :: scan rest
    | some l =>
      (follow l.more l.low l.high l.bits rest).1 ::
        scan (follow l.more l.low l.high l.bits rest).2
termination_by bs.length
decreasing_by
  · simp
  · simp only [List.length_cons]
    exact Nat.lt_succ_of_le (followShrinks ..)

def lossy (bs : Bytes) : String := String.ofList ((scan bs).map (·.getD '\uFFFD'))

def decode (bs : Bytes) : Option String := ((scan bs).mapM id).map String.ofList

end PaintedImages.Utf8
