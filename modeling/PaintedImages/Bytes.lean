import PaintedImages.Text.Numeral

/-! Byte strings, the byte classes that several formats share, and hexadecimal text. Byte strings
are lists, so that a scanner is recursion on the bytes still unread. -/
namespace PaintedImages

abbrev Bytes := List UInt8

namespace Bytes

def ofText (s : String) : Bytes := s.toList.map fun c => UInt8.ofNat c.toNat

def toText (bs : Bytes) : String := String.ofList (bs.map fun b => Char.ofNat b.toNat)

def isBlank (b : UInt8) : Bool := b == 32 || b == 9 || b == 10 || b == 12 || b == 13

def isDigit (b : UInt8) : Bool := (Char.ofUInt8 b).isDigit

def isLetter (b : UInt8) : Bool := (65 ≤ b && b ≤ 90) || (97 ≤ b && b ≤ 122)

def hexValue (b : UInt8) : Option UInt8 := (Numeral.hexValue (Char.ofUInt8 b)).map UInt8.ofNat

def hexDigit (n : Nat) : Char := if n < 10 then Char.ofNat (48 + n) else Char.ofNat (87 + n)

def hex (bs : Bytes) : String :=
  String.ofList (bs.flatMap fun b => [hexDigit (b.toNat / 16), hexDigit (b.toNat % 16)])

def bigEndian (bs : Bytes) : Nat := bs.foldl (fun n b => n * 256 + b.toNat) 0

def ofNat : (width : Nat) → Nat → Bytes
  | 0, _ => []
  | width + 1, n => ofNat width (n / 256) ++ [UInt8.ofNat n]

def decimal (bs : Bytes) : Nat := Numeral.value (bs.map Char.ofUInt8)

def strip : (start : Bytes) → Bytes → Option Bytes
  | [], bs => some bs
  | _ :: _, [] => none
  | x :: start, b :: bs => if x = b then strip start bs else none

theorem stripSplits {start bs rest : Bytes} : strip start bs = some rest ↔ bs = start ++ rest := by
  induction start generalizing bs with
  | nil => simp [strip, eq_comm]
  | cons x start ih =>
    cases bs with
    | nil => simp [strip]
    | cons b bs =>
      by_cases h : x = b
      · simp [strip, h, ih]
      · simp [strip, h, Ne.symm h]

theorem ofNatLength (width n : Nat) : (ofNat width n).length = width := by
  induction width generalizing n with
  | zero => rfl
  | succ width ih => simp [ofNat, ih]

end Bytes
end PaintedImages
