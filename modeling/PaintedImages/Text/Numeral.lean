/-! Digits and what they write: decimal numerals of unsigned 32-bit numbers, as users type them,
hexadecimal digits of either case, and numbers padded to a width. -/
namespace PaintedImages.Numeral

def value (cs : List Char) : Nat := cs.foldl (fun n c => n * 10 + (c.toNat - 48)) 0

def hexValue (c : Char) : Option Nat :=
  if c.isDigit then some (c.toNat - 48)
  else if 'A' ≤ c ∧ c ≤ 'F' then some (c.toNat - 55)
  else if 'a' ≤ c ∧ c ≤ 'f' then some (c.toNat - 87)
  else none

def natural (cs : List Char) : Option Nat :=
  if cs.isEmpty || !cs.all Char.isDigit then none else some (value cs)

def word (cs : List Char) : Option UInt32 := do
  let n ← natural (match cs with | '+' :: rest => rest | _ => cs)
  if n < UInt32.size then some (UInt32.ofNat n) else none

def padded (width n : Nat) : String :=
  let digits := Nat.toDigits 10 n
  String.ofList (List.replicate (width - digits.length) '0' ++ digits)

end PaintedImages.Numeral
