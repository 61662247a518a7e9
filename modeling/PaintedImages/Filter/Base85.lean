import PaintedImages.Fault

/-! Base-85 text: five digits from `!` to `u` are four bytes, `z` between groups is four zero bytes,
and `~` ends the data. A last group of two to four digits is completed with the digit 84 and gives
one byte less than it has digits. -/
namespace PaintedImages.Base85

def value (digits : List UInt8) : Nat := digits.foldl (fun n d => n * 85 + d.toNat) 0

def word (digits : List UInt8) : Except DecodeFault Bytes :=
  if value digits < UInt32.size then .ok (Bytes.ofNat 4 (value digits)) else .error .base85Overflow

def finish (group : List UInt8) : Except DecodeFault Bytes :=
  match group.length with
  | 0 => .ok []
  | 1 => .error .base85Single
  | n => (word (group ++ List.replicate (5 - n) 84)).map (·.take (n - 1))

def run (group : List UInt8) : Bytes → Except DecodeFault Bytes
  | [] => finish group
  | b :: rest =>
    if b = 126 then finish group
    else if b = 122 then
      if group.isEmpty then (run [] rest).map ([0, 0, 0, 0] ++ ·) else .error .base85Zeros
    else if 33 ≤ b ∧ b ≤ 117 then
      if group.length = 4 then do
        let bytes ← word (group ++ [b - 33])
        let more ← run [] rest
        .ok (bytes ++ more)
      else run (group ++ [b - 33]) rest
    else if Bytes.isBlank b then run group rest
    else .error (.base85Character b)

/-- A leading `<~` is part of the frame, not of the data. -/
def decode (input : Bytes) : Except DecodeFault Bytes :=
  run [] ((Bytes.strip [60, 126] input).getD input)

end PaintedImages.Base85
