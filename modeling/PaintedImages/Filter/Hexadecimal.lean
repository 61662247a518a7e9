import PaintedImages.Fault

/-! Hexadecimal text: two digits a byte, blanks between them ignored, `>` at the end. A last digit
that stands alone is the high half of a byte. -/
namespace PaintedImages.Hexadecimal

def run (high : Option UInt8) : Bytes → Except DecodeFault Bytes
  | [] => .ok ((high.map (· * 16)).toList)
  | b :: rest =>
    if b = 62 then .ok ((high.map (· * 16)).toList)
    else if Bytes.isBlank b then run high rest
    else match Bytes.hexValue b, high with
      | none, _ => .error (.hexDigit b)
      | some digit, none => run (some digit) rest
      | some digit, some first => (run none rest).map ((first * 16 + digit) :: ·)

def decode (input : Bytes) : Except DecodeFault Bytes := run none input

end PaintedImages.Hexadecimal
