import PaintedImages.Fault

/-! Run-length data. A length byte below 128 precedes that many bytes and one more, to be taken as
they are; one above 128 precedes a byte to be repeated 257 minus that many times; 128 ends the
data, as does the end of the input. -/
namespace PaintedImages.RunLength

def decode (input : Bytes) : Except DecodeFault Bytes :=
  match input with
  | [] => .ok []
  | length :: rest =>
    if length = 128 then .ok []
    else if length < 128 then
      let count := length.toNat + 1
      if (rest.take count).length < count then .error (.literalRun count)
      else (decode (rest.drop count)).map (rest.take count ++ ·)
    else match rest with
      | [] => .error .repeatedByte
      | b :: rest => (decode rest).map (List.replicate (257 - length.toNat) b ++ ·)
termination_by input.length
decreasing_by
  · simp only [List.length_drop, List.length_cons]
    omega
  · simp only [List.length_cons]
    omega

end PaintedImages.RunLength
