import PaintedImages.Fault

/-! LZW data: codes of 9 to 12 bits, most significant bit first. Codes below 256 are bytes, 256
clears the table, 257 ends the data, and every code after the first since a clear adds an entry: the
text of the code before it and one byte more. Data without an end code is invalid. -/
namespace PaintedImages.Lzw

def clearCode : Nat := 256
def endCode : Nat := 257
def firstFree : Nat := 258
def tableLimit : Nat := 4096

def text (table : Array Bytes) (code : Nat) : Option Bytes :=
  if code < 256 then some [UInt8.ofNat code]
  else if code < firstFree then none
  else table[code - firstFree]?

/-- How many bits the next code has. The width grows when the table reaches a power of two, or
with `early` one entry before that. -/
def width (early : Bool) (table : Array Bytes) : Nat :=
  let next := firstFree + table.size + (if early then 1 else 0)
  if next < 512 then 9 else if next < 1024 then 10 else if next < 2048 then 11 else 12

def bits (input : Bytes) : List Bool :=
  input.flatMap fun b => (List.range 8).map fun i => b.toNat.testBit (7 - i)

def number (bs : List Bool) : Nat := bs.foldl (fun n b => n * 2 + b.toNat) 0

def run (early : Bool) : (fuel : Nat) → (previous : Option Bytes) → (table : Array Bytes) →
    List Bool → Except DecodeFault Bytes
  | 0, _, _, _ => .error .lzwCode
  | fuel + 1, previous, table, input =>
    let w := width early table
    let digits := input.take w
    if digits.length < w then .error .lzwCode
    else
      let code := number digits
      let rest := input.drop w
      if code = clearCode then run early fuel none #[] rest
      else if code = endCode then .ok []
      else match previous with
        | none =>
          if code < 256 then
            (run early fuel (some [UInt8.ofNat code]) table rest).map (UInt8.ofNat code :: ·)
          else .error .lzwCode
        | some old =>
          let open? := firstFree + table.size < tableLimit
          let found := match text table code with
            | some t => some t
            | none =>
              if open? ∧ code = firstFree + table.size then some (old ++ old.take 1) else none
          match found with
          | none => .error .lzwCode
          | some t =>
            let table := if open? then table.push (old ++ t.take 1) else table
            (run early fuel (some t) table rest).map (t ++ ·)

def decode (early : Bool) (input : Bytes) : Except DecodeFault Bytes :=
  run early (input.length + 1) none #[] (bits input)

end PaintedImages.Lzw
