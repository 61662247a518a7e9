import PaintedImages.Bytes

/-! Base 64 with the standard alphabet, in its one canonical form: padding is required and the bits
that no byte uses are zero. Reading reports the first defect by the rule it breaks; offsets count
bytes of the text. -/
namespace PaintedImages.Base64

inductive Fault where
  | symbol (byte : UInt8) (offset : Nat)
  | size (length : Nat)
  | padding
  | leftover (byte : UInt8) (offset : Nat)
  deriving DecidableEq, Repr

def Fault.message : Fault → String
  | .symbol byte offset => s!"Invalid symbol {byte.toNat}, offset {offset}."
  | .size length => s!"Invalid input length: {length}"
  | .padding => "Invalid padding"
  | .leftover byte offset => s!"Invalid last symbol {byte.toNat}, offset {offset}."

def pad : UInt8 := 61

def symbol (n : Nat) : UInt8 :=
  if n < 26 then UInt8.ofNat (65 + n)
  else if n < 52 then UInt8.ofNat (71 + n)
  else if n < 62 then UInt8.ofNat (n - 4)
  else if n = 62 then 43 else 47

def value (b : UInt8) : Option Nat :=
  if 65 ≤ b ∧ b ≤ 90 then some (b.toNat - 65)
  else if 97 ≤ b ∧ b ≤ 122 then some (b.toNat - 71)
  else if 48 ≤ b ∧ b ≤ 57 then some (b.toNat + 4)
  else if b = 43 then some 62
  else if b = 47 then some 63
  else none

def encode : Bytes → Bytes
  | a :: b :: c :: rest =>
    let n := Bytes.bigEndian [a, b, c]
    symbol (n >>> 18) :: symbol (n >>> 12 % 64) :: symbol (n >>> 6 % 64) :: symbol (n % 64) ::
      encode rest
  | [a, b] =>
    let n := Bytes.bigEndian [a, b] * 4
    [symbol (n >>> 12), symbol (n >>> 6 % 64), symbol (n % 64), pad]
  | [a] =>
    let n := a.toNat * 16
    [symbol (n >>> 6), symbol (n % 64), pad, pad]
  | [] => []

def values (offset : Nat) : Bytes → Except Fault (List Nat)
  | [] => .ok []
  | b :: rest =>
    match value b with
    | none => .error (.symbol b offset)
    | some n => do
      let ns ← values (offset + 1) rest
      .ok (n :: ns)

def join : List Nat → Bytes
  | a :: b :: c :: d :: rest =>
    Bytes.ofNat 3 (a <<< 18 + b <<< 12 + c <<< 6 + d) ++ join rest
  | _ => []

def tail (start : Nat) (group : Bytes) : Except Fault (List (UInt8 × Nat) × Nat) :=
  let rec go (place : Nat) (pads : Option (Nat × Nat)) (found : List (UInt8 × Nat)) :
      Bytes → Except Fault (List (UInt8 × Nat) × Nat)
    | [] => .ok (found.reverse, (pads.map Prod.snd).getD 0)
    | b :: rest =>
      if b = pad then
        if place < 2 then .error (.symbol b (start + place))
        else go (place + 1) (some ((pads.map Prod.fst).getD place, (pads.map Prod.snd).getD 0 + 1))
          found rest
      else match pads with
        | some (first, _) => .error (.symbol pad (start + first))
        | none =>
          match value b with
          | none => .error (.symbol b (start + place))
          | some n => go (place + 1) none ((b, n) :: found) rest
  go 0 none [] group

def finish : List Nat → Bytes × Nat
  | [a, b] => ([UInt8.ofNat ((a * 64 + b) / 16)], b % 16)
  | [a, b, c] => (Bytes.ofNat 2 ((a * 64 * 64 + b * 64 + c) / 4), c % 4)
  | ns => (join ns, 0)

def lastGroup (start : Nat) (group : Bytes) : Except Fault Bytes := do
  let (found, pads) ← tail start group
  if found.length < 2 ∧ !group.isEmpty then throw (.size (start + found.length))
  if (found.length + pads) % 4 ≠ 0 then throw .padding
  let (bytes, bits) := finish (found.map Prod.snd)
  match found.getLast? with
  | some (b, _) => if bits = 0 then .ok bytes else .error (.leftover b (start + found.length - 1))
  | none => .ok bytes

def tailLength (size : Nat) : Nat := if size % 4 = 0 then min 4 size else size % 4

def decode (text : Bytes) : Except Fault Bytes := do
  let start := text.length - tailLength text.length
  match text.length % 4 == 1, text.getLast? with
  | true, some b => if b ≠ pad ∧ (value b).isNone then throw (.symbol b start)
  | _, _ => pure ()
  let ns ← values 0 (text.take start)
  let last ← lastGroup start (text.drop start)
  .ok (join ns ++ last)

end PaintedImages.Base64
