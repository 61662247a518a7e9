import PaintedImages.Document.Syntax
import PaintedImages.PageSource

/-! Reading content streams: operators, each after its operands. Reading ends without a word at the
first thing that is no operation; only an inline image that is not one spoils the stream. -/
namespace PaintedImages.Content
open Syntax

def blanks (bs : Bytes) : Bytes := bs.dropWhile fun b => [32, 9, 13, 10].contains b

def comments (bs : Bytes) : Bytes :=
  match _h : comment bs with
  | some rest => comments rest
  | none => bs
termination_by bs.length
decreasing_by exact commentShrinks _h

def operand (o : Object) : Operand :=
  match o with
  | .integer n => .integer n
  | .real bits => .real bits
  | .name n => .name n
  | .string s => .string s
  | .array items => .array (items.attach.map fun ⟨o, _⟩ => operand o)
  | _ => .other

def readOperand (bs : Bytes) : Option (Object × Bytes) :=
  firstOf (constants ++ simple ++
    [map .array (array (fuelFor bs)), map .dictionary readDictionary]) bs

def operands : (fuel : Nat) → Bytes → List Object × Bytes
  | 0, bs => ([], bs)
  | fuel + 1, bs =>
    match readOperand bs with
    | some (o, rest) =>
      let (os, rest) := operands fuel (blanks rest)
      (o :: os, rest)
    | none => ([], bs)

def isOperatorByte (b : UInt8) : Bool := Bytes.isLetter b || b == 42 || b == 39 || b == 34

def components (space : Bytes) : Option Nat :=
  ([("DeviceGray", 1), ("Gray", 1), ("DeviceRGB", 3), ("RGB", 3), ("DeviceRGBA", 4), ("RGBA", 4),
    ("DeviceCMYK", 4), ("CMYK", 4)].find? fun entry => Bytes.ofText entry.1 == space).map Prod.snd

def imageLength (d : Dictionary) : Option Nat := do
  let entry (short long : String) : Option Object :=
    (d.find? short).orElse fun _ => d.find? long
  let number (short long : String) : Option Nat := do
    let n ← (← entry short long).integer?
    if 0 ≤ n then some n.toNat else none
  if (entry "F" "Filter").isSome then none
  else
    let width ← number "W" "Width"
    let height ← number "H" "Height"
    let bits ← number "BPC" "BitsPerComponent"
    let colors ← components (← (← entry "CS" "ColorSpace").name?)
    some (height * ((width * colors * bits + 7) / 8))

def inlineImage (bs : Bytes) : Option Bytes := do
  let bs := blanks bs
  let (d, bs) := entries (fuelFor bs) [] bs
  let bs := blanks (← token "ID" bs)
  let length ← imageLength d
  if (bs.take length).length < length then none
  else
    let bs ← token "EI" (blanks (bs.drop length))
    some (blanks bs)

def scan : (fuel : Nat) → Bytes → Except DocumentFault (List Operation)
  | 0, _ => .ok []
  | fuel + 1, bs =>
    let bs := comments bs
    match token "BI" bs with
    | some rest =>
      match inlineImage rest with
      | some rest => (scan fuel rest).map (⟨"BI", [.other]⟩ :: ·)
      | none => .error .contentStream
    | none =>
      let (os, rest) := operands (bs.length + 1) bs
      let word := rest.takeWhile isOperatorByte
      if word.isEmpty then .ok []
      else (scan fuel (blanks (rest.dropWhile isOperatorByte))).map
        (⟨Bytes.toText word, os.map operand⟩ :: ·)

def operations (bs : Bytes) : Except DocumentFault (List Operation) :=
  scan (bs.length + 1) (blanks bs)

end PaintedImages.Content
