import PaintedImages.Document.Syntax
import PaintedImages.Filter.Chain

/-! Cross-references: where in a file each object is written. They stand in a table of text lines or
in a stream of binary fields. -/
namespace PaintedImages

inductive Entry where
  | written (offset generation : Nat)
  | compressed (container index : Nat)
  deriving DecidableEq, Repr

abbrev CrossReferences := List (Nat × Entry)

namespace CrossReferences
open Syntax

def insert (number : Nat) (entry : Entry) : CrossReferences → CrossReferences
  | [] => [(number, entry)]
  | (n, e) :: rest =>
    if number < n then (number, entry) :: (n, e) :: rest
    else if number = n then (number, entry) :: rest
    else (n, e) :: insert number entry rest

def merge (older refs : CrossReferences) : CrossReferences :=
  older.foldl (fun refs e => if (List.lookup e.1 refs).isSome then refs else insert e.1 e.2 refs)
    refs

def size (refs : CrossReferences) : Nat := (refs.getLast?.map (·.1 + 1)).getD 1

def row : Reader (Nat × Nat × Bool) := fun bs => do
  let (offset, bs) ← natural UInt32.size bs
  let bs ← token " " bs
  let (generation, bs) ← natural UInt32.size bs
  match ← token " " bs with
  | kind :: 32 :: 13 :: rest | kind :: 32 :: 10 :: rest | kind :: 13 :: 10 :: rest =>
    if kind = 110 then some ((offset, generation, true), rest)
    else if kind = 102 then some ((offset, generation, false), rest)
    else none
  | _ => none

def rows : (fuel : Nat) → (number : Nat) → CrossReferences → Bytes → CrossReferences × Bytes
  | 0, _, refs, bs => (refs, bs)
  | fuel + 1, number, refs, bs =>
    match row bs with
    | some ((offset, generation, inUse), rest) =>
      let refs := if inUse ∧ generation < UInt16.size then
          insert (number % UInt32.size) (.written offset generation) refs
        else refs
      rows fuel (number + 1) refs rest
    | none => (refs, bs)

def sectionStart : Reader Nat := fun bs => do
  let (start, bs) ← natural UInt64.size bs
  let (_, bs) ← natural UInt32.size (← token " " bs)
  some (start, ← lineEnd ((token " " bs).getD bs))

def sections : (fuel : Nat) → CrossReferences → Bytes → CrossReferences × Bytes
  | 0, refs, bs => (refs, bs)
  | fuel + 1, refs, bs =>
    match sectionStart bs with
    | some (start, rest) =>
      let (refs, rest) := rows rest.length start refs rest
      sections fuel refs rest
    | none => (refs, bs)

def table : Reader (CrossReferences × Dictionary) := fun bs => do
  let bs ← lineEnd (← token "xref" bs)
  let _ ← sectionStart bs
  let (refs, bs) := sections bs.length [] bs
  let bs ← token "trailer" (space bs)
  let (trailer, bs) ← readDictionary (space bs)
  some ((refs, trailer), space bs)

def field (width : Nat) (bs : Bytes) : Except Fault (Nat × Bytes) :=
  let bytes := bs.take width
  if bytes.length < width then .error (.file .endOfData)
  else .ok (Bytes.bigEndian bytes % UInt32.size, bs.drop width)

def binaryRows (first second third : Nat) : (count : Nat) → (number : Nat) → CrossReferences →
    Bytes → Except Fault (CrossReferences × Bytes)
  | 0, _, refs, bs => .ok (refs, bs)
  | count + 1, number, refs, bs => do
    let (kind, bs) ← if first = 0 then .ok (1, bs) else field first bs
    let key := number % UInt32.size
    if kind = 0 then
      let (_, bs) ← field second bs
      let (_, bs) ← field third bs
      binaryRows first second third count (number + 1) refs bs
    else if kind = 1 then
      let (offset, bs) ← field second bs
      let (generation, bs) ← field third bs
      binaryRows first second third count (number + 1)
        (insert key (.written offset (generation % UInt16.size)) refs) bs
    else if kind = 2 then
      let (container, bs) ← field second bs
      let (index, bs) ← field third bs
      binaryRows first second third count (number + 1)
        (insert key (.compressed container (index % UInt16.size)) refs) bs
    else binaryRows first second third count (number + 1) refs bs

def binarySections (first second third : Nat) : List Int → CrossReferences → Bytes →
    Except Fault CrossReferences
  | start :: count :: rest, refs, bs => do
    let (refs, bs) ← binaryRows first second third count.toNat (start % UInt32.size).toNat refs bs
    binarySections first second third rest refs bs
  | _, refs, _ => .ok refs

def integers? (o : Object) : Option (List Int) := o.array?.bind (·.mapM Object.integer?)

end CrossReferences

/-! The filters of streams that belong to the file itself. -/
namespace Packed

def filters? (d : Dictionary) : Option (List Bytes) :=
  match d.find? "Filter" with
  | some (.name n) => some [n]
  | some (.array items) => items.mapM Object.name?
  | _ => none

def unpredict (params : Option Dictionary) (data : Bytes) : Option Bytes :=
  match params with
  | none => some data
  | some d =>
    let number (key : String) (least default : Int) : Nat :=
      (max least (((d.find? key).bind Object.integer?).getD default)).toNat
    let predictor := number "Predictor" 0 1
    if 10 ≤ predictor ∧ predictor ≤ 15 then
      let pixel := number "Colors" 1 1 * number "BitsPerComponent" 8 8 / 8
      let row := pixel * number "Columns" 1 1
      if data.isEmpty then some []
      else if data.length < row then none
      else (Prediction.decodeRows row pixel (List.replicate row 0)
        (Prediction.pieces row data)).toOption
    else some data

def stage (params : Option Dictionary) (filter data : Bytes) : Option Bytes :=
  if filter = Bytes.ofText "FlateDecode" then
    unpredict params <| match Flate.Inflated.yield (Flate.framed data) with
      | .whole output => output
      | .part output => output
      | .nothing _ => []
  else if filter = Bytes.ofText "LZWDecode" then
    let early := (params.bind fun d => (d.find? "EarlyChange").bind Object.integer?).all (· ≠ 0)
    unpredict params ((Lzw.decode early data).toOption.getD [])
  else if filter = Bytes.ofText "ASCII85Decode" then (Base85.decode data).toOption
  else none

def content? (d : Dictionary) (content : Bytes) : Option Bytes := do
  let params := (d.find? "DecodeParms").bind Object.dictionary?
  (← filters? d).foldlM (fun data filter => stage params filter data) content

end Packed

namespace CrossReferences

def ofStream (d : Dictionary) (content : Bytes) :
    Except Fault (CrossReferences × Dictionary) := do
  let content ← if (d.find? "Filter").isNone then pure content
    else match Packed.content? d content with
      | some data => pure data
      | none => .error (.document .crossReferences)
  match (d.find? "Size").bind Object.integer?, (d.find? "W").bind integers? with
  | some size, some (first :: second :: third :: _) =>
    if first < 0 ∨ second < 0 ∨ third < 0 then .error (.document .crossReferences)
    else
      let pieces := ((d.find? "Index").bind integers?).getD [0, size]
      let refs ← binarySections first.toNat second.toNat third.toNat pieces [] content
      .ok (refs, ["Length", "W", "Index"].foldl (fun d key => d.remove key) d)
  | _, _ => .error (.document .crossReferences)

end CrossReferences
end PaintedImages
