import PaintedImages.Document.CrossReference
import PaintedImages.Document.Graph
import PaintedImages.Text.Blank
import PaintedImages.Text.Numeral
import PaintedImages.Header

/-! Reading a file into a document: from its last line to the newest cross-references, through these
to older ones, and from all of them to the objects. An object that cannot be read is left out. -/
namespace PaintedImages.File
open Syntax

def lastOccurrence (pattern : Bytes) : (place : Nat) → Bytes → Option Nat
  | _, [] => none
  | place, b :: rest =>
    match lastOccurrence pattern (place + 1) rest with
    | some found => some found
    | none => if (Bytes.strip pattern (b :: rest)).isSome then some place else none

def startNumber (bs : Bytes) : Option Int := do
  let bs ← lineEnd (← token "startxref" bs)
  let (n, bs) ← integer (bs.dropWhile (· == 32))
  let bs ← lineEnd (bs.dropWhile (· == 32))
  let _ ← token "%%EOF" bs
  some n

/-- Where the newest cross-references begin. The end mark is sought in the last 512 bytes, the
keyword from 25 bytes before the end mark on. -/
def startOffset (data : Bytes) : Option Nat := do
  let size := data.length
  let mark ← lastOccurrence (Bytes.ofText "%%EOF") (size - 512) (data.drop (size - 512))
  if mark ≤ 25 then none
  else
    let keyword ← lastOccurrence (Bytes.ofText "startxref") (mark - 25) (data.drop (mark - 25))
    let n ← startNumber (data.drop keyword)
    if 0 ≤ n ∧ n ≤ size then some n.toNat else none

def version (data : Bytes) : Option String := do
  let line ← Bytes.strip Header.magic data
  let text := line.takeWhile fun b => !Header.isLineEnd b
  let _ ← lineEnd (line.dropWhile fun b => !Header.isLineEnd b)
  Utf8.decode text

structure Written where
  id : ObjectId
  object : Object
  start : Option Nat
  deriving Repr

def hasType (d : Dictionary) (type : String) : Bool :=
  match d.find? "Type" with
  | some (.name n) => n == Bytes.ofText type
  | _ => false

def streamBytes (length : Nat) (bs : Bytes) : Option Bytes :=
  let content := bs.take length
  if content.length < length then none
  else
    let rest := bs.drop length
    let rest := (lineEnd rest).getD rest
    (token "endstream" rest).map fun _ => content

def streamStart (bs : Bytes) : Option Bytes := do
  let bs ← token "stream" (space bs)
  lineEnd (bs.dropWhile fun b => b == 32 || b == 9)

/-- The object at a place in a file. A stream's length may itself be an object elsewhere; `refs`
leads there, and `seen` are the objects already on the way. -/
def written (data : Bytes) (refs : CrossReferences) : (fuel : Nat) → (seen : List ObjectId) →
    (offset : Nat) → Option Written
  | 0, _, _ => none
  | fuel + 1, seen, offset => do
    if data.length < offset then none
    let (id, bs) ← objectId (space (data.drop offset))
    let bs := space (← token "obj" bs)
    match (readDictionary bs).bind fun r => (streamStart r.2).map fun bs => (r.1, bs) with
    | some (d, bs) =>
      let length : Option Int := match d.find? "Length" with
        | some (.integer n) => some n
        | some (.reference target) =>
          match seen.contains target, List.lookup target.number.toNat refs with
          | false, some (.written offset generation) =>
            if generation = target.generation.toNat then
              match written data refs fuel (target :: seen) offset with
              | some found =>
                if found.id = target then found.object.integer? else none
              | none => none
            else none
          | _, _ => none
        | _ => none
      match length with
      | some n =>
        if n < 0 then none
        else match streamBytes n.toNat bs with
          | some content =>
            some ⟨id, .stream (Dictionary.set (Bytes.ofText "Length") (.integer content.length) d)
              content, none⟩
          | none => some ⟨id, .dictionary d, none⟩
      | none => some ⟨id, .stream d [], some (data.length - bs.length)⟩
    | none =>
      let (o, _) ← readObject bs
      some ⟨id, o, none⟩

/-- The object at a place. Each step to another object adds one to those seen, so there are no more
steps than cross-references. -/
def readWritten (data : Bytes) (refs : CrossReferences) (offset : Nat) : Option Written :=
  written data refs (refs.length + 2) [] offset

def crossReferences (data : Bytes) (offset : Nat) :
    Except Fault (CrossReferences × Dictionary) :=
  match CrossReferences.table (data.drop offset) with
  | some ((refs, trailer), _) =>
    if ((trailer.find? "Size").bind Object.integer?).isSome then .ok (refs, trailer)
    else .error (.document .trailer)
  | none =>
    match readWritten data [] offset with
    | some ⟨_, .stream d content, _⟩ => CrossReferences.ofStream d content
    | some _ => .error (.document .crossReferences)
    | none => .error (.document .trailer)

/-- Follows the links to older cross-references; a link met before ends the chain. `hybrid` is the
place of the stream that accompanies the newest table, read once. -/
def older (data : Bytes) : (fuel : Nat) → (seen : List Int) → (hybrid : Option Int) →
    (link : Option Int) → CrossReferences → Except Fault CrossReferences
  | fuel + 1, seen, hybrid, some place, refs =>
    if seen.contains place then .ok refs
    else if place < 0 ∨ (data.length : Int) < place then .error (.document .previousOffset)
    else do
      let (found, trailer) ← crossReferences data place.toNat
      let refs := CrossReferences.merge found refs
      let refs ← match hybrid with
        | some place =>
          if place < 0 ∨ (data.length : Int) < place then .error (.document .hybridOffset)
          else do
            let (found, _) ← crossReferences data place.toNat
            .ok (CrossReferences.merge found refs)
        | none => .ok refs
      older data fuel (place :: seen) none ((trailer.find? "Prev").bind Object.integer?) refs
  | _, _, _, _, refs => .ok refs

def replace (w : Written) : List Written → List Written
  | [] => [w]
  | v :: rest => if v.id = w.id then w :: rest else v :: replace w rest

def packedObjects (d : Dictionary) (content : Bytes) : Option (List Written) :=
  if content.isEmpty then some []
  else do
    let first ← (d.find? "First").bind Object.integer?
    let _count ← (d.find? "N").bind Object.integer?
    if first < 0 ∨ (content.length : Int) < first then none
    else
      let index ← Utf8.decode (content.take first.toNat)
      let numbers := (Blank.words index.toList).map Numeral.word
      some (objects first.toNat numbers)
where
  objects (first : Nat) : List (Option UInt32) → List Written
    | number :: place :: rest =>
      let more := objects first rest
      match number, place with
      | some number, some place =>
        let offset := first + place.toNat
        if content.length ≤ offset then more
        else match readObject (content.drop offset) with
          | some (o, _) =>
            let id : ObjectId := ⟨number, 0⟩
            if more.any fun w => w.id = id then more else ⟨id, o, none⟩ :: more
          | none => more
      | _, _ => more
    | _ => []

def load (data : Bytes) (refs : CrossReferences) (packed : Bool) :
    List (Nat × Entry) → List Written × List Written
  | [] => ([], [])
  | (_, .compressed _ _) :: rest => load data refs packed rest
  | (_, .written offset _) :: rest =>
    let (objects, inner) := load data refs packed rest
    let add (w : Written) : List Written :=
      if objects.any fun v => v.id = w.id then objects else w :: objects
    match readWritten data refs offset with
    | none => (objects, inner)
    | some ⟨id, .stream d content, start⟩ =>
      if packed && hasType d "ObjStm" then
        let (d, content) := match Packed.content? d content with
          | some data => (Dictionary.remove "Filter" (Dictionary.remove "DecodeParms" d), data)
          | none => (d, content)
        match packedObjects d content with
        | some found => (add ⟨id, .stream d content, none⟩, found ++ inner)
        | none => (objects, inner)
      else (add ⟨id, .stream d content, start⟩, inner)
    | some w => (add w, inner)

def complete (data : Bytes) (doc : Document) (w : Written) : Object :=
  match w.object, w.start with
  | .stream d content, some start =>
    let target := (Dictionary.find? d "Length").bind fun o =>
      (doc.follow Document.referenceLimit o).toOption
    match target.bind Object.integer? with
    | some n =>
      if n < 0 ∨ data.length < start + n.toNat then .stream d content
      else .stream d ((data.drop start).take n.toNat)
    | none => .stream d content
  | o, _ => o

def document (data : Bytes) : Except Fault Document := do
  let version ← (version data).elim (.error (.document .header)) .ok
  let start ← (startOffset data).elim (.error (.document .startOffset)) .ok
  let (refs, trailer) ← crossReferences data start
  let link (key : String) := (trailer.find? key).bind Object.integer?
  let refs ← older data (data.length + 2) [] (link "XRefStm") (link "Prev") refs
  let trailer := trailer.remove "Prev"
  if UInt32.size ≤ refs.size then throw (.document .crossReferences)
  let (objects, inner) := load data refs (trailer.find? "Encrypt").isNone refs
  let objects := inner.foldl
    (fun objects w => if objects.any fun v => v.id = w.id then objects else objects ++ [w]) objects
  let doc : Document := ⟨version, objects.map fun w => (w.id, w.object), trailer⟩
  .ok { doc with objects := objects.map fun w => (w.id, complete data doc w) }

end PaintedImages.File
