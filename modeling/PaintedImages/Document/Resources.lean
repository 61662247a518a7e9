import PaintedImages.Document.Graph
import PaintedImages.XObject

/-! What a page can paint. A page uses the resources of the nearest node above it that has any, and
finds external objects there by name. An image is read with the filters its dictionary names; a
filter entry of the wrong kind makes the image unreadable, any other odd entry counts as missing. -/
namespace PaintedImages

namespace DecodeParameters

def positive? (n : Option Int) : Option UInt64 :=
  n.bind fun n => if 0 < n then some (UInt64.ofNat n.toNat) else none

/-- Parameters as a dictionary gives them; entries that are no integers, and sizes that are not
positive, do not count. -/
def ofDictionary (d : Dictionary) : DecodeParameters :=
  let number (key : String) : Option Int := (d.find? key).bind Object.integer?
  { predictor := (number "Predictor").getD 1
    colors := (positive? (number "Colors")).getD 1
    bits := (positive? (number "BitsPerComponent")).getD 8
    columns := (positive? (number "Columns")).getD 1
    earlyChange := (number "EarlyChange").all (· ≠ 0) }

end DecodeParameters

namespace Document

def ancestorLimit : Nat := 64

def resourcesFrom (doc : Document) : (limit : Nat) → ObjectId → Option Dictionary
  | 0, _ => none
  | limit + 1, node =>
    match doc.getDictionary node with
    | .error _ => none
    | .ok d =>
      match (d.find? "Resources").bind doc.resolveDictionary? with
      | some resources => some resources
      | none =>
        match d.find? "Parent" with
        | some (.reference parent) => doc.resourcesFrom limit parent
        | _ => none

def resources (doc : Document) (page : ObjectId) : Option Dictionary :=
  doc.resourcesFrom ancestorLimit page

def filterEntry (doc : Document) (o : Object) : Except Fault Filter := do
  match ← (doc.resolve o).mapError .document with
  | .name n => .ok (.ofName n)
  | o => .error (.decode (.filterEntry o.kind))

def filters (doc : Document) (d : Dictionary) : Except Fault (List Filter) :=
  match d.find? "Filter" with
  | none => .ok []
  | some o => do
    match ← (doc.resolve o).mapError .document with
    | .name n => .ok [.ofName n]
    | .array items => items.mapM doc.filterEntry
    | .null => .ok []
    | o => .error (.decode (.filterValue o.kind))

def parameters (doc : Document) (d : Dictionary) (count : Nat) : ParameterList :=
  let entry := (d.find? "DecodeParms").orElse fun _ => d.find? "DP"
  let list : ParameterList := match entry.bind fun o => (doc.resolve o).toOption with
    | some (.dictionary d) => [some (.ofDictionary d)]
    | some (.array items) =>
      items.map fun o => (doc.resolveDictionary? o).map DecodeParameters.ofDictionary
    | _ => []
  list.take count

def size? (doc : Document) (d : Dictionary) (key : String) (bound : Nat) : Option Nat :=
  (d.find? key).bind fun o =>
    match (doc.resolve o).toOption with
    | some (.integer n) => if 0 ≤ n ∧ n < (bound : Int) then some n.toNat else none
    | _ => none

def colorSpace? (doc : Document) (d : Dictionary) : Option String :=
  (d.find? "ColorSpace").bind fun o =>
    match (doc.resolve o).toOption with
    | some (.name n) => some (Utf8.lossy n)
    | some (.array (.name n :: _)) => some (Utf8.lossy n)
    | _ => none

def image (doc : Document) (d : Dictionary) (content : Bytes) : Except Fault Image := do
  let filters ← doc.filters d
  .ok {
    content, filters
    parameters := doc.parameters d filters.length
    width := (doc.size? d "Width" UInt32.size).map UInt32.ofNat
    height := (doc.size? d "Height" UInt32.size).map UInt32.ofNat
    bits := (doc.size? d "BitsPerComponent" UInt8.size).map UInt8.ofNat
    colorSpace := doc.colorSpace? d }

def xobject (doc : Document) (o : Object) : Except Fault XObject :=
  match o with
  | .stream d content =>
    match (Dictionary.find? d "Subtype").bind Object.name? with
    | some n =>
      if n = Bytes.ofText "Image" then (doc.image d content).map .image
      else if n = Bytes.ofText "Form" then .ok .form
      else .ok (.other (Utf8.lossy n))
    | none => .ok (.other "untyped stream")
  | o => .ok (.other o.kind.label)

def xobjects? (doc : Document) (page : ObjectId) : Option Dictionary :=
  ((doc.resources page).bind fun d => d.find? "XObject").bind doc.resolveDictionary?

/-- The external object a page knows by a name; a reference that leads nowhere names nothing. -/
def lookup (doc : Document) (page : ObjectId) (name : Bytes) : Except Fault (Option XObject) :=
  match (doc.xobjects? page).bind fun d => List.lookup name d with
  | none => .ok none
  | some o =>
    match doc.resolve o with
    | .error _ => .ok none
    | .ok o => (doc.xobject o).map some

end Document
end PaintedImages
