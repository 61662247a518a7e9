import PaintedImages.Document.Graph
import PaintedImages.PageSource

/-! The pages of a document, in the order of its page tree. A tree may contain itself, so visiting
ends after as many kids as the document has objects. -/
namespace PaintedImages.Document

def pendingLimit : Nat := 256

def kids (doc : Document) (node : ObjectId) : List Object :=
  match doc.getDictionary node with
  | .ok d => ((d.find? "Kids").bind Object.array?).getD []
  | .error _ => []

def kidType (doc : Document) (id : ObjectId) : Option Bytes :=
  (doc.getDictionary id).toOption.bind fun d => (d.find? "Type").bind Object.name?

/-- Visits the kids of a level, entering a node at once; `pending` holds what is left of the levels
above. -/
def visit (doc : Document) (limit : Nat) (level : List Object) (pending : List (List Object)) :
    List ObjectId :=
  match limit, level, pending with
  | _, [], [] => []
  | limit, [], above :: pending => doc.visit limit above pending
  | 0, _ :: _, _ => []
  | limit + 1, kid :: rest, pending =>
    match kid.reference? with
    | none => doc.visit limit rest pending
    | some id =>
      if doc.kidType id = some (Bytes.ofText "Page") then id :: doc.visit limit rest pending
      else if doc.kidType id = some (Bytes.ofText "Pages") ∧ pending.length < pendingLimit then
        doc.visit limit (doc.kids id) (if rest.isEmpty then pending else rest :: pending)
      else doc.visit limit rest pending
termination_by (limit, pending.length)

def pageTree? (doc : Document) : Option ObjectId := do
  let root ← (← doc.trailer.find? "Root").reference?
  let catalog ← (doc.getDictionary root).toOption
  (← catalog.find? "Pages").reference?

def pageIds (doc : Document) : List ObjectId :=
  match doc.pageTree? with
  | some node => doc.visit doc.objects.length (doc.kids node) []
  | none => []

def pages (doc : Document) : PageMap :=
  .ofList (doc.pageIds.zipIdx.map fun (id, i) => (UInt32.ofNat (i + 1), id))

end PaintedImages.Document
