import PaintedImages.Document.Object
import PaintedImages.Fault

/-! Documents as graphs: objects under their names, and a trailer that says where to begin. An
object that is a reference stands for what it refers to, through a limited number of steps. -/
namespace PaintedImages

structure Document where
  version : String
  objects : List (ObjectId × Object)
  trailer : Dictionary
  deriving Repr

namespace Document

def referenceLimit : Nat := 128

def follow (doc : Document) : (limit : Nat) → Object → Except DocumentFault Object
  | limit, .reference id =>
    match doc.objects.lookup id with
    | none => .error (.missingObject id)
    | some o =>
      match limit with
      | 0 => .error .referenceLimit
      | limit + 1 => doc.follow limit o
  | _, o => .ok o

def get (doc : Document) (id : ObjectId) : Except DocumentFault Object :=
  match doc.objects.lookup id with
  | none => .error (.missingObject id)
  | some o => doc.follow referenceLimit o

def resolve (doc : Document) : Object → Except DocumentFault Object
  | .reference id => doc.get id
  | o => .ok o

def getDictionary (doc : Document) (id : ObjectId) : Except DocumentFault Dictionary := do
  match ← doc.get id with
  | .dictionary d => .ok d
  | o => .error (.notDictionary o.kind)

def resolveDictionary? (doc : Document) (o : Object) : Option Dictionary :=
  (doc.resolve o).toOption.bind Object.dictionary?

end Document
end PaintedImages
