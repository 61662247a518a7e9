import PaintedImages.Document.Resources

/-! The content of a page: one stream, or several, each with a line end after it. -/
namespace PaintedImages.Document

def streamContent (doc : Document) (d : Dictionary) (content : Bytes) :
    Traced (Except Fault Bytes) :=
  match doc.filters d with
  | .error fault => .silent (.error fault)
  | .ok filters => Filter.undoAll 0 filters (doc.parameters d filters.length) content

def parts (doc : Document) : List Object → Traced (Except Fault Bytes)
  | [] => .silent (.ok [])
  | o :: rest =>
    match doc.resolve o with
    | .error fault => .silent (.error (.document fault))
    | .ok (.stream d content) =>
      (doc.streamContent d content).andThen fun bytes =>
        (doc.parts rest).andThen fun more => .silent (.ok (bytes ++ 10 :: more))
    | .ok o => .silent (.error (.document (.contentsPart o.kind)))

def pageContent (doc : Document) (page : ObjectId) : Traced (Except Fault Bytes) :=
  match doc.getDictionary page with
  | .error fault => .silent (.error (.document fault))
  | .ok d =>
    match d.find? "Contents" with
    | none => .silent (.ok [])
    | some o =>
      match doc.resolve o with
      | .error fault => .silent (.error (.document fault))
      | .ok (.stream d content) => doc.streamContent d content
      | .ok (.array items) => doc.parts items
      | .ok o => .silent (.error (.document (.contents o.kind)))

end PaintedImages.Document
