import PaintedImages.Document.File
import PaintedImages.Document.PageTree
import PaintedImages.Document.Contents
import PaintedImages.Content.Reader

/-! Documents as something a walk can read. -/
namespace PaintedImages.Document

def readContent (content : Bytes) : Except Fault (List Operation) :=
  (Content.operations content).mapError .document

def pageOperations (doc : Document) (page : ObjectId) :
    Traced (Except Fault (List Operation)) :=
  (doc.pageContent page).map (·.bind readContent)

def source (doc : Document) : PageSource where
  pages := doc.pages
  operations := doc.pageOperations
  lookup page name := .silent (doc.lookup page name)

def openingNote (header : Header) (size : Nat) : Message :=
  ⟨.debug, s!"opening {header.label} ({size} bytes)"⟩

def ofBytes (data : Bytes) : Traced (Except Fault Document) :=
  match Header.detect data with
  | .error fault => .silent (.error fault)
  | .ok header => ⟨File.document data, [openingNote header data.length]⟩

end PaintedImages.Document
