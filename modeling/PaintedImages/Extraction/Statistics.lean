import PaintedImages.Fault
import PaintedImages.Fingerprint
import PaintedImages.Text.Utf8
import PaintedImages.Message

/-! What becomes of each painting operator, and the counters of a walk. Counters are words: what
is counted wraps, but a total of counters that no word can hold ends the program. -/
namespace PaintedImages

inductive Painting where
  | malformed (cause : OperandFault)
  | unresolved (name : Bytes)
  | unreadable (name : Bytes) (fault : Fault)
  | notImage (name : Bytes) (kind : String)
  | added (name : Bytes) (index : Nat)
  | duplicate (name : Bytes) (fingerprint : Fingerprint)
  | undecodable (name : Bytes) (fault : Fault)
  deriving DecidableEq, Repr

def paintKeyword : String := "Do"

namespace Painting

def message (page : UInt32) (id : ObjectId) : Painting → Message
  | malformed cause =>
    ⟨.warning, s!"page {page.toNat}: " ++ (Fault.operator paintKeyword cause).message⟩
  | unresolved name =>
    ⟨.debug, s!"page object ({id.number.toNat}, {id.generation.toNat}): " ++
      (Fault.unresolved (Utf8.lossy name)).message⟩
  | unreadable name fault =>
    ⟨.warning, s!"page {page.toNat}: cannot read /{Utf8.lossy name}: {fault.message}"⟩
  | notImage name kind =>
    ⟨.debug, s!"page {page.toNat}: /{Utf8.lossy name} is a {kind} XObject, skipped"⟩
  | added name index =>
    ⟨.debug, s!"page {page.toNat}: /{Utf8.lossy name} collected as record {index}"⟩
  | duplicate name fingerprint =>
    ⟨.debug, s!"page {page.toNat}: /{Utf8.lossy name} duplicate of {fingerprint.label}"⟩
  | undecodable name fault =>
    ⟨.warning, s!"page {page.toNat}: /{Utf8.lossy name} skipped: {fault.message}"⟩

end Painting

structure Statistics where
  pageCount : UInt32 := 0
  pagesWalked : UInt32 := 0
  pagesSkipped : UInt32 := 0
  imagesSeen : UInt32 := 0
  imagesCollected : UInt32 := 0
  duplicatesSkipped : UInt32 := 0
  nonImageXObjects : UInt32 := 0
  unresolvedReferences : UInt32 := 0
  malformedOperators : UInt32 := 0
  decodeFailures : UInt32 := 0
  deriving DecidableEq, Repr

namespace Statistics

/-- Only an image that could be looked up counts as seen. -/
def count (s : Statistics) : Painting → Statistics
  | .malformed _ => { s with malformedOperators := s.malformedOperators + 1 }
  | .unresolved _ => { s with unresolvedReferences := s.unresolvedReferences + 1 }
  | .unreadable _ _ => { s with decodeFailures := s.decodeFailures + 1 }
  | .notImage _ _ => { s with nonImageXObjects := s.nonImageXObjects + 1 }
  | .added _ _ =>
    { s with imagesSeen := s.imagesSeen + 1, imagesCollected := s.imagesCollected + 1 }
  | .duplicate _ _ =>
    { s with imagesSeen := s.imagesSeen + 1, duplicatesSkipped := s.duplicatesSkipped + 1 }
  | .undecodable _ _ =>
    { s with imagesSeen := s.imagesSeen + 1, decodeFailures := s.decodeFailures + 1 }

def plus (a b : UInt32) : Option UInt32 :=
  if a.toNat + b.toNat < UInt32.size then some (a + b) else none

/-- Everything that was left out for a fault. The program ends where there is no such total. -/
def failures (s : Statistics) : Option UInt32 := do
  let total ← plus s.pagesSkipped s.unresolvedReferences
  let total ← plus total s.malformedOperators
  plus total s.decodeFailures

def summary (s : Statistics) : String :=
  s!"{s.imagesCollected.toNat} images ({s.duplicatesSkipped.toNat} duplicates) on " ++
    s!"{s.pagesWalked.toNat}/{s.pageCount.toNat} pages"

def fields (s : Statistics) : List (String × UInt32) :=
  [("page_count", s.pageCount), ("pages_walked", s.pagesWalked),
    ("pages_skipped", s.pagesSkipped), ("images_seen", s.imagesSeen),
    ("images_collected", s.imagesCollected), ("duplicates_skipped", s.duplicatesSkipped),
    ("non_image_xobjects", s.nonImageXObjects),
    ("unresolved_references", s.unresolvedReferences),
    ("malformed_operators", s.malformedOperators), ("decode_failures", s.decodeFailures)]

def ofList : List UInt32 → Option Statistics
  | [a, b, c, d, e, f, g, h, i, j] => some ⟨a, b, c, d, e, f, g, h, i, j⟩
  | _ => none

end Statistics
end PaintedImages
