import PaintedImages.PageSource
import PaintedImages.Extraction.Collector
import PaintedImages.Extraction.Statistics

/-! Walking a document: pages in order, on each page the operators in order, and of these only the
ones that paint. Nothing but a page that cannot be read stops a page, and nothing stops the
document. -/
namespace PaintedImages

def Operation.paintedName (op : Operation) : Except OperandFault Bytes :=
  match op.operands with
  | .name name :: _ => .ok name
  | operand :: _ => .error (.kind operand.kind)
  | [] => .error .missing

def Operation.paints (op : Operation) : Bool := op.keyword = paintKeyword

structure Walk where
  collector : Collector
  statistics : Statistics := {}
  deriving DecidableEq, Repr

namespace Walk

def start (options : Options) : Walk := ⟨.empty options, {}⟩

def take (c : Collector) (name : Bytes) (image : Image) : Traced (Painting × Collector) :=
  (c.collect image).map fun
    | .ok (.added index, c) => (.added name index, c)
    | .ok (.duplicate fingerprint, c) => (.duplicate name fingerprint, c)
    | .error fault => (.undecodable name fault, c)

def find (source : PageSource) (page : ObjectId) (c : Collector) (name : Bytes) :
    Traced (Painting × Collector) :=
  (source.lookup page name).bind fun
    | .ok (some (.image image)) => take c name image
    | .ok (some x) => .silent (.notImage name x.kind, c)
    | .ok none => .silent (.unresolved name, c)
    | .error fault => .silent (.unreadable name fault, c)

def paint (source : PageSource) (page : ObjectId) (c : Collector) (op : Operation) :
    Traced (Painting × Collector) :=
  match op.paintedName with
  | .ok name => find source page c name
  | .error cause => .silent (.malformed cause, c)

def step (source : PageSource) (number : UInt32) (page : ObjectId) (w : Walk) (op : Operation) :
    Traced Walk :=
  if op.paints then
    let result := paint source page w.collector op
    let painting := result.value.1
    ⟨⟨result.value.2, w.statistics.count painting⟩,
      result.log ++ [painting.message number page]⟩
  else .silent w

def steps (source : PageSource) (number : UInt32) (page : ObjectId) (w : Walk) :
    List Operation → Traced Walk
  | [] => .silent w
  | op :: ops => (step source number page w op).bind fun w => steps source number page w ops

def operatorsNote (number : UInt32) (count : Nat) : Message :=
  ⟨.debug, s!"page {number.toNat}: {count} operators"⟩

/-- One page. If its content cannot be read the walk stays as it was. -/
def page (source : PageSource) (number : UInt32) (id : ObjectId) (w : Walk) :
    Traced (Except Fault Walk) :=
  (source.operations id).bind fun
    | .error fault => .silent (.error (.pageContent number fault.message))
    | .ok ops =>
      let walked := steps source number id w ops
      ⟨.ok { walked.value with
          statistics := { walked.value.statistics with
            pagesWalked := walked.value.statistics.pagesWalked + 1 } },
        operatorsNote number ops.length :: walked.log⟩

def skipNote (number : UInt32) (fault : Fault) : Message :=
  ⟨.warning, s!"skipping page {number.toNat}: {fault.message}"⟩

def pageOrSkip (source : PageSource) (number : UInt32) (id : ObjectId) (w : Walk) : Traced Walk :=
  (page source number id w).bind fun
    | .ok w => .silent w
    | .error fault =>
      ⟨{ w with statistics := { w.statistics with
          pagesSkipped := w.statistics.pagesSkipped + 1 } }, [skipNote number fault]⟩

def pages (source : PageSource) (w : Walk) : List (UInt32 × ObjectId) → Traced Walk
  | [] => .silent w
  | (number, id) :: rest =>
    (pageOrSkip source number id w).bind fun w => pages source w rest

/-- A number of pages as a counter, which ends at the greatest word. -/
def saturated (n : Nat) : UInt32 := UInt32.ofNat (min n (UInt32.size - 1))

def document (source : PageSource) (selection : PageSelection) (w : Walk) : Traced Walk :=
  pages source
    { w with statistics := { w.statistics with pageCount := saturated source.pages.size } }
    (source.pages.entries.filter fun entry => selection.includes entry.1)

end Walk
end PaintedImages
