import PaintedImages.Text.Blank
import PaintedImages.Text.Numeral
import PaintedImages.Text.Parts
import PaintedImages.Fault

/-! Which pages an extraction looks at: all of them, a range, or a list. -/
namespace PaintedImages

inductive PageSelection where
  | all
  | range (first last : UInt32)
  | pages (numbers : List UInt32)
  deriving DecidableEq, Repr

namespace PageSelection

def includes (s : PageSelection) (page : UInt32) : Bool :=
  match s with
  | all => true
  | range first last => first ≤ page && page ≤ last
  | pages numbers => numbers.contains page

def parsePage (t : List Char) : Except PagesFault UInt32 :=
  let t := Blank.trim t
  match Numeral.word t with
  | some page => if page = 0 then .error (.notPage (String.ofList t)) else .ok page
  | none => .error (.notPage (String.ofList t))

def parsePart (t : List Char) : Except PagesFault (UInt32 × UInt32) :=
  match Parts.around '-' t with
  | some (first, last) => do
    let first ← parsePage first
    let last ← parsePage last
    if last < first then .error (.reversed (String.ofList (Blank.trim t))) else .ok (first, last)
  | none => (parsePage t).map fun page => (page, page)

def pagesBetween (bounds : UInt32 × UInt32) : List UInt32 :=
  (List.range' bounds.1.toNat (bounds.2.toNat + 1 - bounds.1.toNat)).map UInt32.ofNat

def dedup : List UInt32 → List UInt32
  | a :: b :: rest => if a = b then dedup (b :: rest) else a :: dedup (b :: rest)
  | [a] => [a]
  | [] => []

def lower (t : List Char) : List Char := t.map Char.toLower

/-- An empty text and the word `all` select all pages; a pair alone is a range; otherwise the parts
between commas are collected into one increasing list. -/
def parseChars (t : List Char) : Except PagesFault PageSelection := do
  let t := Blank.trim t
  if t.isEmpty ∨ lower t = ['a', 'l', 'l'] then return all
  if !t.contains ',' && t.contains '-' then
    let (first, last) ← parsePart t
    return range first last
  let parts ← (Parts.between ',' t).mapM parsePart
  return pages (dedup ((parts.flatMap pagesBetween).mergeSort (· ≤ ·)))

def parse (s : String) : Except Fault PageSelection := (parseChars s.toList).mapError .pages

end PageSelection
end PaintedImages
