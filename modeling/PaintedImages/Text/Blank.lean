/-! The characters with the Unicode property White_Space, and text without them at its ends. -/
namespace PaintedImages.Blank

/-- White_Space holds of exactly these twenty-five code points. -/
def table : List Nat :=
  [0x09, 0x0A, 0x0B, 0x0C, 0x0D, 0x20, 0x85, 0xA0, 0x1680, 0x2000, 0x2001, 0x2002, 0x2003, 0x2004,
    0x2005, 0x2006, 0x2007, 0x2008, 0x2009, 0x200A, 0x2028, 0x2029, 0x202F, 0x205F, 0x3000]

def isBlank (c : Char) : Bool := table.contains c.toNat

def trim (cs : List Char) : List Char :=
  ((cs.dropWhile isBlank).reverse.dropWhile isBlank).reverse

def words (cs : List Char) : List (List Char) :=
  let step (c : Char) : List (List Char) × List Char → List (List Char) × List Char
    | (done, current) =>
      if isBlank c then (if current.isEmpty then done else current :: done, [])
      else (done, c :: current)
  let (done, current) := cs.foldr step ([], [])
  if current.isEmpty then done else current :: done

end PaintedImages.Blank
