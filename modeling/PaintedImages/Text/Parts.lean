/-! Cutting a text at a character: at every occurrence, or only at the first. -/
namespace PaintedImages.Parts

def between (c : Char) : List Char → List (List Char)
  | [] => [[]]
  | d :: rest =>
    if d = c then [] :: between c rest
    else match between c rest with
      | part :: parts => (d :: part) :: parts
      | [] => [[d]]

def around (c : Char) : List Char → Option (List Char × List Char)
  | [] => none
  | d :: rest =>
    if d = c then some ([], rest)
    else (around c rest).map fun (before, after) => (d :: before, after)

end PaintedImages.Parts
