import PaintedImages.Json.Value
import PaintedImages.Bytes

/-! JSON text, on one line or indented by two spaces a level. Strings escape the quote, the
backslash and the control characters, and nothing else. -/
namespace PaintedImages

inductive Layout where
  | compact | pretty
  deriving DecidableEq, Repr

namespace Json

def quote : Char := '\x22'
def backslash : Char := '\x5c'

def escape (c : Char) : List Char :=
  if c = quote then [backslash, quote]
  else if c = backslash then [backslash, backslash]
  else if c.toNat = 8 then [backslash, 'b']
  else if c.toNat = 12 then [backslash, 'f']
  else if c.toNat = 10 then [backslash, 'n']
  else if c.toNat = 13 then [backslash, 'r']
  else if c.toNat = 9 then [backslash, 't']
  else if c.toNat < 32 then
    [backslash, 'u', '0', '0', Bytes.hexDigit (c.toNat / 16), Bytes.hexDigit (c.toNat % 16)]
  else [c]

def quoted (s : String) : List Char := quote :: (s.toList.flatMap escape ++ [quote])

def numberText : JsonNumber → List Char
  | .integer n => (toString n).toList
  | .real negative d =>
    (if negative then ['-'] else []) ++ (Binary.shortest Binary.double d).text.toList

def gap (layout : Layout) (depth : Nat) : List Char :=
  match layout with
  | .compact => []
  | .pretty => '\n' :: List.replicate (2 * depth) ' '

def colon : Layout → List Char
  | .compact => [':']
  | .pretty => [':', ' ']

def enclosed (layout : Layout) (depth : Nat) (opening closing : Char) (parts : List (List Char)) :
    List Char :=
  match parts with
  | [] => [opening, closing]
  | first :: rest =>
    opening :: gap layout (depth + 1) ++ first ++
      rest.flatMap (fun part => ',' :: gap layout (depth + 1) ++ part) ++
      gap layout depth ++ [closing]

mutual

def write (layout : Layout) (depth : Nat) : Json → List Char
  | null => ['n', 'u', 'l', 'l']
  | boolean true => ['t', 'r', 'u', 'e']
  | boolean false => ['f', 'a', 'l', 's', 'e']
  | number n => numberText n
  | string s => quoted s
  | array items => enclosed layout depth '[' ']' (writeItems layout (depth + 1) items)
  | object members =>
    enclosed layout depth '\x7b' '\x7d' (writeMembers layout (depth + 1) members)

def writeItems (layout : Layout) (depth : Nat) : List Json → List (List Char)
  | [] => []
  | item :: rest => write layout depth item :: writeItems layout depth rest

def writeMembers (layout : Layout) (depth : Nat) : List (String × Json) → List (List Char)
  | [] => []
  | (name, value) :: rest =>
    (quoted name ++ colon layout ++ write layout depth value) :: writeMembers layout depth rest

end

def render (layout : Layout) (j : Json) : String := String.ofList (write layout 0 j)

end Json
end PaintedImages
