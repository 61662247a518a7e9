import PaintedImages.Bytes
import PaintedImages.Document.Identity

/-! The objects a document is made of. A dictionary is a list of entries; writing a key that is
there already changes its value in place. -/
namespace PaintedImages

inductive Object where
  | null
  | boolean (value : Bool)
  | integer (value : Int)
  | real (bits : UInt32)
  | name (name : Bytes)
  | string (bytes : Bytes)
  | array (items : List Object)
  | dictionary (entries : List (Bytes × Object))
  | stream (entries : List (Bytes × Object)) (content : Bytes)
  | reference (id : ObjectId)
  deriving Repr, Inhabited

abbrev Dictionary := List (Bytes × Object)

namespace Dictionary

def find? (d : Dictionary) (key : String) : Option Object := List.lookup (Bytes.ofText key) d

def set (key : Bytes) (value : Object) : Dictionary → Dictionary
  | [] => [(key, value)]
  | (k, v) :: rest => if k = key then (key, value) :: rest else (k, v) :: set key value rest

def remove (key : String) (d : Dictionary) : Dictionary :=
  d.filter fun entry => entry.1 ≠ Bytes.ofText key

end Dictionary

namespace Object

def kind : Object → ObjectKind
  | null => .null
  | boolean _ => .boolean
  | integer _ => .integer
  | real _ => .real
  | name _ => .name
  | string _ => .string
  | array _ => .array
  | dictionary _ => .dictionary
  | stream _ _ => .stream
  | reference _ => .reference

def integer? : Object → Option Int
  | integer n => some n
  | _ => none

def name? : Object → Option Bytes
  | name n => some n
  | _ => none

def array? : Object → Option (List Object)
  | array items => some items
  | _ => none

def dictionary? : Object → Option Dictionary
  | dictionary entries => some entries
  | _ => none

def reference? : Object → Option ObjectId
  | reference id => some id
  | _ => none

end Object
end PaintedImages
