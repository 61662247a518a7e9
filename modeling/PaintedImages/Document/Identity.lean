/-! How a document names its objects, and the kinds an object can have. -/
namespace PaintedImages

structure ObjectId where
  number : UInt32
  generation : UInt16
  deriving DecidableEq, Repr, Inhabited

inductive ObjectKind where
  | null | boolean | integer | real | name | string | array | dictionary | stream | reference
  deriving DecidableEq, Repr

def ObjectKind.label : ObjectKind → String
  | .null => "Null"
  | .boolean => "Boolean"
  | .integer => "Integer"
  | .real => "Real"
  | .name => "Name"
  | .string => "String"
  | .array => "Array"
  | .dictionary => "Dictionary"
  | .stream => "Stream"
  | .reference => "Reference"

end PaintedImages
