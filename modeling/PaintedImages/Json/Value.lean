import PaintedImages.Binary.Shortest

/-! JSON values. Numbers are 64-bit integers, signed or unsigned, or binary floating-point numbers
of double precision; an object is a list of members. -/
namespace PaintedImages

inductive JsonNumber where
  | integer (value : Int)
  | real (negative : Bool) (magnitude : Binary.Dyadic)
  deriving DecidableEq, Repr

inductive Json where
  | null
  | boolean (value : Bool)
  | number (value : JsonNumber)
  | string (value : String)
  | array (items : List Json)
  | object (members : List (String × Json))
  deriving Repr, BEq

namespace Json

def ofNat (n : Nat) : Json := .number (.integer n)

def member? (name : String) : Json → Option Json
  | object members => members.lookup name
  | _ => none

def text? : Json → Option String
  | string s => some s
  | _ => none

def natural? : Json → Option Nat
  | number (.integer n) => if 0 ≤ n then some n.toNat else none
  | _ => none

def integer? : Json → Option Int
  | number (.integer n) => some n
  | _ => none

def insert (name : String) (value : Json) : List (String × Json) → List (String × Json)
  | [] => [(name, value)]
  | (n, v) :: rest =>
    if n = name then (name, value) :: rest
    else if name < n then (name, value) :: (n, v) :: rest
    else (n, v) :: insert name value rest

end Json
end PaintedImages
