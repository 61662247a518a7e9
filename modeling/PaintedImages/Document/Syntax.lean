import PaintedImages.Document.Object
import PaintedImages.Binary.Rounding

/-! Reading the written form of objects. Every reader takes what it reads from the front of the
bytes and leaves the rest, or fails and reads nothing. -/
namespace PaintedImages.Syntax

abbrev Reader (α : Type) := Bytes → Option (α × Bytes)

def isSpace (b : UInt8) : Bool := Bytes.isBlank b || b == 0

def isLineByte (b : UInt8) : Bool := b == 13 || b == 10

def isDelimiter (b : UInt8) : Bool := [40, 41, 60, 62, 91, 93, 123, 125, 47, 37].contains b

def isRegular (b : UInt8) : Bool := !isSpace b && !isDelimiter b

def lineEnd : Bytes → Option Bytes
  | 13 :: 10 :: rest => some rest
  | 10 :: rest => some rest
  | 13 :: rest => some rest
  | _ => none

theorem lineEndShrinks {bs rest : Bytes} (h : lineEnd bs = some rest) :
    rest.length < bs.length := by
  unfold lineEnd at h
  split at h
  · cases h
    simp only [List.length_cons]
    omega
  · cases h
    simp
  · cases h
    simp
  · cases h

def comment : Bytes → Option Bytes
  | 37 :: rest => lineEnd (rest.dropWhile fun b => !isLineByte b)
  | _ => none

theorem commentShrinks {bs rest : Bytes} (h : comment bs = some rest) :
    rest.length < bs.length := by
  unfold comment at h
  split at h
  · have shorter := lineEndShrinks h
    have := (List.dropWhile_sublist (l := ‹Bytes›) fun b => !isLineByte b).length_le
    simp only [List.length_cons]
    omega
  · simp at h

def space (bs : Bytes) : Bytes :=
  match bs with
  | [] => []
  | b :: rest =>
    if isSpace b then space rest
    else match _h : comment (b :: rest) with
      | some after => space after
      | none => b :: rest
termination_by bs.length
decreasing_by
  · simp
  · exact commentShrinks _h

def token (text : String) (bs : Bytes) : Option Bytes := Bytes.strip (Bytes.ofText text) bs

def digits (bs : Bytes) : Option (Bytes × Bytes) :=
  let run := bs.takeWhile Bytes.isDigit
  if run.isEmpty then none else some (run, bs.dropWhile Bytes.isDigit)

def natural (bound : Nat) : Reader Nat := fun bs => do
  let (run, rest) ← digits bs
  if Bytes.decimal run < bound then some (Bytes.decimal run, rest) else none

def sign : Bytes → Bool × Bytes
  | 43 :: rest => (false, rest)
  | 45 :: rest => (true, rest)
  | bs => (false, bs)

def integer : Reader Int := fun bs => do
  let (negative, bs) := sign bs
  let (run, rest) ← digits bs
  let n := Bytes.decimal run
  if negative then if n ≤ UInt64.size / 2 then some (-n, rest) else none
  else if n < UInt64.size / 2 then some (n, rest) else none

def singleBits (negative : Bool) (n places : Nat) : UInt32 :=
  let magnitude := match Binary.single.round n (Nat.pow 10 places) with
    | some d => Binary.single.bits d
    | none => 0x7F800000
  UInt32.ofNat (magnitude + if negative then UInt32.size / 2 else 0)

def real : Reader UInt32 := fun bs => do
  let (negative, bs) := sign bs
  let whole := bs.takeWhile Bytes.isDigit
  match bs.dropWhile Bytes.isDigit with
  | 46 :: rest =>
    let fraction := rest.takeWhile Bytes.isDigit
    if whole.isEmpty && fraction.isEmpty then none
    else some (singleBits negative (Bytes.decimal (whole ++ fraction)) fraction.length,
      rest.dropWhile Bytes.isDigit)
  | _ => none

def nameBytes : Bytes → Bytes × Bytes
  | [] => ([], [])
  | b :: rest =>
    if b = 35 then
      match rest with
      | h :: l :: rest' =>
        match Bytes.hexValue h, Bytes.hexValue l with
        | some high, some low =>
          let (name, after) := nameBytes rest'
          ((high * 16 + low) :: name, after)
        | _, _ => ([], b :: rest)
      | _ => ([], b :: rest)
    else if isRegular b then
      let (name, after) := nameBytes rest
      (b :: name, after)
    else ([], b :: rest)

def name : Reader Bytes
  | 47 :: rest => some (nameBytes rest)
  | _ => none

def octalValue (b : UInt8) : Option Nat := if 48 ≤ b ∧ b ≤ 55 then some (b.toNat - 48) else none

def octal : (count : Nat) → (value : Nat) → Bytes → Nat × Bytes
  | 0, value, bs => (value, bs)
  | _ + 1, value, [] => (value, [])
  | count + 1, value, b :: rest =>
    match octalValue b with
    | some d => octal count (value * 8 + d) rest
    | none => (value, b :: rest)

def escape (bs : Bytes) : Option (Option UInt8 × Bytes) :=
  match bs with
  | [] => none
  | b :: rest =>
    if (octalValue b).isSome then
      let (value, rest) := octal 3 0 bs
      some (some (UInt8.ofNat value), rest)
    else match lineEnd bs with
      | some rest => some (none, rest)
      | none =>
        let c : UInt8 := if b = 110 then 10 else if b = 114 then 13 else if b = 116 then 9
          else if b = 98 then 8 else if b = 102 then 12 else b
        some (some c, rest)

def nestingLimit : Nat := 100

def stringBytes : (fuel : Nat) → (depth : Nat) → Reader Bytes
  | 0, _, _ => none
  | _ + 1, _, [] => none
  | fuel + 1, depth, b :: rest =>
    let keep (b : UInt8) (r : Option (Bytes × Bytes)) := r.map fun r => (b :: r.1, r.2)
    if b = 92 then do
      let (c, rest) ← escape rest
      match c with
      | some c => keep c (stringBytes fuel depth rest)
      | none => stringBytes fuel depth rest
    else if b = 40 then
      if depth < nestingLimit then keep b (stringBytes fuel (depth + 1) rest) else none
    else if b = 41 then
      match depth with
      | 0 => some ([], rest)
      | depth + 1 => keep b (stringBytes fuel depth rest)
    else keep b (stringBytes fuel depth rest)

def literalString : Reader Bytes
  | 40 :: rest => stringBytes (rest.length + 1) 0 rest
  | _ => none

def hexDigits (high : Option UInt8) : Bytes → Bytes × Bytes
  | [] => ((high.map (· * 16)).toList, [])
  | b :: rest =>
    if isSpace b then hexDigits high rest
    else match Bytes.hexValue b, high with
      | none, _ => ((high.map (· * 16)).toList, b :: rest)
      | some d, none => hexDigits (some d) rest
      | some d, some h =>
        let (bytes, after) := hexDigits none rest
        ((h * 16 + d) :: bytes, after)

def hexString : Reader Bytes
  | 60 :: rest =>
    match hexDigits none rest with
    | (bytes, 62 :: after) => some (bytes, after)
    | _ => none
  | _ => none

def objectId : Reader ObjectId := fun bs => do
  let (n, bs) ← natural UInt32.size bs
  let (g, bs) ← natural UInt16.size (space bs)
  some (⟨UInt32.ofNat n, UInt16.ofNat g⟩, space bs)

def reference : Reader ObjectId := fun bs => do
  let (id, bs) ← objectId bs
  some (id, ← token "R" bs)

def map {α β : Type} (f : α → β) (reader : Reader α) : Reader β := fun bs =>
  (reader bs).map fun r => (f r.1, r.2)

def word (text : String) (o : Object) : Reader Object := fun bs =>
  (token text bs).map fun rest => (o, rest)

def simple : List (Reader Object) :=
  [map .real real, map .integer integer, map .name name, map .string literalString,
    map .string hexString]

def constants : List (Reader Object) :=
  [word "null" .null, word "true" (.boolean true), word "false" (.boolean false)]

def firstOf {α : Type} (readers : List (Reader α)) : Reader α := fun bs =>
  readers.findSome? fun reader => reader bs

mutual

def object : (fuel : Nat) → Reader Object
  | 0, _ => none
  | fuel + 1, bs =>
    firstOf (constants ++ map .reference reference :: simple ++
      [map .array (array fuel), map .dictionary (dictionary fuel)]) bs

def array : (fuel : Nat) → Reader (List Object)
  | 0, _ => none
  | fuel + 1, bs => do
    let bs ← token "[" bs
    let (items, bs) := items fuel (space bs)
    some (items, ← token "]" bs)

def items : (fuel : Nat) → Bytes → List Object × Bytes
  | 0, bs => ([], bs)
  | fuel + 1, bs =>
    match object fuel bs with
    | some (o, bs) =>
      let (os, rest) := items fuel (space bs)
      (o :: os, rest)
    | none => ([], bs)

def dictionary : (fuel : Nat) → Reader Dictionary
  | 0, _ => none
  | fuel + 1, bs => do
    let bs ← token "<<" bs
    let (d, bs) := entries fuel [] (space bs)
    some (d, ← token ">>" bs)

def entries : (fuel : Nat) → Dictionary → Bytes → Dictionary × Bytes
  | 0, d, bs => (d, bs)
  | fuel + 1, d, bs =>
    let entry := do
      let (key, bs) ← name bs
      let (value, bs) ← object fuel (space bs)
      some ((key, value), space bs)
    match entry with
    | some ((key, value), rest) => entries fuel (Dictionary.set key value d) rest
    | none => (d, bs)

end

/-- Enough fuel for any object at the front of the bytes. -/
def fuelFor (bs : Bytes) : Nat := 3 * bs.length + 3

def readObject (bs : Bytes) : Option (Object × Bytes) := object (fuelFor bs) bs

def readDictionary (bs : Bytes) : Option (Dictionary × Bytes) := dictionary (fuelFor bs) bs

end PaintedImages.Syntax
