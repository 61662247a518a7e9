import PaintedImages.Fault

/-! Deflate data, read bit by bit. Reading can run out of bits or meet bits that no data has; the
two are kept apart, because what was read before the bits ran out is still good. -/
namespace PaintedImages.Inflate

abbrev Bits := List Bool

def bits (input : Bytes) : Bits :=
  input.flatMap fun b => (List.range 8).map b.toNat.testBit

inductive Reading (α : Type) where
  | found (value : α) (rest : Bits)
  | starved
  | refused
  deriving Repr

namespace Reading
variable {α β : Type}

def bind (x : Reading α) (f : α → Bits → Reading β) : Reading β :=
  match x with
  | found a rest => f a rest
  | starved => starved
  | refused => refused

end Reading

def number (width : Nat) (bs : Bits) : Reading Nat :=
  let digits := bs.take width
  if digits.length < width then .starved
  else .found (digits.foldr (fun b n => b.toNat + 2 * n) 0) (bs.drop width)

/-- A canonical prefix code: how many codes have each length from 1 on, and the symbols in the
order of their codes. -/
structure Code where
  counts : List Nat
  symbols : Array Nat
  deriving DecidableEq, Repr

namespace Code

def longest : Nat := 15

def ofLengths (lengths : List Nat) : Code :=
  let used := fun n => (lengths.zipIdx.filter fun entry => entry.1 == n).map Prod.snd
  let classes := (List.range longest).map fun n => used (n + 1)
  ⟨classes.map List.length, classes.flatten.toArray⟩

def mass (c : Code) : Nat := c.counts.foldl (fun total n => total * 2 + n) 0

def isComplete (c : Code) : Bool := c.mass == 1 <<< longest

def walk (symbols : Array Nat) : (counts : List Nat) → (code first index : Nat) → Bits →
    Reading Nat
  | [], _, _, _, _ => .refused
  | _ :: _, _, _, _, [] => .starved
  | count :: counts, code, first, index, b :: rest =>
    let code := 2 * code + b.toNat
    if code < first + count then
      match symbols[index + (code - first)]? with
      | some s => .found s rest
      | none => .refused
    else walk symbols counts code (2 * (first + count)) (index + count) rest

def next (c : Code) (bs : Bits) : Reading Nat := walk c.symbols c.counts 0 0 0 bs

end Code

structure Span where
  base : Nat
  extra : Nat
  deriving DecidableEq, Repr

def lengthSpans : List Span :=
  [⟨3, 0⟩, ⟨4, 0⟩, ⟨5, 0⟩, ⟨6, 0⟩, ⟨7, 0⟩, ⟨8, 0⟩, ⟨9, 0⟩, ⟨10, 0⟩, ⟨11, 1⟩, ⟨13, 1⟩, ⟨15, 1⟩,
    ⟨17, 1⟩, ⟨19, 2⟩, ⟨23, 2⟩, ⟨27, 2⟩, ⟨31, 2⟩, ⟨35, 3⟩, ⟨43, 3⟩, ⟨51, 3⟩, ⟨59, 3⟩, ⟨67, 4⟩,
    ⟨83, 4⟩, ⟨99, 4⟩, ⟨115, 4⟩, ⟨131, 5⟩, ⟨163, 5⟩, ⟨195, 5⟩, ⟨227, 5⟩, ⟨258, 0⟩]

def distanceSpans : List Span :=
  [⟨1, 0⟩, ⟨2, 0⟩, ⟨3, 0⟩, ⟨4, 0⟩, ⟨5, 1⟩, ⟨7, 1⟩, ⟨9, 2⟩, ⟨13, 2⟩, ⟨17, 3⟩, ⟨25, 3⟩, ⟨33, 4⟩,
    ⟨49, 4⟩, ⟨65, 5⟩, ⟨97, 5⟩, ⟨129, 6⟩, ⟨193, 6⟩, ⟨257, 7⟩, ⟨385, 7⟩, ⟨513, 8⟩, ⟨769, 8⟩,
    ⟨1025, 9⟩, ⟨1537, 9⟩, ⟨2049, 10⟩, ⟨3073, 10⟩, ⟨4097, 11⟩, ⟨6145, 11⟩, ⟨8193, 12⟩,
    ⟨12289, 12⟩, ⟨16385, 13⟩, ⟨24577, 13⟩]

def spanned (spans : List Span) (symbol : Nat) (bs : Bits) : Reading Nat :=
  match spans[symbol]? with
  | none => .refused
  | some span => (number span.extra bs).bind fun n rest => .found (span.base + n) rest

inductive Ending where
  | complete (rest : Bits)
  | starved
  | refused
  deriving DecidableEq, Repr

structure Inflated where
  output : Array UInt8
  ending : Ending
  deriving DecidableEq, Repr

/-- The byte at a distance back from the end of the output; before the output there are zeros. -/
def back (distance : Nat) (out : Array UInt8) : UInt8 :=
  if distance ≤ out.size then out.getD (out.size - distance) 0 else 0

def copy (distance : Nat) : (count : Nat) → Array UInt8 → Array UInt8
  | 0, out => out
  | count + 1, out => copy distance count (out.push (back distance out))

def reach (distances : Code) (symbol : Nat) (bs : Bits) : Reading (Nat × Nat) :=
  (spanned lengthSpans (symbol - 257) bs).bind fun count rest =>
    (distances.next rest).bind fun d rest =>
      (spanned distanceSpans d rest).bind fun distance rest => .found (distance, count) rest

def symbols (literals distances : Code) : (fuel : Nat) → Array UInt8 → Bits → Inflated
  | 0, out, _ => ⟨out, .refused⟩
  | fuel + 1, out, bs =>
    match literals.next bs with
    | .starved => ⟨out, .starved⟩
    | .refused => ⟨out, .refused⟩
    | .found s rest =>
      if s < 256 then symbols literals distances fuel (out.push (UInt8.ofNat s)) rest
      else if s = 256 then ⟨out, .complete rest⟩
      else match reach distances s rest with
        | .starved => ⟨out, .starved⟩
        | .refused => ⟨out, .refused⟩
        | .found (distance, count) rest =>
          symbols literals distances fuel (copy distance count out) rest

def verbatim : (count : Nat) → Array UInt8 → Bits → Inflated
  | 0, out, bs => ⟨out, .complete bs⟩
  | count + 1, out, bs =>
    match number 8 bs with
    | .found b rest => verbatim count (out.push (UInt8.ofNat b)) rest
    | .starved => ⟨out, .starved⟩
    | .refused => ⟨out, .refused⟩

def stored (out : Array UInt8) (bs : Bits) : Inflated :=
  let start := (number 16 (bs.drop (bs.length % 8))).bind fun count rest =>
    (number 16 rest).bind fun check rest =>
      if count + check = 0xFFFF then .found count rest else .refused
  match start with
  | .starved => ⟨out, .starved⟩
  | .refused => ⟨out, .refused⟩
  | .found count rest => verbatim count out rest

def fixedLiterals : Code :=
  .ofLengths (List.replicate 144 8 ++ List.replicate 112 9 ++ List.replicate 24 7 ++
    List.replicate 8 8)

def fixedDistances : Code := .ofLengths (List.replicate 32 5)

def lengthOrder : List Nat := [16, 17, 18, 0, 8, 7, 9, 6, 10, 5, 11, 4, 12, 3, 13, 2, 14, 1, 15]

def triples : (count : Nat) → Bits → Reading (List Nat)
  | 0, bs => .found [] bs
  | count + 1, bs => (number 3 bs).bind fun n rest =>
      (triples count rest).bind fun ns rest => .found (n :: ns) rest

def lengths (code : Code) (total : Nat) : (fuel : Nat) → (done : List Nat) → Bits →
    Reading (List Nat)
  | 0, _, _ => .refused
  | fuel + 1, done, bs =>
    if done.length = total then .found done.reverse bs
    else if total < done.length then .refused
    else (code.next bs).bind fun s rest =>
      if s < 16 then lengths code total fuel (s :: done) rest
      else if s = 16 then
        match done with
        | [] => .refused
        | last :: _ => (number 2 rest).bind fun n rest =>
            lengths code total fuel (List.replicate (n + 3) last ++ done) rest
      else if s = 17 then (number 3 rest).bind fun n rest =>
        lengths code total fuel (List.replicate (n + 3) 0 ++ done) rest
      else (number 7 rest).bind fun n rest =>
        lengths code total fuel (List.replicate (n + 11) 0 ++ done) rest

/-- A code must use up all codes, unless it has at most one. -/
def isUsable (c : Code) : Bool := c.isComplete || c.symbols.size ≤ 1

def dynamicCodes (bs : Bits) : Reading (Code × Code) :=
  (number 5 bs).bind fun literalCount bs =>
  (number 5 bs).bind fun distanceCount bs =>
  (number 4 bs).bind fun lengthCount bs =>
    if 29 < literalCount ∨ 29 < distanceCount then .refused
    else (triples (lengthCount + 4) bs).bind fun ns bs =>
      let given := lengthOrder.zip ns
      let code := Code.ofLengths ((List.range 19).map fun s => (given.lookup s).getD 0)
      if !code.isComplete then .refused
      else
        let literalCount := literalCount + 257
        let total := literalCount + distanceCount + 1
        (lengths code total (total + 1) [] bs).bind fun ls bs =>
          let literals := Code.ofLengths (ls.take literalCount)
          let distances := Code.ofLengths (ls.drop literalCount)
          if isUsable literals && isUsable distances then .found (literals, distances) bs
          else .refused

def block (out : Array UInt8) (bs : Bits) : Inflated :=
  match number 2 bs with
  | .starved => ⟨out, .starved⟩
  | .refused => ⟨out, .refused⟩
  | .found 0 rest => stored out rest
  | .found 1 rest => symbols fixedLiterals fixedDistances (rest.length + 1) out rest
  | .found 2 rest =>
    match dynamicCodes rest with
    | .starved => ⟨out, .starved⟩
    | .refused => ⟨out, .refused⟩
    | .found (literals, distances) rest => symbols literals distances (rest.length + 1) out rest
  | .found _ _ => ⟨out, .refused⟩

def blocks : (fuel : Nat) → Array UInt8 → Bits → Inflated
  | 0, out, _ => ⟨out, .refused⟩
  | fuel + 1, out, bs =>
    match bs with
    | [] => ⟨out, .starved⟩
    | final :: rest =>
      let result := block out rest
      match result.ending with
      | .complete rest => if final then result else blocks fuel result.output rest
      | _ => result

def inflate (bs : Bits) : Inflated := blocks (bs.length + 1) #[] bs

end PaintedImages.Inflate
