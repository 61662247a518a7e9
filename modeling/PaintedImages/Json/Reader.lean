import PaintedImages.Json.Writer
import PaintedImages.Text.Numeral

/-! Reading JSON text. A reader takes what it reads from the front of the text and leaves the rest;
a value can be read as such, read into a type of its own, or only be checked for its form and passed
over. A string with half a surrogate pair has the form of a string but no text. -/
namespace PaintedImages.Json

abbrev Text := List Char

abbrev Reader (α : Type) := Text → Option (α × Text)

def isSpace (c : Char) : Bool := c = ' ' || c = '\n' || c = '\t' || c = '\r'

def skipSpace (t : Text) : Text := t.dropWhile isSpace

def expect (c : Char) (t : Text) : Option Text :=
  match skipSpace t with
  | d :: rest => if d = c then some rest else none
  | [] => none

def unit (a b c d : Char) : Option Nat := do
  let high := (← Numeral.hexValue a) * 16 + (← Numeral.hexValue b)
  let low := (← Numeral.hexValue c) * 16 + (← Numeral.hexValue d)
  some (high * 256 + low)

def unescape (c : Char) : Option Char :=
  if c = quote ∨ c = backslash ∨ c = '/' then some c
  else if c = 'b' then some '\x08'
  else if c = 'f' then some '\x0c'
  else if c = 'n' then some '\n'
  else if c = 'r' then some '\r'
  else if c = 't' then some '\t'
  else none

def lowHalf : Text → Option (Nat × Text)
  | e :: u :: a :: b :: c :: d :: rest =>
    if e = backslash ∧ u = 'u' then
      match unit a b c d with
      | some n => if 0xDC00 ≤ n ∧ n ≤ 0xDFFF then some (n, rest) else none
      | none => none
    else none
  | _ => none

/-- A string after its opening quote. The text is `none` if some surrogate has no partner. -/
def stringBody : (fuel : Nat) → Text → Option (Option (List Char) × Text)
  | 0, _ => none
  | _ + 1, [] => none
  | fuel + 1, c :: rest =>
    if c = quote then some (some [], rest)
    else if c = backslash then
      match rest with
      | 'u' :: h :: i :: j :: k :: rest => do
        let n ← unit h i j k
        if n < 0xD800 ∨ 0xDFFF < n then
          let (s, t) ← stringBody fuel rest
          some (s.map (Char.ofNat n :: ·), t)
        else if n < 0xDC00 then
          match lowHalf rest with
          | some (m, rest) =>
            let (s, t) ← stringBody fuel rest
            some (s.map (Char.ofNat (0x10000 + (n - 0xD800) * 0x400 + (m - 0xDC00)) :: ·), t)
          | none =>
            let (_, t) ← stringBody fuel rest
            some (none, t)
        else
          let (_, t) ← stringBody fuel rest
          some (none, t)
      | e :: rest => do
        let d ← unescape e
        let (s, t) ← stringBody fuel rest
        some (s.map (d :: ·), t)
      | [] => none
    else if c.toNat < 32 then none
    else do
      let (s, t) ← stringBody fuel rest
      some (s.map (c :: ·), t)

def anyString : Reader (Option String) := fun t => do
  let rest ← expect quote t
  let (s, rest) ← stringBody rest.length rest
  some (s.map String.ofList, rest)

def text : Reader String := fun t => do
  let (s, rest) ← anyString t
  some (← s, rest)

structure Written where
  negative : Bool
  whole : List Char
  fraction : List Char
  exponent : Option Int
  deriving DecidableEq, Repr

def digits : Reader (List Char) := fun t =>
  let found := t.takeWhile Char.isDigit
  if found.isEmpty then none else some (found, t.dropWhile Char.isDigit)

def fraction : Reader (List Char)
  | '.' :: rest => digits rest
  | t => some ([], t)

def exponent (sign : Int) : Reader (Option Int) := fun t =>
  (digits t).map fun r => (some (sign * Numeral.value r.1), r.2)

def power : Reader (Option Int)
  | c :: rest =>
    if c = 'e' ∨ c = 'E' then
      match rest with
      | '-' :: rest => exponent (-1) rest
      | '+' :: rest => exponent 1 rest
      | rest => exponent 1 rest
    else some (none, c :: rest)
  | [] => some (none, [])

def unsigned (negative : Bool) : Reader Written := fun t => do
  let (whole, t) ← digits t
  if whole.head? = some '0' ∧ 1 < whole.length then none
  else
    let (fraction, t) ← fraction t
    let (exponent, t) ← power t
    some (⟨negative, whole, fraction, exponent⟩, t)

def numeral : Reader Written := fun t =>
  match skipSpace t with
  | '-' :: rest => unsigned true rest
  | t => unsigned false t

def significand (digits : List Char) : Nat × Nat :=
  let rec go (n : Nat) : List Char → Nat × Nat
    | [] => (n, 0)
    | c :: rest =>
      let m := n * 10 + (c.toNat - 48)
      if m < UInt64.size then go m rest else (n, rest.length + 1)
  go 0 digits

def scale (significand : Nat) (exponent : Int) : Option Binary.Dyadic := do
  let s ← Binary.double.round significand 1
  if s.significand = 0 then some s
  else if exponent < -700 then some ⟨0, Binary.double.least⟩
  else
    let (s, exponent) ← if exponent < -308 then do
        let p ← Binary.double.round (Nat.pow 10 308) 1
        let (n, d) := s.ratio
        let (pn, pd) := p.ratio
        some (← Binary.double.round (n * pd) (d * pn), exponent + 308)
      else some (s, exponent)
    if 308 < exponent then none
    else
      let p ← Binary.double.round (Nat.pow 10 exponent.natAbs) 1
      let (n, d) := s.ratio
      let (pn, pd) := p.ratio
      if 0 ≤ exponent then Binary.double.round (n * pn) (d * pd)
      else Binary.double.round (n * pd) (d * pn)

/-- The number a numeral denotes: an integer if it is written as one and fits into 64 bits, and a
real otherwise, unless that is too large. Minus zero is a real. -/
def Written.number (n : Written) : Option JsonNumber :=
  let whole := Numeral.value n.whole
  let isInteger := n.fraction.isEmpty && n.exponent.isNone
  let isSigned := n.negative && 0 < whole && whole ≤ UInt64.size / 2
  if isInteger && !n.negative && whole < UInt64.size then some (.integer whole)
  else if isInteger && isSigned then some (.integer (-whole))
  else
    let (s, left) := significand (n.whole ++ n.fraction)
    let exponent : Int := left - n.fraction.length + n.exponent.getD 0
    (scale s exponent).map (.real n.negative)

def word : Reader UInt32 := fun t => do
  let (n, rest) ← numeral t
  if n.negative ∨ !n.fraction.isEmpty ∨ n.exponent.isSome then none
  else
    let v := Numeral.value n.whole
    if v < UInt32.size then some (UInt32.ofNat v, rest) else none

def items {α : Type} (close : Char) (item : Reader α) : (fuel : Nat) → Reader (List α)
  | 0, _ => none
  | fuel + 1, t => do
    let (x, t) ← item t
    match skipSpace t with
    | c :: rest =>
      if c = close then some ([x], rest)
      else if c = ',' then do
        let (xs, t) ← items close item fuel rest
        some (x :: xs, t)
      else none
    | [] => none

def bracketed {α : Type} (opening close : Char) (item : Reader α) : Reader (List α) := fun t => do
  let t ← expect opening t
  match skipSpace t with
  | c :: rest => if c = close then some ([], rest) else items close item t.length t
  | [] => none

def list {α : Type} (item : Reader α) : Reader (List α) := bracketed '[' ']' item

def member {α β : Type} (name : Reader α) (value : α → Reader β) : Reader β := fun t => do
  let (n, t) ← name t
  let t ← expect ':' t
  value n t

def objectOf {α β : Type} (name : Reader α) (value : α → Reader β) : Reader (List β) :=
  bracketed '\x7b' '\x7d' (member name value)

def keyword (word : String) : Reader Unit := fun t =>
  let t := skipSpace t
  if t.take word.length = word.toList then some ((), t.drop word.length) else none

def skip : (fuel : Nat) → Reader Unit
  | 0, _ => none
  | fuel + 1, t =>
    match skipSpace t with
    | 'n' :: _ => keyword "null" t
    | 't' :: _ => keyword "true" t
    | 'f' :: _ => keyword "false" t
    | '[' :: _ => (list (skip fuel) t).map fun r => ((), r.2)
    | '\x7b' :: _ => (objectOf anyString (fun _ => skip fuel) t).map fun r => ((), r.2)
    | '\x22' :: _ => (anyString t).map fun r => ((), r.2)
    | _ => (numeral t).map fun r => ((), r.2)

def scalar : Reader Json := fun t =>
  match skipSpace t with
  | 'n' :: _ => (keyword "null" t).map fun r => (.null, r.2)
  | 't' :: _ => (keyword "true" t).map fun r => (.boolean true, r.2)
  | 'f' :: _ => (keyword "false" t).map fun r => (.boolean false, r.2)
  | '\x22' :: _ => (text t).map fun r => (.string r.1, r.2)
  | _ => do
    let (n, rest) ← numeral t
    some (.number (← n.number), rest)

def pair (reader : Reader Json) (name : String) : Reader (String × Json) := fun t =>
  (reader t).map fun r => ((name, r.1), r.2)

/-- Members in the order of their names; of those with one name the last counts. -/
def inOrder (members : List (String × Json)) : List (String × Json) :=
  members.foldl (fun ms m => insert m.1 m.2 ms) []

def value : (depth : Nat) → Reader Json
  | 0, t => scalar t
  | depth + 1, t =>
    match skipSpace t with
    | '[' :: _ => (list (value depth) t).map fun r => (.array r.1, r.2)
    | '\x7b' :: _ =>
      (objectOf text (pair (value depth)) t).map fun r => (.object (inOrder r.1), r.2)
    | _ => scalar t

def once {α : Type} (reader : Reader α) (found : Option α) : Reader (Option α) :=
  fun t => if found.isSome then none else (reader t).map fun r => (some r.1, r.2)

def fields {σ : Type} (field : String → Option (σ → Reader σ)) :
    (fuel : Nat) → σ → Reader σ
  | 0, _, _ => none
  | fuel + 1, state, t => do
    let (name, t) ← text t
    let t ← expect ':' t
    let (state, t) ← match field name with
      | some reader => reader state t
      | none => (skip (t.length + 1) t).map fun r => (state, r.2)
    match skipSpace t with
    | ',' :: rest => fields field fuel state rest
    | '\x7d' :: rest => some (state, rest)
    | _ => none

def fieldsOf {σ : Type} (field : String → Option (σ → Reader σ)) (start : σ) :
    Reader σ := fun t => do
  let t ← expect '\x7b' t
  match skipSpace t with
  | '\x7d' :: rest => some (start, rest)
  | _ => fields field t.length start t

def readAll {α : Type} (reader : Reader α) (s : String) : Option α := do
  let (a, rest) ← reader s.toList
  if (skipSpace rest).isEmpty then some a else none

/-- How many lists and objects may stand in one another; deeper text is refused. -/
def nestingLimit : Nat := 127

def parse (s : String) : Option Json := readAll (value nestingLimit) s

end PaintedImages.Json
