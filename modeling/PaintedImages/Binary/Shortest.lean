import PaintedImages.Binary.Rounding

/-! The fewest decimal digits that read back as a given binary number, and among those the nearest
to it. -/
namespace PaintedImages.Binary

structure Decimal where
  digits : Nat
  exponent : Int
  deriving DecidableEq, Repr

def Dyadic.ratio (d : Dyadic) : Nat × Nat :=
  (d.significand <<< d.power.toNat, 1 <<< (-d.power).toNat)

def candidates (f : Format) (d : Dyadic) (exponent : Int) : List Decimal :=
  let (num, den) := d.ratio
  let (num, den) := tenfold num den (-exponent)
  let low := num / den
  let near := if 2 * (num % den) < den then [low, low + 1] else [low + 1, low]
  (near.filter fun n =>
    let (a, b) := tenfold n 1 exponent
    0 < n && f.round a b == some d).map fun n => ⟨n, exponent⟩

def gridExponent (d : Dyadic) (count : Nat) : Int :=
  let (num, den) := d.ratio
  let whole := (Nat.toDigits 10 (num / den)).length
  if num / den = 0 then
    let shift := (Nat.toDigits 10 (den / num)).length
    let (a, b) := tenfold num den shift
    (if b ≤ a then 1 else 0) - (shift : Int) - count
  else (whole : Int) - count

def shortest (f : Format) (d : Dyadic) : Decimal :=
  let found := (List.range 18).findSome? fun count =>
    (candidates f d (gridExponent d (count + 1))).head?
  let trim (n : Nat) : Nat × Nat := (List.range 18).foldl
    (fun (m, k) _ => if m % 10 = 0 ∧ m ≠ 0 then (m / 10, k + 1) else (m, k)) (n, 0)
  match found with
  | some ⟨n, e⟩ => let (m, k) := trim n; ⟨m, e + k⟩
  | none => ⟨0, 0⟩

/-- Positional from 1e-5 up to below 1e16, always with a point; otherwise one digit before the
point and the power of ten after an `e`. -/
def Decimal.text (d : Decimal) : String :=
  let digits := Nat.toDigits 10 d.digits
  let point : Int := digits.length + d.exponent
  let zeros (n : Int) : List Char := List.replicate n.toNat '0'
  String.ofList <|
    if d.digits = 0 then ['0', '.', '0']
    else if 0 ≤ d.exponent ∧ point ≤ 16 then digits ++ zeros d.exponent ++ ['.', '0']
    else if 0 < point ∧ point ≤ 16 then digits.take point.toNat ++ '.' :: digits.drop point.toNat
    else if -5 < point ∧ point ≤ 0 then ['0', '.'] ++ zeros (-point) ++ digits
    else
      let power := (toString (point - 1)).toList
      match digits with
      | [c] => c :: 'e' :: power
      | c :: cs => c :: '.' :: cs ++ 'e' :: power
      | [] => []

end PaintedImages.Binary
