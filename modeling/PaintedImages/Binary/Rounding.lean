/-! Binary floating-point numbers as the nearest ones to exact ratios. A finite number is a natural
number times a power of two; of two equally near ones the even wins, and a number too large for the
format is none. -/
namespace PaintedImages.Binary

structure Format where
  precision : Nat
  least : Int
  limit : Int
  deriving DecidableEq, Repr

def single : Format := ⟨24, -149, 128⟩
def double : Format := ⟨53, -1074, 1024⟩

structure Dyadic where
  significand : Nat
  power : Int
  deriving DecidableEq, Repr

def nearest (num den : Nat) : Nat :=
  let q := num / den
  let r := num % den
  if 2 * r < den then q else if den < 2 * r then q + 1 else q + q % 2

def scaled (num den : Nat) (power : Int) : Nat × Nat :=
  (num <<< (-power).toNat, den <<< power.toNat)

def Format.round (f : Format) (num den : Nat) : Option Dyadic :=
  if num = 0 then some ⟨0, f.least⟩
  else
    let guess : Int := (num.log2 : Int) - den.log2 - f.precision + 1
    let fits (power : Int) : Bool :=
      let (n, d) := scaled num den power
      d <<< (f.precision - 1) ≤ n
    let power := max f.least (if fits guess then guess else guess - 1)
    let (n, d) := scaled num den power
    let s := nearest n d
    let result := if s = 1 <<< f.precision then (⟨1 <<< (f.precision - 1), power + 1⟩ : Dyadic)
      else ⟨s, power⟩
    if f.limit < result.power + f.precision then none else some result

def Format.bits (f : Format) (d : Dyadic) : Nat :=
  let hidden := 1 <<< (f.precision - 1)
  if d.significand < hidden then d.significand
  else (d.power - f.least + 1).toNat * hidden + (d.significand - hidden)

def tenfold (num den : Nat) (exponent : Int) : Nat × Nat :=
  (num * Nat.pow 10 exponent.toNat, den * Nat.pow 10 (-exponent).toNat)

end PaintedImages.Binary
