import Mathlib.Algebra.Order.Ring.Unbundled.Rat

-- The arithmetic of `f64` on the numbers from zero to one, as rational numbers.
namespace UnitFloat

-- The nearest integer. Of two the even one.
def nearest (q : ℚ) : Int :=
  let r := q - q.floor
  if r < 1 / 2 ∨ r = 1 / 2 ∧ q.floor % 2 = 0 then q.floor else q.floor + 1

-- The nearest number with 53 binary digits.
def round (q : ℚ) : ℚ :=
  if q ≤ 0 then
    0
  else
    let k := 52 + (q.den.log2 - q.num.toNat.log2)
    let k := if q * 2 ^ k < 2 ^ 52 then k + 1 else k
    nearest (q * 2 ^ k) / 2 ^ k

def div (m n : Nat) : ℚ :=
  round (m / n)

def sub (x y : ℚ) : ℚ :=
  round (x - y)

-- Equal ratios are not the same number on every way to them.
example : div 2 3 < sub 1 (div 1 3) := by
  decide +kernel

example : sub 1 (div 3 10) = round (7 / 10) := by
  decide +kernel

end UnitFloat
