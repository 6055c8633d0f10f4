import Mathlib

/-!
# Machinery/Rounding — rounding to binary floating point

`roundTo p x` is the nearest number to `x` with a `p`-bit significand, ties to even: the result of
one correctly rounded operation in binary floating point without overflow or underflow (`p = 24` for
single, `p = 53` for double precision).
-/

namespace Rounding

/-- Quotient rounded to the nearest integer, ties to even. -/
def divNearestEven (n m : ℕ) : ℕ :=
  let q := n / m
  let r := n % m
  if 2 * r > m ∨ (2 * r = m ∧ q % 2 = 1) then q + 1 else q

/-- The nearest number with a `p`-bit significand. -/
def roundTo (p : ℕ) (x : ℚ) : ℚ :=
  let a := x.num.natAbs
  let b := x.den
  if a = 0 then 0
  else
    -- scaled by `2 ^ s / 2 ^ t`, the quotient `a / b` has `p` bits before the point
    let s := p + b.log2
    let t := if a * 2 ^ s < b * 2 ^ (p + a.log2) then a.log2 else a.log2 + 1
    let q := divNearestEven (a * 2 ^ s) (b * 2 ^ t)
    let v := mkRat (q * 2 ^ t) (2 ^ s)
    if x < 0 then -v else v

example : roundTo 24 (1 / 3) = 11184811 / 33554432 := by decide +kernel

example : roundTo 24 (16777217 : ℚ) = 16777216 := by decide +kernel

end Rounding
