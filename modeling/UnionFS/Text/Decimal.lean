/-!
# Decimal numbers

A number written with a fraction or an exponent is first rounded to the nearest number of 53 binary
digits, a tie going to the one with an even last digit, and then cut down to its whole part.
-/

namespace UnionFS

/-- The number `mantissa * 10 ^ exponent`. -/
structure Decimal where
  mantissa : Nat
  exponent : Int
  deriving DecidableEq, Repr

namespace Decimal

/-- `num / den` rounded to a whole number, a tie to the even one. -/
def roundDiv (num den : Nat) : Nat :=
  let q := num / den
  let r := num % den
  if den < 2 * r || (2 * r == den && q % 2 == 1) then q + 1 else q

/-- How many binary digits are kept. -/
def precision : Nat := 53

/-- The whole part of `num / den` after rounding to the kept digits. -/
def wholePart (num den : Nat) : Nat :=
  let guess := Nat.log2 num - Nat.log2 den
  -- The quotient has `guess` or `guess + 1` digits before the point, or else none but zeros.
  let digits := if den * 2 ^ guess ≤ num then guess + 1 else guess
  if precision < digits then
    let scale := 2 ^ (digits - precision)
    roundDiv num (den * scale) * scale
  else if num < den then
    -- Below one, only what is within half a last place of it is rounded up.
    if den * (2 ^ (precision + 1) - 1) ≤ num * 2 ^ (precision + 1) then 1 else 0
  else
    let scale := 2 ^ (precision - digits)
    roundDiv (num * scale) den / scale

/-- The greatest exponent of ten and the least that need a closer look. -/
def greatest : Int := 310
def least : Int := -20

/-- The mantissa as a quotient of whole numbers. -/
def quotient (d : Decimal) : Nat × Nat :=
  (d.mantissa * 10 ^ d.exponent.toNat, 10 ^ (-d.exponent).toNat)

/-- The place of the first digit: the number is below `10` to this power. -/
def magnitude (d : Decimal) : Int :=
  (Nat.toDigits 10 d.mantissa).length + d.exponent

/-- From half a last place above the greatest number with 53 binary digits and an exponent of 10
bits on, a number counts as infinite. -/
def infinity : Nat := 2 ^ 970 * (2 ^ 54 - 1)

def isInfinite (d : Decimal) : Bool :=
  if d.mantissa = 0 || d.magnitude < least then false
  else if greatest < d.magnitude then true
  else infinity * d.quotient.2 ≤ d.quotient.1

/-- The whole part of a number that is not infinite. -/
def whole (d : Decimal) : Nat :=
  if d.mantissa = 0 || d.magnitude < least then 0
  else wholePart d.quotient.1 d.quotient.2

end Decimal
end UnionFS
