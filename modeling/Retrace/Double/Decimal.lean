import Retrace.Double.Basic

/-!
# Decimals and the doubles nearest to them

A `Decimal` is a whole number of units of a power of ten. `Double.ofDecimal` rounds one to the
nearest double, a tie going to the even significand and anything from half a unit above the largest
double on going to infinity. It is exact: the decimal becomes a fraction of two whole numbers, and
one division rounds once.
-/

namespace Retrace

/-- The number `digits · 10 ^ exponent`. -/
structure Decimal where
  digits : Nat
  exponent : Int
deriving DecidableEq, Repr

/-- The whole number nearest to `n / d`; of two equally near, the even one. -/
def roundHalfEven (n d : Nat) : Nat :=
  let quotient := n / d
  let rest := n % d
  if 2 * rest < d ∨ (2 * rest = d ∧ quotient % 2 = 0) then quotient else quotient + 1

namespace Double

/-- The magnitude bits of the double nearest to `num / den`, both positive. The exponent is the
least for which the significand has 53 bits, but never below that of the smallest doubles; a
significand that rounds up to 54 bits carries into the exponent field by itself. -/
def ratioMagnitude (num den : Nat) : Nat :=
  let gap : Int := (Nat.log2 num : Int) - Nat.log2 den
  let high := if 0 ≤ gap then den * Nat.pow 2 gap.toNat ≤ num
    else den ≤ num * Nat.pow 2 (-gap).toNat
  let e : Int := max (if high then gap - 52 else gap - 53) (-1074)
  let m := roundHalfEven (num * Nat.pow 2 (-e).toNat) (den * Nat.pow 2 e.toNat)
  min ((e + 1074).toNat * Nat.pow 2 52 + m) infinityBits

/-- The magnitude bits of the double nearest to a decimal. A decimal whose leading digit lies beyond
the range of doubles on either side needs no arithmetic. -/
def decimalMagnitude (d : Decimal) : Nat :=
  let leading : Int := (Nat.toDigits 10 d.digits).length + d.exponent
  if d.digits = 0 ∨ leading < -330 then 0
  else if 310 < leading then infinityBits
  else ratioMagnitude (d.digits * Nat.pow 10 d.exponent.toNat) (Nat.pow 10 (-d.exponent).toNat)

/-- The double nearest to a decimal, with the sign given apart so that a zero keeps it. -/
def ofDecimal (negative : Bool) (d : Decimal) : Double :=
  ofMagnitude negative (decimalMagnitude d)

end Double
end Retrace
