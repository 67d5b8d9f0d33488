/-!
# Double-precision numbers, by their bits

A `Double` is the 64 bits of a binary floating-point number. Nothing here computes in hardware
floating point: a finite double is exactly `± significand · 2 ^ exponent`, both read off its fields,
and every operation that the log needs (comparing, truncating, printing, reading) is done on these
whole numbers. So two doubles are equal as data when their bits are, which tells `0.0` from `-0.0`
and one NaN from another.
-/

namespace Retrace

/-- A double-precision number: sign bit, eleven bits of exponent, 52 bits of fraction. -/
structure Double where
  bits : UInt64
deriving DecidableEq, Repr, Inhabited

namespace Double

/-- The fraction field, as stored. -/
def fraction (x : Double) : Nat := x.bits.toNat % Nat.pow 2 52

/-- The exponent field, as stored. -/
def biased (x : Double) : Nat := x.bits.toNat / Nat.pow 2 52 % Nat.pow 2 11

/-- Whether the sign bit is set. It may be for a zero and for a NaN. -/
def negative (x : Double) : Bool := Nat.pow 2 63 ≤ x.bits.toNat

/-- All bits but the sign. They order magnitudes as whole numbers. -/
def magnitudeBits (x : Double) : Nat := x.bits.toNat % Nat.pow 2 63

/-- The magnitude bits of infinity; those above it are the NaNs. -/
def infinityBits : Nat := 2047 * Nat.pow 2 52

/-- Whether the bits stand for no number at all. -/
def isNaN (x : Double) : Bool := infinityBits < x.magnitudeBits

def isInfinite (x : Double) : Bool := x.magnitudeBits = infinityBits

def isFinite (x : Double) : Bool := x.magnitudeBits < infinityBits

/-- Whether this is one of the two zeros. -/
def isZero (x : Double) : Bool := x.magnitudeBits = 0

/-- The whole number `m` of a finite double `± m · 2 ^ e`. -/
def significand (x : Double) : Nat :=
  if x.biased = 0 then x.fraction else x.fraction + Nat.pow 2 52

/-- The exponent `e` of a finite double `± m · 2 ^ e`. -/
def exponent (x : Double) : Int := max x.biased 1 - 1075

/-- The double with the given sign and magnitude bits. -/
def ofMagnitude (negative : Bool) (magnitude : Nat) : Double :=
  ⟨UInt64.ofNat (magnitude + if negative then Nat.pow 2 63 else 0)⟩

/-- The one NaN that reading produces. -/
def nan (negative : Bool) : Double := ofMagnitude negative (infinityBits + Nat.pow 2 51)

/-- The infinity of a sign. -/
def infinity (negative : Bool) : Double := ofMagnitude negative infinityBits

/-- The integer nearest to zero among those next to a finite double. -/
def truncated (x : Double) : Int :=
  let size : Nat := if 0 ≤ x.exponent then x.significand * Nat.pow 2 x.exponent.toNat
    else x.significand / Nat.pow 2 (-x.exponent).toNat
  if x.negative then -(size : Int) else size

/-- Whether a double is a whole number: it is finite, and no bit of it lies behind the point. -/
def isIntegral (x : Double) : Bool :=
  x.isFinite && (0 ≤ x.exponent || x.significand % Nat.pow 2 (-x.exponent).toNat = 0)

/-- The integer part of a double, held within `low … high`; a NaN counts as zero. -/
def clamped (low high : Int) (x : Double) : Int :=
  if x.isNaN then 0
  else if x.isInfinite then (if x.negative then low else high)
  else max low (min high x.truncated)

end Double
end Retrace
