import Retrace.Double.Text
import Retrace.Wire.Bytes

/-!
# Scalars

The unquoted values of the format: truth values, integers of five widths and doubles. `Scalar` names
their types, so that one reader and one writer serve them all. An integer is read with an optional
sign and any number of leading zeros, as long as it fits its width; a minus sign is for the signed
ones only.
-/

namespace Retrace

/-- Doubles in a log: positional from `1e-4` up to `1e16`, an exponent without a plus sign beyond,
and of two equally short and equally near decimals the greater. -/
def logDouble : Double.Style where
  plainFrom := -4
  plainBelow := 16
  signedExponent := false
  tie := .up
  nan := "NaN"
  infinity := "inf"
  negativeInfinity := "-inf"

/-- A type of unquoted values. -/
inductive Scalar : Type → Type where
  | bool : Scalar Bool
  | u8 : Scalar UInt8
  | i32 : Scalar Int32
  | u32 : Scalar UInt32
  | i64 : Scalar Int64
  | u64 : Scalar UInt64
  | f64 : Scalar Double

namespace Scalar

/-- What a type is called in messages. -/
def name {α : Type} : Scalar α → String
  | bool => "bool"
  | u8 => "u8"
  | i32 => "i32"
  | u32 => "u32"
  | i64 => "i64"
  | u64 => "u64"
  | f64 => "f64"

/-! ## Integers as text -/

/-- The decimal digits of an integer, after a minus sign if it is negative. -/
def intChars (n : Int) : List Char :=
  if n < 0 then '-' :: Nat.toDigits 10 n.natAbs else Nat.toDigits 10 n.natAbs

/-- The number that decimal digits write; there must be one at least. -/
def digitsOf? (cs : List Char) : Option Nat :=
  if cs ≠ [] ∧ cs.all Char.isDigit then some (Nat.ofDigitChars 10 cs 0) else none

/-- Reads a number that cannot be negative. -/
def natOf? : List Char → Option Nat
  | '+' :: cs => digitsOf? cs
  | cs => digitsOf? cs

/-- Reads a number with any sign. -/
def intOf? : List Char → Option Int
  | '-' :: cs => (digitsOf? cs).map fun n => -(n : Int)
  | '+' :: cs => (digitsOf? cs).map fun n => (n : Int)
  | cs => (digitsOf? cs).map fun n => (n : Int)

/-! ## Scalars as text -/

/-- A scalar as it is written. -/
def chars {α : Type} : Scalar α → α → List Char
  | bool, b => if b then ['t', 'r', 'u', 'e'] else ['f', 'a', 'l', 's', 'e']
  | u8, n => Nat.toDigits 10 n.toNat
  | i32, n => intChars n.toInt
  | u32, n => Nat.toDigits 10 n.toNat
  | i64, n => intChars n.toInt
  | u64, n => Nat.toDigits 10 n.toNat
  | f64, x => x.chars logDouble

/-- Reads a scalar; a number that its type cannot hold is none. -/
def ofChars? {α : Type} : Scalar α → List Char → Option α
  | bool, cs =>
    if cs = ['t', 'r', 'u', 'e'] then some true
    else if cs = ['f', 'a', 'l', 's', 'e'] then some false
    else none
  | u8, cs => (natOf? cs).bind fun n => if n < UInt8.size then some (UInt8.ofNat n) else none
  | i32, cs => (intOf? cs).bind fun n =>
    if Int32.minValue.toInt ≤ n ∧ n ≤ Int32.maxValue.toInt then some (Int32.ofInt n) else none
  | u32, cs => (natOf? cs).bind fun n => if n < UInt32.size then some (UInt32.ofNat n) else none
  | i64, cs => (intOf? cs).bind fun n =>
    if Int64.minValue.toInt ≤ n ∧ n ≤ Int64.maxValue.toInt then some (Int64.ofInt n) else none
  | u64, cs => (natOf? cs).bind fun n => if n < UInt64.size then some (UInt64.ofNat n) else none
  | f64, cs => Double.ofText? cs

/-- The same as bytes. -/
def written {α : Type} (s : Scalar α) (a : α) : Bytes := Bytes.ascii (s.chars a)

end Scalar
end Retrace
