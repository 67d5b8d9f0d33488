import Retrace.Double.Shortest

/-!
# Doubles as text

`Double.text` writes the shortest decimal of a double, positionally within a range of exponents and
in scientific notation outside it; what differs between formats is held in a `Double.Style`.

`Double.ofText?` reads a signed decimal, with or without point and exponent, or the name of a
special value in any letter case.
-/

namespace Retrace
namespace Double

/-- The decisions of a format that writes doubles. Exponents of the leading digit from `plainFrom`
up to but not including `plainBelow` are written positionally. -/
structure Style where
  plainFrom : Int
  plainBelow : Int
  /-- Whether a positive exponent carries its sign. -/
  signedExponent : Bool
  tie : Tie
  nan : String
  infinity : String
  negativeInfinity : String
deriving Repr

/-- Lays a positive decimal out: with a point and at least one digit on either side of it, or as a
leading digit, further digits if there are any, and an exponent. -/
def Style.layOut (style : Style) (d : Decimal) : List Char :=
  let digits := Nat.toDigits 10 d.digits
  let leading : Int := digits.length - 1 + d.exponent
  if style.plainFrom ≤ leading ∧ leading < style.plainBelow then
    if 0 ≤ d.exponent then digits ++ List.replicate d.exponent.toNat '0' ++ ['.', '0']
    else if 0 ≤ leading then
      digits.take (leading + 1).toNat ++ '.' :: digits.drop (leading + 1).toNat
    else '0' :: '.' :: List.replicate (-leading - 1).toNat '0' ++ digits
  else
    let mantissa := match digits with
      | first :: second :: more => first :: '.' :: second :: more
      | short => short
    let sign := if leading < 0 then ['-'] else if style.signedExponent then ['+'] else []
    mantissa ++ 'e' :: sign ++ Nat.toDigits 10 leading.natAbs

/-- A double as a format writes it. The sign is that of the bits, so `-0.0` has one. -/
def chars (style : Style) (x : Double) : List Char :=
  if x.isNaN then style.nan.toList
  else if x.isInfinite then
    (if x.negative then style.negativeInfinity else style.infinity).toList
  else
    let size := if x.isZero then ['0', '.', '0'] else style.layOut (x.shortest style.tie)
    if x.negative then '-' :: size else size

/-- The same as a string. -/
def text (style : Style) (x : Double) : String := String.ofList (x.chars style)

/-! ## Reading -/

/-- A whole number with an optional sign and at least one digit. -/
def exponentOf? (cs : List Char) : Option Int :=
  let magnitude? (ds : List Char) : Option Int :=
    if ds ≠ [] ∧ ds.all Char.isDigit then some (Nat.ofDigitChars 10 ds 0 : Nat) else none
  match cs with
  | '+' :: ds => magnitude? ds
  | '-' :: ds => (magnitude? ds).map fun n => -n
  | ds => magnitude? ds

/-- Digits with an optional point among or beside them, and an optional exponent. -/
def decimalOf? (cs : List Char) : Option Decimal :=
  let whole := cs.takeWhile Char.isDigit
  let (places, rest) := match cs.dropWhile Char.isDigit with
    | '.' :: r => (r.takeWhile Char.isDigit, r.dropWhile Char.isDigit)
    | r => ([], r)
  let exponent? : Option Int := match rest with
    | [] => some 0
    | c :: r => if c = 'e' ∨ c = 'E' then exponentOf? r else none
  if whole ++ places = [] then none
  else exponent?.map fun e => ⟨Nat.ofDigitChars 10 (whole ++ places) 0, e - places.length⟩

/-- Reads what follows the sign. -/
def unsignedOf? (negative : Bool) (cs : List Char) : Option Double :=
  let name := String.ofList (cs.map Char.toLower)
  if name = "inf" ∨ name = "infinity" then some (infinity negative)
  else if name = "nan" then some (nan negative)
  else (decimalOf? cs).map (ofDecimal negative)

/-- Reads a double: an optional sign before a decimal or the name of a special value. -/
def ofText? : List Char → Option Double
  | '+' :: cs => unsignedOf? false cs
  | '-' :: cs => unsignedOf? true cs
  | cs => unsignedOf? false cs

end Double
end Retrace
