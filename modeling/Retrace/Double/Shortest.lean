import Retrace.Double.Decimal

/-!
# The fewest digits that name a double

Around every finite double lies the interval of reals that round to it. Its ends are halfway to the
neighbouring doubles, and belong to it when the significand is even. `Double.shortest` gives the
decimal in that interval that lies on the coarsest grid of a power of ten, which is the decimal with
the fewest digits; of two on one grid the one nearer to the double, and of two equally near the one
that the `Tie` names.

A grid has a point in the interval only if one of the double's two neighbours on the grid is in it,
so the search looks at these two alone, from a grid too coarse downwards.
-/

namespace Retrace

/-- Which of two decimals equally near to a double is taken. -/
inductive Tie
  | up
  | even
deriving DecidableEq, Repr

namespace Double

/-- The interval of reals that round to a double, in quarters of its last place. -/
structure Interval where
  low : Nat
  mid : Nat
  high : Nat
  closed : Bool
deriving Repr

/-- Below a power of two the doubles lie twice as dense as above it. -/
def interval (x : Double) : Interval where
  low := 4 * x.significand - if x.fraction = 0 ∧ 1 < x.biased then 1 else 2
  mid := 4 * x.significand
  high := 4 * x.significand + 2
  closed := x.significand % 2 = 0

/-- The neighbour of `x` on the grid of `10 ^ k` that rounds to `x`, as its number of grid steps.
Both the grid step and the quarter unit are written over one common denominator. -/
def onGrid? (x : Double) (tie : Tie) (k : Int) : Option Nat :=
  let q := x.exponent - 2
  let step := Nat.pow 10 k.toNat * Nat.pow 2 (-q).toNat
  let unit := Nat.pow 2 q.toNat * Nat.pow 10 (-k).toNat
  let i := x.interval
  let inside (c : Nat) : Bool :=
    if i.closed then i.low * unit ≤ c * step && c * step ≤ i.high * unit
    else i.low * unit < c * step && c * step < i.high * unit
  let below := i.mid * unit / step
  let above := below + 1
  match inside below, inside above with
  | true, true =>
    let down := i.mid * unit - below * step
    let up := above * step - i.mid * unit
    if down < up then some below
    else if up < down then some above
    else match tie with
      | .up => some above
      | .even => if below % 2 = 0 then some below else some above
  | true, false => some below
  | false, true => some above
  | false, false => none

/-- An exponent whose power of ten lies above a positive finite double. -/
def ceilingExponent (x : Double) : Int :=
  ((Nat.log2 x.significand : Int) + 1 + x.exponent) * 30103 / 100000 + 2

/-- The decimal that is exactly a positive finite double. There always is one, for two divides ten.
-/
def exact (x : Double) : Decimal :=
  if 0 ≤ x.exponent then ⟨x.significand * Nat.pow 2 x.exponent.toNat, 0⟩
  else ⟨x.significand * Nat.pow 5 (-x.exponent).toNat, x.exponent⟩

/-- The decimal with the fewest digits that rounds to a positive finite double. Seventeen digits
always suffice, so a search over two dozen grids finds one. -/
def shortest (tie : Tie) (x : Double) : Decimal :=
  let grids := (List.range 24).map fun (i : Nat) => x.ceilingExponent - (i : Int)
  (grids.findSome? fun k => (x.onGrid? tie k).map fun c => ⟨c, k⟩).getD x.exact

end Double
end Retrace
