import Mathlib.Algebra.Order.Field.Power
import Mathlib.Algebra.Order.Field.Rat
import Mathlib.Tactic.FieldSimp
import Mathlib.Tactic.Linarith
import Mathlib.Tactic.NormNum
import Mathlib.Tactic.Positivity
import Retrace.Double.Shortest

/-!
# What rounds to a double

A double is printed as some decimal in the interval of reals that round to it. That rounding such a
decimal gives the double back is shown here (`Double.decimalMagnitude_of_rounds`), over the
rationals: `Double.Rounds` is the interval, `binade` the power of two that a fraction lies at, and
from these two follow the exponent and the significand that the fraction is rounded to.

One case stands apart. The interval of a power of two begins in the binade below, where the unit is
half as large. What is rounded up from there gets a significand of 54 bits, and it is the carry into
the exponent that makes the power of two of it (`Double.ratioMagnitude_carried`).
-/

namespace Retrace

/-- The number that a decimal is. -/
def Decimal.value (d : Decimal) : ℚ := d.digits * (10 : ℚ) ^ d.exponent

/-! ## Rounding a fraction -/

theorem roundHalfEven_eq {n d m : Nat} (some_ : 0 < d) (low : 2 * (m * d) ≤ 2 * n + d)
    (high : 2 * n ≤ 2 * (m * d) + d)
    (tie : m % 2 = 1 → 2 * (m * d) < 2 * n + d ∧ 2 * n < 2 * (m * d) + d) :
    roundHalfEven n d = m := by
  have split := Nat.div_add_mod n d
  have small := Nat.mod_lt n some_
  unfold roundHalfEven
  generalize n / d = quotient at *
  generalize n % d = rest at *
  have below : quotient ≤ m := by
    by_contra more
    have : (m + 1) * d ≤ d * quotient := by
      rw [Nat.mul_comm d]
      exact Nat.mul_le_mul_right d (by omega)
    rw [Nat.add_mul] at this
    omega
  have above : m ≤ quotient + 1 := by
    by_contra more
    have : d * (quotient + 2) ≤ m * d := by
      rw [Nat.mul_comm m]
      exact Nat.mul_le_mul_left d (by omega)
    rw [Nat.mul_add] at this
    omega
  obtain rfl | rfl : m = quotient ∨ m = quotient + 1 := by omega
  · rw [Nat.mul_comm m] at *
    dsimp only
    split <;> omega
  · rw [Nat.add_mul, Nat.mul_comm quotient] at *
    dsimp only
    split <;> omega

/-- A fraction is rounded to the whole number that it is within half a unit of. -/
theorem roundHalfEven_of_near {n d m : Nat} (some_ : 0 < d) (low : (m : ℚ) - 1 / 2 ≤ n / d)
    (high : (n / d : ℚ) ≤ m + 1 / 2)
    (tie : m % 2 = 1 → (m : ℚ) - 1 / 2 < n / d ∧ (n / d : ℚ) < m + 1 / 2) :
    roundHalfEven n d = m := by
  have positive : (0 : ℚ) < d := Nat.cast_pos.2 some_
  rw [le_div_iff₀ positive] at low
  rw [div_le_iff₀ positive] at high
  rw [lt_div_iff₀ positive, div_lt_iff₀ positive] at tie
  refine roundHalfEven_eq some_ ?_ ?_ fun odd => ?_
  · have : (2 * (m * d) : ℚ) ≤ 2 * n + d := by linarith
    exact_mod_cast this
  · have : (2 * n : ℚ) ≤ 2 * (m * d) + d := by linarith
    exact_mod_cast this
  · obtain ⟨below, above⟩ := tie odd
    have low' : (2 * (m * d) : ℚ) < 2 * n + d := by linarith
    have high' : (2 * n : ℚ) < 2 * (m * d) + d := by linarith
    exact ⟨by exact_mod_cast low', by exact_mod_cast high'⟩

/-! ## Powers of two and ten, with whole numbers -/

/-- A power with a whole exponent, as a fraction of two powers of a number. -/
theorem zpow_eq_div (b : ℚ) (some_ : b ≠ 0) (k : Int) :
    b ^ k = b ^ k.toNat / b ^ (-k).toNat := by
  rw [← zpow_natCast, ← zpow_natCast, ← zpow_sub₀ some_]
  congr 1
  omega

/-- The exponent of the power of two at or below a fraction. -/
def binade (num den : Nat) : Int :=
  let gap : Int := (Nat.log2 num : Int) - Nat.log2 den
  if (if 0 ≤ gap then den * Nat.pow 2 gap.toNat ≤ num else den ≤ num * Nat.pow 2 (-gap).toNat)
  then gap else gap - 1

theorem two_pow_gap_le {num den : Nat} (some_ : 0 < den) (gap : Int) :
    (if 0 ≤ gap then den * Nat.pow 2 gap.toNat ≤ num else den ≤ num * Nat.pow 2 (-gap).toNat) ↔
      (2 : ℚ) ^ gap ≤ num / den := by
  have positive : (0 : ℚ) < den := Nat.cast_pos.2 some_
  rw [le_div_iff₀ positive, zpow_eq_div 2 two_ne_zero gap, div_mul_eq_mul_div,
    div_le_iff₀ (by positivity)]
  simp only [Nat.pow_eq]
  split
  · rename_i up
    rw [show (-gap).toNat = 0 by omega, pow_zero, mul_one, mul_comm]
    exact_mod_cast Iff.rfl
  · rename_i down
    rw [show gap.toNat = 0 by omega, pow_zero, one_mul]
    exact_mod_cast Iff.rfl

/-- A fraction lies between the power of two of its binade and the next one. -/
theorem binade_bounds {num den : Nat} (top : 0 < num) (bottom : 0 < den) :
    (2 : ℚ) ^ binade num den ≤ num / den ∧ (num / den : ℚ) < 2 ^ (binade num den + 1) := by
  have positive : (0 : ℚ) < den := Nat.cast_pos.2 bottom
  have numLow : (2 : ℚ) ^ (Nat.log2 num : Int) ≤ num := by
    exact_mod_cast Nat.log2_self_le top.ne'
  have numHigh : (num : ℚ) < 2 ^ ((Nat.log2 num : Int) + 1) := by
    exact_mod_cast Nat.lt_log2_self (n := num)
  have denLow : (2 : ℚ) ^ (Nat.log2 den : Int) ≤ den := by
    exact_mod_cast Nat.log2_self_le bottom.ne'
  have denHigh : (den : ℚ) < 2 ^ ((Nat.log2 den : Int) + 1) := by
    exact_mod_cast Nat.lt_log2_self (n := den)
  unfold binade
  generalize (Nat.log2 num : Int) = a at *
  generalize (Nat.log2 den : Int) = c at *
  dsimp only
  by_cases reached : (2 : ℚ) ^ (a - c) ≤ num / den
  · rw [if_pos ((two_pow_gap_le bottom _).2 reached)]
    refine ⟨reached, ?_⟩
    rw [div_lt_iff₀ positive]
    calc (num : ℚ) < 2 ^ (a + 1) := numHigh
      _ = 2 ^ (a - c + 1) * 2 ^ c := by rw [← zpow_add₀ two_ne_zero]; congr 1; omega
      _ ≤ 2 ^ (a - c + 1) * den := by gcongr
  · rw [if_neg fun high => reached ((two_pow_gap_le bottom _).1 high)]
    refine ⟨?_, by rwa [Int.sub_add_cancel, ← not_le]⟩
    rw [le_div_iff₀ positive]
    calc (2 : ℚ) ^ (a - c - 1) * den ≤ 2 ^ (a - c - 1) * 2 ^ (c + 1) := by gcongr
      _ = 2 ^ a := by rw [← zpow_add₀ two_ne_zero]; congr 1; omega
      _ ≤ num := numLow

theorem lt_of_two_zpow_lt {k l : Int} (h : (2 : ℚ) ^ k < 2 ^ l) : k < l :=
  (zpow_lt_zpow_iff_right₀ one_lt_two).1 h

namespace Double

variable {x : Double}

/-! ## The fields of a double -/

theorem fraction_lt (x : Double) : x.fraction < 2 ^ 52 := Nat.mod_lt _ (by decide)

theorem magnitudeBits_eq (x : Double) : x.magnitudeBits = x.biased * 2 ^ 52 + x.fraction := by
  unfold magnitudeBits biased fraction
  simp only [Nat.pow_eq]
  rw [show 2 ^ 63 = 2 ^ 52 * 2 ^ 11 from rfl, Nat.mod_mul, Nat.add_comm, Nat.mul_comm]

/-- A finite double that is not zero, by its significand and its exponent. -/
structure Regular (x : Double) : Prop where
  positive : 0 < x.significand
  small : x.significand < 2 ^ 53
  least : -1074 ≤ x.exponent
  most : x.exponent ≤ 971
  full : -1074 < x.exponent → 2 ^ 52 ≤ x.significand
  bits : x.magnitudeBits = (x.exponent + 1074).toNat * 2 ^ 52 + x.significand
  finite : x.magnitudeBits < infinityBits
  low : x.interval.low = 4 * x.significand -
    if x.significand = 2 ^ 52 ∧ -1074 < x.exponent then 1 else 2

theorem regular (finite : x.isFinite = true) (some_ : x.isZero = false) : x.Regular := by
  have bits := x.magnitudeBits_eq
  have small := x.fraction_lt
  have finite : x.magnitudeBits < infinityBits := of_decide_eq_true finite
  have some_ : x.magnitudeBits ≠ 0 := of_decide_eq_false some_
  have infinity : infinityBits = 2047 * 2 ^ 52 := rfl
  by_cases denormal : x.biased = 0
  · have exponent : x.exponent = -1074 := by
      unfold exponent
      rw [denormal]
      rfl
    have significand : x.significand = x.fraction := if_pos denormal
    have low : x.interval.low = 4 * x.significand - 2 := by
      simp only [interval, denormal]
      simp
    refine ⟨by omega, by omega, by omega, by omega, by omega, ?_, finite, ?_⟩
    · rw [exponent, bits, denormal, significand]
      rfl
    · rw [low, if_neg (by omega)]
  · have exponent : x.exponent = x.biased - 1075 := by
      unfold exponent
      omega
    have significand : x.significand = x.fraction + 2 ^ 52 := if_neg denormal
    refine ⟨by omega, by omega, by omega, by omega, by omega, ?_, finite, ?_⟩
    · rw [exponent, bits, significand]
      omega
    · have edge : (x.fraction = 0 ∧ 1 < x.biased) ↔
          x.significand = 2 ^ 52 ∧ -1074 < x.exponent := by omega
      simp only [interval, edge]

/-! ## The interval of a double -/

/-- The number is one of those that round to a double: it is between the ends of the interval, or on
    one of them if the significand is even. -/
structure Rounds (x : Double) (q : ℚ) : Prop where
  low : (x.interval.low : ℚ) * 2 ^ (x.exponent - 2) ≤ q
  high : q ≤ x.interval.high * 2 ^ (x.exponent - 2)
  inner : x.significand % 2 = 1 → (x.interval.low : ℚ) * 2 ^ (x.exponent - 2) < q ∧
    q < x.interval.high * 2 ^ (x.exponent - 2)

theorem ratioMagnitude_eq (num den : Nat) : ratioMagnitude num den =
    let e := max (binade num den - 52) (-1074)
    min ((e + 1074).toNat * 2 ^ 52 +
      roundHalfEven (num * 2 ^ (-e).toNat) (den * 2 ^ e.toNat)) infinityBits := by
  have exponent (p : Prop) [Decidable p] (gap : Int) :
      (if p then gap - 52 else gap - 53) = (if p then gap else gap - 1) - 52 := by
    split <;> omega
  simp only [ratioMagnitude, binade, exponent, Nat.pow_eq]

/-- A fraction in units of a power of two, as a fraction. -/
theorem scaled_eq (num den : Nat) (e : Int) :
    ((num * 2 ^ (-e).toNat : Nat) : ℚ) / (den * 2 ^ e.toNat : Nat) = num / den / 2 ^ e := by
  rw [zpow_eq_div 2 two_ne_zero e]
  push_cast
  rw [div_div_eq_mul_div, mul_div_mul_comm, mul_div_assoc]

theorem quarter (e : Int) : (2 : ℚ) ^ (e - 2) = 2 ^ e / 4 := by
  rw [zpow_sub₀ two_ne_zero]
  norm_num

/-- What rounds to a double is within half a unit of its significand. -/
theorem Rounds.near {q : ℚ} (regular : x.Regular) (rounds : x.Rounds q) :
    (x.significand : ℚ) - 1 / 2 ≤ q / 2 ^ x.exponent ∧
      q / 2 ^ x.exponent ≤ x.significand + 1 / 2 ∧ (x.significand % 2 = 1 →
        (x.significand : ℚ) - 1 / 2 < q / 2 ^ x.exponent ∧
          q / 2 ^ x.exponent < x.significand + 1 / 2) := by
  have unit : (0 : ℚ) < 2 ^ x.exponent := by positivity
  have low : (4 * x.significand - 2 : ℚ) ≤ x.interval.low := by
    have positive := regular.positive
    have low : 4 * x.significand ≤ x.interval.low + 2 := by
      rw [regular.low]
      split <;> omega
    have : (4 * x.significand : ℚ) ≤ x.interval.low + 2 := by exact_mod_cast low
    linarith
  have high : (x.interval.high : ℚ) = 4 * x.significand + 2 := by
    simp [interval]
  have lowest : (x.significand - 1 / 2) * (2 : ℚ) ^ x.exponent ≤
      x.interval.low * (2 ^ x.exponent / 4) := by nlinarith
  obtain ⟨below, above, inner⟩ := rounds
  simp only [quarter, high] at below above inner
  rw [le_div_iff₀ unit, div_le_iff₀ unit, lt_div_iff₀ unit, div_lt_iff₀ unit]
  refine ⟨lowest.trans below, by linarith, fun odd => ?_⟩
  exact ⟨lowest.trans_lt (inner odd).1, by linarith [(inner odd).2]⟩

/-- Below a power of two, what rounds to it is within half of the smaller unit. -/
theorem Rounds.near_below {q : ℚ} (regular : x.Regular) (rounds : x.Rounds q)
    (edge : x.significand = 2 ^ 52) (more : -1074 < x.exponent) :
    (2 ^ 53 : ℚ) - 1 / 2 ≤ q / 2 ^ (x.exponent - 1) := by
  have low : (x.interval.low : ℚ) = 2 ^ 54 - 1 := by
    rw [regular.low, if_pos ⟨edge, more⟩, edge]
    norm_num
  have half : (2 : ℚ) ^ (x.exponent - 1) = 2 ^ (x.exponent - 2) * 2 := by
    rw [← zpow_add_one₀ two_ne_zero]
    congr 1
    omega
  have below := rounds.low
  rw [low] at below
  rw [half, le_div_iff₀ (by positivity)]
  linarith

/-- What rounds to a double lies below the next binade, also where it is rounded down. -/
theorem Rounds.binade_le (regular : x.Regular) {num den : Nat} (top : 0 < num) (bottom : 0 < den)
    (rounds : x.Rounds (num / den)) : binade num den ≤ x.exponent + 52 := by
  obtain ⟨-, atMost, -⟩ := rounds.near regular
  have unit : (0 : ℚ) < 2 ^ x.exponent := by positivity
  have significand : (x.significand : ℚ) + 1 ≤ 2 ^ 53 := by exact_mod_cast regular.small
  have limit : (2 : ℚ) ^ binade num den < 2 ^ (x.exponent + 53) := by
    rw [zpow_add₀ two_ne_zero]
    rw [div_le_iff₀ unit] at atMost
    calc (2 : ℚ) ^ binade num den ≤ num / den := (binade_bounds top bottom).1
      _ ≤ (x.significand + 1 / 2) * 2 ^ x.exponent := atMost
      _ < 2 ^ 53 * 2 ^ x.exponent := by gcongr; linarith
      _ = 2 ^ x.exponent * 2 ^ (53 : Int) := by rw [mul_comm]; rfl
  have := lt_of_two_zpow_lt limit
  omega

/-- A double that is rounded up to from the binade below its own is a power of two. -/
theorem Rounds.edge {q : ℚ} (regular : x.Regular) (rounds : x.Rounds q)
    (more : -1074 < x.exponent) (beneath : q < 2 ^ (x.exponent + 52)) :
    x.significand = 2 ^ 52 := by
  obtain ⟨atLeast, -, -⟩ := rounds.near regular
  have unit : (0 : ℚ) < 2 ^ x.exponent := by positivity
  refine le_antisymm ?_ (regular.full more)
  rw [le_div_iff₀ unit] at atLeast
  rw [zpow_add₀ two_ne_zero] at beneath
  have scaled : ((x.significand : ℚ) - 1 / 2) * 2 ^ x.exponent < 2 ^ 52 * 2 ^ x.exponent :=
    atLeast.trans_lt (beneath.trans_eq (mul_comm _ _))
  have small : (x.significand : ℚ) < (2 ^ 52 + 1 : Nat) := by
    push_cast
    linarith [lt_of_mul_lt_mul_right scaled unit.le]
  have : x.significand < 2 ^ 52 + 1 := by exact_mod_cast small
  omega

/-- What is rounded up to a power of two from the binade below has a significand of 54 bits, which
    carries into the exponent. -/
theorem ratioMagnitude_carried (regular : x.Regular) {num den : Nat} (top : 0 < num)
    (bottom : 0 < den) (rounds : x.Rounds (num / den)) (more : -1074 < x.exponent)
    (beneath : (num / den : ℚ) < 2 ^ (x.exponent + 52)) :
    ratioMagnitude num den = x.magnitudeBits := by
  have edge := rounds.edge regular more beneath
  have near := rounds.near_below regular edge more
  have half : (0 : ℚ) < 2 ^ (x.exponent - 1) := by positivity
  have notAbove : binade num den < x.exponent + 52 :=
    lt_of_two_zpow_lt ((binade_bounds top bottom).1.trans_lt beneath)
  -- the ratio lies in the binade below, so it is measured in units half as large
  have exponent : max (binade num den - 52) (-1074) = x.exponent - 1 := by
    have limit : (2 : ℚ) ^ (x.exponent - 1 + 52) < 2 ^ (binade num den + 1) := by
      refine lt_of_le_of_lt ?_ (binade_bounds top bottom).2
      rw [zpow_add₀ two_ne_zero]
      rw [le_div_iff₀ half] at near
      refine le_trans ?_ near
      rw [mul_comm]
      gcongr
      norm_num
    have := lt_of_two_zpow_lt limit
    omega
  have rounded : roundHalfEven (num * 2 ^ (-(x.exponent - 1)).toNat)
      (den * 2 ^ (x.exponent - 1).toNat) = 2 ^ 53 := by
    have within : (num / den : ℚ) / 2 ^ (x.exponent - 1) < 2 ^ 53 := by
      rw [div_lt_iff₀ half]
      refine beneath.trans_eq ?_
      rw [show x.exponent + 52 = 53 + (x.exponent - 1) by omega, zpow_add₀ two_ne_zero]
      rfl
    apply roundHalfEven_of_near (by positivity) <;> rw [scaled_eq]
    · exact_mod_cast near
    · push_cast
      linarith
    · exact fun odd => absurd odd (by decide)
  -- the significand is a power of two, and the carry makes up for the exponent
  have carried : (x.exponent - 1 + 1074).toNat * 2 ^ 52 + 2 ^ 53 = x.magnitudeBits := by
    have one_less : (x.exponent + 1074).toNat = (x.exponent - 1 + 1074).toNat + 1 := by omega
    rw [regular.bits, edge, one_less, Nat.add_mul, Nat.add_assoc]
    norm_num
  rw [ratioMagnitude_eq]
  simp only [exponent, rounded, carried]
  exact Nat.min_eq_left regular.finite.le

/-- **What lies in the interval of a double rounds to it.** -/
theorem ratioMagnitude_of_rounds (regular : x.Regular) {num den : Nat} (top : 0 < num)
    (bottom : 0 < den) (rounds : x.Rounds (num / den)) :
    ratioMagnitude num den = x.magnitudeBits := by
  have notAbove := rounds.binade_le regular top bottom
  have least := regular.least
  by_cases same : max (binade num den - 52) (-1074) = x.exponent
  · obtain ⟨atLeast, atMost, tie⟩ := rounds.near regular
    have rounded : roundHalfEven (num * 2 ^ (-x.exponent).toNat) (den * 2 ^ x.exponent.toNat) =
        x.significand := by
      apply roundHalfEven_of_near (by positivity) <;> rw [scaled_eq]
      · exact atLeast
      · exact atMost
      · exact tie
    rw [ratioMagnitude_eq]
    simp only [same, rounded, ← regular.bits]
    exact Nat.min_eq_left regular.finite.le
  · -- the unit of the double is too coarse for the number, which so lies in the binade below
    refine ratioMagnitude_carried regular top bottom rounds (by omega) ?_
    exact (binade_bounds top bottom).2.trans_le (zpow_le_zpow_right₀ one_le_two (by omega))

/-! ## Decimals in the interval of a double -/

theorem two_pow_le : (2 : ℚ) ^ (1023 : Int) ≤ 10 ^ (308 : Int) := by
  have base : (2 : ℚ) ^ 93 ≤ 10 ^ 28 := by norm_num
  have power := pow_le_pow_left₀ (by positivity) base 11
  rw [← pow_mul, ← pow_mul, ← zpow_natCast, ← zpow_natCast] at power
  exact power

theorem two_pow_most : (2 : ℚ) ^ (1024 : Int) ≤ 10 ^ (309 : Int) := by
  rw [show (1024 : Int) = 1023 + 1 by rfl, show (309 : Int) = 308 + 1 by rfl,
    zpow_add_one₀ (by norm_num), zpow_add_one₀ (by norm_num)]
  exact mul_le_mul two_pow_le (by norm_num) (by norm_num) (by positivity)

theorem two_pow_least : (10 : ℚ) ^ (-330 : Int) ≤ 2 ^ (-1075 : Int) := by
  have rest : (2 : ℚ) ^ (52 : Int) ≤ 10 ^ (22 : Int) := by norm_num
  rw [zpow_neg, zpow_neg]
  refine inv_anti₀ (by positivity) ?_
  rw [show (1075 : Int) = 1023 + 52 by rfl, show (330 : Int) = 308 + 22 by rfl,
    zpow_add₀ (by norm_num), zpow_add₀ (by norm_num)]
  exact mul_le_mul two_pow_le rest (by positivity) (by positivity)

/-- What rounds to a double is neither too small for one nor too large. -/
theorem Rounds.bounds {q : ℚ} (regular : x.Regular) (rounds : x.Rounds q) :
    (2 : ℚ) ^ (-1075 : Int) ≤ q ∧ q ≤ 2 ^ (1024 : Int) := by
  obtain ⟨atLeast, atMost, -⟩ := rounds.near regular
  have unit : (0 : ℚ) < 2 ^ x.exponent := by positivity
  have positive : (1 : ℚ) ≤ x.significand := by exact_mod_cast regular.positive
  have small : (x.significand : ℚ) + 1 ≤ 2 ^ (53 : Int) := by exact_mod_cast regular.small
  rw [le_div_iff₀ unit] at atLeast
  rw [div_le_iff₀ unit] at atMost
  constructor
  · calc (2 : ℚ) ^ (-1075 : Int) = 1 / 2 * 2 ^ (-1074 : Int) := by
          rw [show (-1075 : Int) = -1 + -1074 by rfl, zpow_add₀ two_ne_zero]
          norm_num
      _ ≤ (x.significand - 1 / 2) * 2 ^ x.exponent :=
        mul_le_mul (by linarith) (zpow_le_zpow_right₀ one_le_two regular.least) (by positivity)
          (by linarith)
      _ ≤ q := atLeast
  · calc q ≤ (x.significand + 1 / 2) * 2 ^ x.exponent := atMost
      _ ≤ 2 ^ (53 : Int) * 2 ^ (971 : Int) :=
        mul_le_mul (by linarith) (zpow_le_zpow_right₀ one_le_two regular.most) (by positivity)
          (by positivity)
      _ = 2 ^ (1024 : Int) := by rw [← zpow_add₀ two_ne_zero]; rfl

end Double

namespace Decimal

variable {d : Decimal}

/-- The exponent of the first power of ten above a decimal. -/
def leading (d : Decimal) : Int := (Nat.toDigits 10 d.digits).length + d.exponent

theorem leading_bounds (some_ : d.digits ≠ 0) :
    (10 : ℚ) ^ (d.leading - 1) ≤ d.value ∧ d.value < 10 ^ d.leading := by
  have unit : (0 : ℚ) < 10 ^ d.exponent := by positivity
  have long : 0 < (Nat.toDigits 10 d.digits).length := Nat.length_toDigits_pos
  have fits : ∀ k, 0 < k → ((Nat.toDigits 10 d.digits).length ≤ k ↔ d.digits < 10 ^ k) :=
    fun k => Nat.length_toDigits_le_iff (by decide)
  unfold leading value
  generalize (Nat.toDigits 10 d.digits).length = length at *
  obtain ⟨more, rfl⟩ : ∃ more, length = more + 1 := ⟨length - 1, by omega⟩
  constructor
  · have atLeast : 10 ^ more ≤ d.digits := by
      rcases Nat.eq_zero_or_pos more with rfl | positive
      · exact Nat.one_le_iff_ne_zero.2 some_
      · have := (fits more positive).not.1 (by omega)
        omega
    rw [show ((more + 1 : Nat) : Int) + d.exponent - 1 = more + d.exponent by omega,
      zpow_add₀ (by norm_num)]
    gcongr
    exact_mod_cast atLeast
  · have below := (fits (more + 1) long).1 le_rfl
    rw [zpow_add₀ (by norm_num)]
    gcongr
    exact_mod_cast below

end Decimal

namespace Double

variable {x : Double}

/-- **A decimal in the interval of a double is rounded to it.** -/
theorem decimalMagnitude_of_rounds {d : Decimal} (regular : x.Regular) (rounds : x.Rounds d.value) :
    decimalMagnitude d = x.magnitudeBits := by
  obtain ⟨atLeast, atMost⟩ := rounds.bounds regular
  have some_ : d.digits ≠ 0 := by
    intro zero
    rw [Decimal.value, zero, Nat.cast_zero, zero_mul] at atLeast
    exact absurd atLeast (not_le.2 (by positivity))
  obtain ⟨reached, within⟩ := Decimal.leading_bounds some_
  have ten : (1 : ℚ) < 10 := by norm_num
  have notSmall : ¬ d.leading < -330 := by
    have limit : (10 : ℚ) ^ (-330 : Int) < 10 ^ d.leading :=
      (two_pow_least.trans atLeast).trans_lt within
    have := (zpow_lt_zpow_iff_right₀ ten).1 limit
    omega
  have notLarge : ¬ 310 < d.leading := by
    have limit : (10 : ℚ) ^ (d.leading - 1) ≤ 10 ^ (309 : Int) :=
      (reached.trans atMost).trans two_pow_most
    have := (zpow_le_zpow_iff_right₀ ten).1 limit
    omega
  have fraction : ((d.digits * 10 ^ d.exponent.toNat : Nat) : ℚ) / (10 ^ (-d.exponent).toNat : Nat) =
      d.value := by
    rw [Decimal.value, zpow_eq_div 10 (by norm_num)]
    push_cast
    rw [mul_div_assoc]
  have unfolded : decimalMagnitude d = ratioMagnitude (d.digits * 10 ^ d.exponent.toNat)
      (10 ^ (-d.exponent).toNat) := by
    unfold decimalMagnitude
    rw [show ((Nat.toDigits 10 d.digits).length : Int) + d.exponent = d.leading from rfl]
    simp only [some_, notSmall, notLarge, or_self, if_false, Nat.pow_eq]
  rw [unfolded]
  refine ratioMagnitude_of_rounds regular ?_ (by positivity) (fraction ▸ rounds)
  exact Nat.mul_pos (Nat.pos_of_ne_zero some_) (by positivity)

end Double

end Retrace
