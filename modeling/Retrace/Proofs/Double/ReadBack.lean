import Retrace.Double.Text
import Retrace.Proofs.Double.Rounding
import Retrace.Proofs.Wire.Scalars

/-!
# Doubles are read back from their text

The shortest decimal of a double lies in the interval of what rounds to it
(`Double.rounds_shortest`): the search takes only decimals that it has seen to lie there, and falls
back on the exact value. So rounding that decimal gives the double back.

Between the two stands the text. However a decimal is laid out, the text is made of digits, places
and an exponent (`Double.Parts`) that a reader takes apart again, for a decimal of the same value
(`Double.layOut_parts`); its digits need not be the same, as zeros are written up to the point.
Hence a finite double is read back in whatever style it was written (`Double.ofText?_chars_finite`),
and every scalar of a log as it is written there (`Scalar.faithful`).
-/

namespace Retrace

/-! ## Comparing a decimal with a binary number -/

theorem le_decimal {a b : Nat} {q k : Int} : (a : ℚ) * 2 ^ q ≤ b * 10 ^ k ↔
    a * (2 ^ q.toNat * 10 ^ (-k).toNat) ≤ b * (10 ^ k.toNat * 2 ^ (-q).toNat) := by
  rw [zpow_eq_div 2 two_ne_zero, zpow_eq_div 10 (by norm_num), mul_div_assoc', mul_div_assoc',
    div_le_div_iff₀ (by positivity) (by positivity), mul_assoc, mul_assoc]
  exact_mod_cast Iff.rfl

theorem lt_decimal {a b : Nat} {q k : Int} : (a : ℚ) * 2 ^ q < b * 10 ^ k ↔
    a * (2 ^ q.toNat * 10 ^ (-k).toNat) < b * (10 ^ k.toNat * 2 ^ (-q).toNat) := by
  rw [zpow_eq_div 2 two_ne_zero, zpow_eq_div 10 (by norm_num), mul_div_assoc', mul_div_assoc',
    div_lt_div_iff₀ (by positivity) (by positivity), mul_assoc, mul_assoc]
  exact_mod_cast Iff.rfl

theorem decimal_le {a b : Nat} {q k : Int} : (b : ℚ) * 10 ^ k ≤ a * 2 ^ q ↔
    b * (10 ^ k.toNat * 2 ^ (-q).toNat) ≤ a * (2 ^ q.toNat * 10 ^ (-k).toNat) := by
  rw [← not_lt, lt_decimal, not_lt]

theorem decimal_lt {a b : Nat} {q k : Int} : (b : ℚ) * 10 ^ k < a * 2 ^ q ↔
    b * (10 ^ k.toNat * 2 ^ (-q).toNat) < a * (2 ^ q.toNat * 10 ^ (-k).toNat) := by
  rw [← not_le, le_decimal, not_le]

namespace Double

variable {x : Double}

/-! ## The shortest decimal -/

/-- Whether a decimal on the grid of `10 ^ k` lies in the interval of a double. -/
def inside (x : Double) (k : Int) (c : Nat) : Bool :=
  let q := x.exponent - 2
  let step := Nat.pow 10 k.toNat * Nat.pow 2 (-q).toNat
  let unit := Nat.pow 2 q.toNat * Nat.pow 10 (-k).toNat
  let i := x.interval
  if i.closed then i.low * unit ≤ c * step && c * step ≤ i.high * unit
  else i.low * unit < c * step && c * step < i.high * unit

theorem rounds_of_inside {k : Int} {c : Nat} (inside : x.inside k c = true) :
    x.Rounds (Decimal.value ⟨c, k⟩) := by
  unfold Double.inside at inside
  simp only [Nat.pow_eq] at inside
  unfold Decimal.value
  split at inside
  · rename_i closed
    rw [Bool.and_eq_true, decide_eq_true_eq, decide_eq_true_eq, ← le_decimal, ← decimal_le]
      at inside
    have even : x.significand % 2 = 0 := of_decide_eq_true closed
    exact ⟨inside.1, inside.2, fun odd => by omega⟩
  · rw [Bool.and_eq_true, decide_eq_true_eq, decide_eq_true_eq, ← lt_decimal, ← decimal_lt]
      at inside
    exact ⟨inside.1.le, inside.2.le, fun _ => inside⟩

theorem inside_of_onGrid? {tie : Tie} {k : Int} {c : Nat} (found : x.onGrid? tie k = some c) :
    x.inside k c = true := by
  unfold onGrid? at found
  extract_lets q step unit i inside below above at found
  have low : inside below = x.inside k below := rfl
  have high : inside above = x.inside k above := rfl
  rw [low, high] at found
  split at found
  · rename_i lowInside highInside
    have taken : some c = some below ∨ some c = some above := by
      rw [← found]
      split
      · exact Or.inl rfl
      split
      · exact Or.inr rfl
      cases tie with
      | up => exact Or.inr rfl
      | even =>
        dsimp only
        split
        · exact Or.inl rfl
        · exact Or.inr rfl
    rcases taken with same | same
    · exact Option.some.inj same ▸ lowInside
    · exact Option.some.inj same ▸ highInside
  · rename_i lowInside _
    exact Option.some.inj found ▸ lowInside
  · rename_i _ highInside
    exact Option.some.inj found ▸ highInside
  · cases found

theorem rounds_exact (regular : x.Regular) : x.Rounds x.exact.value := by
  have same : x.exact.value = x.significand * 2 ^ x.exponent := by
    unfold exact Decimal.value
    rw [zpow_eq_div 2 two_ne_zero x.exponent]
    simp only [Nat.pow_eq]
    split
    · rename_i whole
      rw [show (-x.exponent).toNat = 0 by omega]
      simp
    · rename_i part
      rw [zpow_eq_div 10 (by norm_num), show x.exponent.toNat = 0 by omega]
      push_cast
      rw [pow_zero, pow_zero, mul_one_div, mul_one_div,
        div_eq_div_iff (by positivity) (by positivity), mul_assoc, ← mul_pow]
      norm_num
  have unit : (0 : ℚ) < 2 ^ x.exponent := by positivity
  have low : (x.interval.low : ℚ) < 4 * x.significand := by
    have positive := regular.positive
    have low : x.interval.low < 4 * x.significand := by
      rw [regular.low]
      split <;> omega
    exact_mod_cast low
  have high : (x.interval.high : ℚ) = 4 * x.significand + 2 := by
    simp [interval]
  have strict : x.interval.low * (2 : ℚ) ^ (x.exponent - 2) < x.significand * 2 ^ x.exponent ∧
      x.significand * 2 ^ x.exponent < x.interval.high * (2 : ℚ) ^ (x.exponent - 2) := by
    rw [quarter, high]
    constructor <;> nlinarith
  rw [same]
  exact ⟨strict.1.le, strict.2.le, fun _ => strict⟩

/-- **The shortest decimal of a double lies in its interval.** -/
theorem rounds_shortest (regular : x.Regular) (tie : Tie) : x.Rounds (x.shortest tie).value := by
  unfold shortest
  extract_lets grids
  cases found : grids.findSome? fun k => (x.onGrid? tie k).map fun c => (⟨c, k⟩ : Decimal) with
  | none => exact rounds_exact regular
  | some d =>
    obtain ⟨k, -, onGrid⟩ := List.exists_of_findSome?_eq_some found
    obtain ⟨c, isOn, rfl⟩ := Option.map_eq_some_iff.1 onGrid
    exact rounds_of_inside (inside_of_onGrid? isOn)

/-! ## Signs -/

theorem ofMagnitude_magnitudeBits (x : Double) : ofMagnitude x.negative x.magnitudeBits = x := by
  obtain ⟨bits⟩ := x
  have small := bits.toNat_lt
  unfold ofMagnitude negative magnitudeBits
  simp only [Nat.pow_eq, decide_eq_true_eq]
  congr 1
  apply UInt64.toNat.inj
  rw [UInt64.toNat_ofNat']
  split <;> omega

/-! ## Text -/

theorem all_isDigit_toDigits (n : Nat) : ∀ c ∈ Nat.toDigits 10 n, c.isDigit = true :=
  fun _ mem => Nat.isDigit_of_mem_toDigits (by decide) (by decide) mem

/-- Digits are taken up to something that is none. -/
theorem span_digits {digits rest : List Char} (all : ∀ c ∈ digits, c.isDigit = true)
    (ends : ∀ c ∈ rest.head?, c.isDigit = false) :
    (digits ++ rest).takeWhile Char.isDigit = digits ∧
      (digits ++ rest).dropWhile Char.isDigit = rest := by
  have stops : rest.takeWhile Char.isDigit = [] ∧ rest.dropWhile Char.isDigit = rest := by
    cases rest with
    | nil => exact ⟨rfl, rfl⟩
    | cons c rest => simp [ends c rfl]
  rw [List.takeWhile_append_of_pos all, List.dropWhile_append_of_pos all, stops.1, stops.2]
  exact ⟨List.append_nil _, rfl⟩

/-- What stands behind the digits of a decimal, for an exponent. -/
inductive Tail : List Char → Int → Prop
  | none : Tail [] 0
  | exponent {cs : List Char} {e : Int} (reads : exponentOf? cs = some e) : Tail ('e' :: cs) e

/-- The point and the places behind it, if there are any. -/
def pointed (places : List Char) : List Char := if places = [] then [] else '.' :: places

theorem decimalOf?_parts {whole places tail : List Char} {e : Int} (some_ : whole ≠ [])
    (all : ∀ c ∈ whole, c.isDigit = true) (all' : ∀ c ∈ places, c.isDigit = true)
    (isTail : Tail tail e) : decimalOf? (whole ++ (pointed places ++ tail)) =
      some ⟨Nat.ofDigitChars 10 (whole ++ places) 0, e - places.length⟩ := by
  have ends : ∀ c ∈ tail.head?, c.isDigit = false := by
    cases isTail with
    | none => simp
    | exponent => rintro _ ⟨⟩; rfl
  have ends' : ∀ c ∈ (pointed places ++ tail).head?, c.isDigit = false := by
    unfold pointed
    split
    · exact ends
    · rintro _ ⟨⟩
      rfl
  obtain ⟨isWhole, left⟩ := span_digits all ends'
  obtain ⟨isPlaces, rest⟩ := span_digits all' ends
  unfold decimalOf?
  simp only [isWhole, left]
  by_cases none : places = []
  · subst none
    cases isTail with
    | none => simp [pointed, some_]
    | exponent reads => simp [pointed, some_, reads]
  · have point : pointed places ++ tail = '.' :: (places ++ tail) := by
      simp [pointed, none]
    simp only [point, isPlaces, rest]
    cases isTail with
    | none => simp [some_]
    | exponent reads => simp [some_, reads]

/-- An exponent is read as a signed scalar is. -/
theorem exponentOf?_eq (cs : List Char) : exponentOf? cs = Scalar.intOf? cs := by
  have magnitude (ds : List Char) :
      (if ds ≠ [] ∧ ds.all Char.isDigit then some (Nat.ofDigitChars 10 ds 0 : Int) else none) =
        (Scalar.digitsOf? ds).map Int.ofNat := by
    unfold Scalar.digitsOf?
    split <;> rfl
  unfold exponentOf?
  dsimp only
  split
  · rw [magnitude, Scalar.intOf?]
    cases Scalar.digitsOf? _ <;> rfl
  · rw [magnitude, Scalar.intOf?_minus]
    cases Scalar.digitsOf? _ <;> rfl
  · rename_i plus minus
    rw [magnitude]
    cases cs with
    | nil => rfl
    | cons c cs =>
      refine (Scalar.intOf?_unsigned ?_ ?_ cs).symm
      · rintro rfl
        exact plus cs rfl
      · rintro rfl
        exact minus cs rfl

theorem exponentOf?_written (style : Style) (e : Int) :
    exponentOf? ((if e < 0 then ['-'] else if style.signedExponent then ['+'] else []) ++
      Nat.toDigits 10 e.natAbs) = some e := by
  have written := Scalar.intOf?_intChars e
  rw [exponentOf?_eq]
  unfold Scalar.intChars at written
  by_cases below : e < 0
  · rw [if_pos below] at written ⊢
    exact written
  · rw [if_neg below] at written ⊢
    split
    · have back : (e.natAbs : Int) = e := by omega
      rw [List.singleton_append, Scalar.intOf?, Scalar.digitsOf?_toDigits]
      exact congrArg some back
    · exact written

/-- The text of a decimal: digits, a point with places behind it, and an exponent. The last two need
    not be there. -/
structure Parts (cs : List Char) (d : Decimal) where
  whole : List Char
  places : List Char
  tail : List Char
  exponent : Int
  text : cs = whole ++ (pointed places ++ tail)
  some_ : whole ≠ []
  digits : ∀ c ∈ whole, c.isDigit = true
  digits' : ∀ c ∈ places, c.isDigit = true
  isTail : Tail tail exponent
  value : Decimal.value ⟨Nat.ofDigitChars 10 (whole ++ places) 0, exponent - places.length⟩ = d.value

theorem all_isDigit_zeros (n : Nat) : ∀ c ∈ List.replicate n '0', c.isDigit = true := by
  intro c mem
  rw [List.eq_of_mem_replicate mem]
  rfl

section Layouts

variable {d : Decimal} {digits : List Char}

/-- A whole number, up to its last place and with a zero behind the point. -/
theorem whole_parts (all : ∀ c ∈ digits, c.isDigit = true)
    (number : Nat.ofDigitChars 10 digits 0 = d.digits) (long : 0 < digits.length)
    (whole : 0 ≤ d.exponent) :
    Nonempty (Parts (digits ++ List.replicate d.exponent.toNat '0' ++ ['.', '0']) d) := by
  refine ⟨digits ++ List.replicate d.exponent.toNat '0', ['0'], [], 0, ?_, ?_, ?_, ?_, .none, ?_⟩
  · simp [pointed]
  · simp [List.ne_nil_of_length_pos long]
  · exact fun c mem => (List.mem_append.1 mem).elim (all c) (all_isDigit_zeros _ c)
  · exact all_isDigit_zeros 1
  · have scaled : Nat.ofDigitChars 10 (digits ++ List.replicate d.exponent.toNat '0' ++ ['0']) 0 =
        10 * (10 ^ d.exponent.toNat * d.digits) := by
      rw [Nat.ofDigitChars_append, Nat.ofDigitChars_append, number,
        Nat.ofDigitChars_replicate_zero]
      rfl
    have power : (10 : ℚ) ^ d.exponent = 10 ^ d.exponent.toNat := by
      rw [← zpow_natCast, Int.toNat_of_nonneg whole]
    have place : (0 : Int) - (['0'].length : Nat) = -1 := rfl
    unfold Decimal.value
    rw [scaled, power, place, zpow_neg_one, Nat.cast_mul 10, Nat.cast_ofNat, mul_comm (10 : ℚ),
      mul_inv_cancel_right₀ (by norm_num), Nat.cast_mul, Nat.cast_pow, Nat.cast_ofNat, mul_comm]

/-- A number with the point among its digits. -/
theorem among_parts (all : ∀ c ∈ digits, c.isDigit = true)
    (number : Nat.ofDigitChars 10 digits 0 = d.digits) {before : Nat} (some_ : 0 < before)
    (point : (before : Int) = digits.length + d.exponent) (part : d.exponent < 0) :
    Nonempty (Parts (digits.take before ++ '.' :: digits.drop before) d) := by
  have behind : digits.drop before ≠ [] :=
    List.ne_nil_of_length_pos (by rw [List.length_drop]; omega)
  have exponent : 0 - ((digits.drop before).length : Int) = d.exponent := by
    rw [List.length_drop]
    omega
  refine ⟨digits.take before, digits.drop before, [], 0, ?_, ?_,
    fun c mem => all c (List.mem_of_mem_take mem),
    fun c mem => all c (List.mem_of_mem_drop mem), .none, ?_⟩
  · simp [pointed, behind]
  · exact List.ne_nil_of_length_pos (by rw [List.length_take]; omega)
  · rw [List.take_append_drop, number, exponent]

/-- A number below one, with zeros behind the point. -/
theorem below_parts (all : ∀ c ∈ digits, c.isDigit = true)
    (number : Nat.ofDigitChars 10 digits 0 = d.digits) (long : 0 < digits.length) {zeros : Nat}
    (point : (zeros : Int) + digits.length = -d.exponent) :
    Nonempty (Parts ('0' :: '.' :: List.replicate zeros '0' ++ digits) d) := by
  have exponent : 0 - ((List.replicate zeros '0' ++ digits).length : Int) = d.exponent := by
    rw [List.length_append, List.length_replicate]
    omega
  have same : Nat.ofDigitChars 10 (['0'] ++ (List.replicate zeros '0' ++ digits)) 0 = d.digits := by
    rw [Nat.ofDigitChars_append, Nat.ofDigitChars_append, Nat.ofDigitChars_replicate_zero]
    exact number
  refine ⟨['0'], List.replicate zeros '0' ++ digits, [], 0, ?_, by simp, all_isDigit_zeros 1, ?_,
    .none, ?_⟩
  · simp [pointed, List.ne_nil_of_length_pos long]
  · exact fun c mem => (List.mem_append.1 mem).elim (all_isDigit_zeros _ c) (all c)
  · rw [same, exponent]

/-- A number in scientific notation. -/
theorem scientific_parts {first : Char} {rest exponent : List Char} {leading : Int}
    (all : ∀ c ∈ first :: rest, c.isDigit = true)
    (number : Nat.ofDigitChars 10 (first :: rest) 0 = d.digits)
    (reads : exponentOf? exponent = some leading) (point : leading = rest.length + d.exponent) :
    Nonempty (Parts ([first] ++ (pointed rest ++ 'e' :: exponent)) d) := by
  have same : leading - (rest.length : Int) = d.exponent := by omega
  refine ⟨[first], rest, 'e' :: exponent, leading, rfl, by simp, ?_, ?_, .exponent reads, ?_⟩
  · exact fun c mem => all c (List.mem_singleton.1 mem ▸ List.mem_cons_self)
  · exact fun c mem => all c (List.mem_cons_of_mem _ mem)
  · rw [List.singleton_append, number, same]

end Layouts

/-- **Every layout of a decimal has its value.** -/
theorem layOut_parts (style : Style) (d : Decimal) : Nonempty (Parts (style.layOut d) d) := by
  have all := all_isDigit_toDigits d.digits
  have number : Nat.ofDigitChars 10 (Nat.toDigits 10 d.digits) 0 = d.digits :=
    Nat.ofDigitChars_ten_toDigits
  have long : 0 < (Nat.toDigits 10 d.digits).length := Nat.length_toDigits_pos
  unfold Style.layOut
  dsimp only
  generalize Nat.toDigits 10 d.digits = digits at *
  generalize isLeading : (digits.length : Int) - 1 + d.exponent = leading
  split
  · split
    · rename_i whole
      exact whole_parts all number long whole
    split
    · exact among_parts all number (by omega) (by omega) (by omega)
    · exact below_parts all number long (by omega)
  · have reads := exponentOf?_written style leading
    cases digits with
    | nil => cases long
    | cons first rest =>
      rw [List.length_cons] at isLeading
      have parts := scientific_parts all number reads (by omega)
      cases rest <;> simpa [pointed] using parts

/-- The characters laid out begin with a digit. -/
theorem layOut_cons (style : Style) (d : Decimal) :
    ∃ c cs, style.layOut d = c :: cs ∧ c.isDigit = true := by
  obtain ⟨parts⟩ := layOut_parts style d
  obtain ⟨c, more, split⟩ := List.exists_cons_of_ne_nil parts.some_
  refine ⟨c, more ++ (pointed parts.places ++ parts.tail), ?_, ?_⟩
  · exact parts.text.trans (congrArg (· ++ (pointed parts.places ++ parts.tail)) split)
  · exact parts.digits c (split ▸ List.mem_cons_self)

/-- What begins with a digit is the name of no special value. -/
theorem unsignedOf?_digit {c : Char} (digit : c.isDigit = true) (negative : Bool)
    (cs : List Char) :
    unsignedOf? negative (c :: cs) = (decimalOf? (c :: cs)).map (ofDecimal negative) := by
  have named (name : String) (first : name.toList.head?.any Char.isDigit = false) :
      String.ofList ((c :: cs).map Char.toLower) ≠ name := by
    rintro rfl
    have small : c.toLower.isDigit = false := by simpa using first
    have same : c.toLower = c := by
      refine dif_neg fun upper => ?_
      simp [Char.isDigit, UInt32.le_iff_toNat_le] at digit upper
      omega
    rw [same, digit] at small
    cases small
  unfold unsignedOf?
  dsimp only
  rw [if_neg, if_neg]
  · exact named "nan" rfl
  · exact not_or.2 ⟨named "inf" rfl, named "infinity" rfl⟩

/-! ## Reading doubles -/

/-- The digits of a finite double, without its sign. -/
def size (style : Style) (x : Double) : List Char :=
  if x.isZero then ['0', '.', '0'] else style.layOut (x.shortest style.tie)

theorem size_cons (style : Style) (x : Double) :
    ∃ c cs, x.size style = c :: cs ∧ c.isDigit = true := by
  unfold size
  split
  · exact ⟨'0', ['.', '0'], rfl, rfl⟩
  · exact layOut_cons style _

/-- The magnitude of a finite double is read off its digits. -/
theorem decimalOf?_size (style : Style) (finite : x.isFinite = true) :
    ∃ d, decimalOf? (x.size style) = some d ∧ decimalMagnitude d = x.magnitudeBits := by
  unfold size
  split
  · rename_i zero
    have none : x.magnitudeBits = 0 := of_decide_eq_true zero
    exact ⟨⟨0, -1⟩, by decide, by rw [none]; rfl⟩
  · rename_i some_
    have regular := x.regular finite (Bool.eq_false_iff.2 some_)
    obtain ⟨parts⟩ := layOut_parts style (x.shortest style.tie)
    refine ⟨_, (congrArg decimalOf? parts.text).trans
      (decimalOf?_parts parts.some_ parts.digits parts.digits' parts.isTail), ?_⟩
    exact decimalMagnitude_of_rounds regular (parts.value ▸ rounds_shortest regular style.tie)

theorem unsignedOf?_size (style : Style) (finite : x.isFinite = true) :
    unsignedOf? x.negative (x.size style) = some x := by
  obtain ⟨c, cs, split, digit⟩ := size_cons style x
  obtain ⟨d, reads, same⟩ := decimalOf?_size style finite
  rw [split] at reads ⊢
  rw [unsignedOf?_digit digit, reads, Option.map_some, ofDecimal, same, ofMagnitude_magnitudeBits]

theorem ofText?_unsigned {c : Char} (digit : c.isDigit = true) (cs : List Char) :
    ofText? (c :: cs) = unsignedOf? false (c :: cs) := by
  unfold ofText?
  split
  · rename_i plus
    cases plus
    cases digit
  · rename_i minus
    cases minus
    cases digit
  · rfl

theorem chars_finite (style : Style) (finite : x.isFinite = true) :
    x.chars style = if x.negative then '-' :: x.size style else x.size style := by
  have below : x.magnitudeBits < infinityBits := of_decide_eq_true finite
  have notNaN : ¬ x.isNaN = true := by simp [isNaN]; omega
  have notInfinite : ¬ x.isInfinite = true := by simp [isInfinite]; omega
  unfold chars
  rw [if_neg notNaN, if_neg notInfinite]
  rfl

/-- **A finite double is read back from its text, in whatever style it was written.** -/
theorem ofText?_chars_finite (style : Style) (finite : x.isFinite = true) :
    ofText? (x.chars style) = some x := by
  have back := unsignedOf?_size style finite
  rw [chars_finite style finite]
  split
  · rename_i negative
    rw [negative] at back
    exact back
  · rename_i positive
    obtain ⟨c, cs, split, digit⟩ := size_cons style x
    rw [Bool.eq_false_iff.2 positive, split] at back
    rw [split, ofText?_unsigned digit]
    exact back

theorem infinity_of_isInfinite (infinite : x.isInfinite = true) : infinity x.negative = x := by
  have same : x.magnitudeBits = infinityBits := of_decide_eq_true infinite
  rw [infinity, ← same, ofMagnitude_magnitudeBits]

/-- **A double in a log is read back**; all NaNs are written alike. -/
theorem ofText?_chars (x : Double) : ofText? (x.chars logDouble) = some x.readBack := by
  unfold readBack
  by_cases isNaN : x.isNaN = true
  · rw [if_pos isNaN, chars, if_pos isNaN]
    rfl
  rw [if_neg isNaN]
  by_cases infinite : x.isInfinite = true
  · have same := infinity_of_isInfinite infinite
    rw [chars, if_neg isNaN, if_pos infinite]
    cases sign : x.negative <;> rw [sign] at same <;> exact same ▸ rfl
  · refine ofText?_chars_finite _ ?_
    simp only [Double.isNaN, isInfinite, isFinite, decide_eq_true_eq] at isNaN infinite ⊢
    omega

end Double

namespace Scalar

/-- **Every scalar is printed so that it is read back.** -/
theorem faithful {α : Type} (s : Scalar α) (a : α) : s.Faithful a := by
  cases s with
  | f64 => exact Double.ofText?_chars a
  | bool | u8 | i32 | u32 | i64 | u64 => trivial

end Scalar

end Retrace
