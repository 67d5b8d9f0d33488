import Retrace.Proofs.Wire.Taking

/-!
# Scalars are read back

The characters of a scalar make up one token (`Scalar.isTokenChar_chars`, `Scalar.token_takes`), and
reading them gives the scalar back (`Scalar.ofChars?_chars`). Of a truth value and an integer this
is shown here. Of a double it is a condition (`Scalar.Faithful`): that the shortest decimal of a
double names no other double is a matter of arithmetic, and none of the format. All NaNs are written
alike, so it is one NaN that is read.
-/

namespace Retrace

/-- The double that is read where a double was written. -/
def Double.readBack (x : Double) : Double := if x.isNaN then .nan false else x

namespace Scalar

/-- The scalar that is read where one was written. -/
def readBack {α : Type} : Scalar α → α → α
  | f64, x => x.readBack
  | _, a => a

/-- A double is printed so that it is read back. -/
def Faithful {α : Type} : Scalar α → α → Prop
  | f64, x => Double.ofText? (x.chars logDouble) = some x.readBack
  | _, _ => True

instance {α : Type} : (s : Scalar α) → (a : α) → Decidable (s.Faithful a)
  | f64, _ => inferInstanceAs (Decidable (_ = _))
  | bool, _ | u8, _ | i32, _ | u32, _ | i64, _ | u64, _ => inferInstanceAs (Decidable True)

/-! ## Tokens -/

/-- A character that stands in unquoted tokens. -/
def IsTokenChar (c : Char) : Prop := c.toNat < 256 ∧ Bytes.isToken (UInt8.ofNat c.toNat) = true

instance (c : Char) : Decidable (IsTokenChar c) := inferInstanceAs (Decidable (_ ∧ _))

theorem isTokenChar_of_all {cs : List Char} (all : (cs.all fun c => IsTokenChar c) = true) :
    ∀ c ∈ cs, IsTokenChar c := by
  intro c mem
  exact of_decide_eq_true (List.all_eq_true.1 all c mem)

theorem isTokenChar_of_isDigit {c : Char} (h : c.isDigit = true) : IsTokenChar c := by
  have bounds : 48 ≤ c.toNat ∧ c.toNat ≤ 57 := by
    simpa [Char.isDigit, UInt32.le_iff_toNat_le] using h
  have byte : (UInt8.ofNat c.toNat).toNat = c.toNat := by
    rw [UInt8.toNat_ofNat']
    exact Nat.mod_eq_of_lt (by omega)
  refine ⟨by omega, ?_⟩
  have digit : Bytes.isDigit (UInt8.ofNat c.toNat) = true := by
    simp [Bytes.isDigit, UInt8.le_iff_toNat_le, byte, bounds]
  simp [Bytes.isToken, digit]

theorem isTokenChar_toDigits {n : Nat} {c : Char} (h : c ∈ Nat.toDigits 10 n) : IsTokenChar c :=
  isTokenChar_of_isDigit (Nat.isDigit_of_mem_toDigits (by decide) (by decide) h)

theorem latin_ascii {cs : List Char} (h : ∀ c ∈ cs, IsTokenChar c) :
    Bytes.latin (Bytes.ascii cs) = cs := by
  induction cs with
  | nil => rfl
  | cons c cs ih =>
    have small := (h c List.mem_cons_self).1
    have same : Char.ofUInt8 (UInt8.ofNat c.toNat) = c := by
      apply Char.ext
      apply UInt32.toNat_inj.1
      show (UInt8.ofNat c.toNat).toUInt32.toNat = c.val.toNat
      rw [UInt8.toNat_toUInt32, UInt8.toNat_ofNat']
      exact Nat.mod_eq_of_lt small
    show Char.ofUInt8 (UInt8.ofNat c.toNat) :: Bytes.latin (Bytes.ascii cs) = c :: cs
    rw [same, ih fun d mem => h d (List.mem_cons_of_mem _ mem)]

/-! ## Integers -/

theorem digitsOf?_toDigits (n : Nat) : digitsOf? (Nat.toDigits 10 n) = some n := by
  have digits : (Nat.toDigits 10 n).all Char.isDigit = true :=
    List.all_eq_true.2 fun c mem => Nat.isDigit_of_mem_toDigits (by decide) (by decide) mem
  unfold digitsOf?
  rw [if_pos ⟨Nat.toDigits_ne_nil, digits⟩, Nat.ofDigitChars_ten_toDigits]

/-- The digits of a number do not begin with a sign. -/
theorem toDigits_cons (n : Nat) : ∃ c cs, Nat.toDigits 10 n = c :: cs ∧ c ≠ '+' ∧ c ≠ '-' := by
  obtain ⟨c, cs, split⟩ := List.exists_cons_of_ne_nil (Nat.toDigits_ne_nil (n := n) (b := 10))
  have digit : c.isDigit = true :=
    Nat.isDigit_of_mem_toDigits (by decide) (by decide) (split ▸ List.mem_cons_self)
  refine ⟨c, cs, split, ?_, ?_⟩ <;>
  · rintro rfl
    exact absurd digit (by decide)

theorem natOf?_toDigits (n : Nat) : natOf? (Nat.toDigits 10 n) = some n := by
  have whole := digitsOf?_toDigits n
  obtain ⟨c, cs, split, plus, -⟩ := toDigits_cons n
  rw [split] at whole ⊢
  simpa [natOf?, plus] using whole

theorem intOf?_minus (cs : List Char) :
    intOf? ('-' :: cs) = (digitsOf? cs).map fun n : Nat => -(n : Int) := by
  rw [intOf?]
  cases digitsOf? cs <;> rfl

theorem intOf?_unsigned {c : Char} (plus : c ≠ '+') (minus : c ≠ '-') (cs : List Char) :
    intOf? (c :: cs) = (digitsOf? (c :: cs)).map Int.ofNat := by
  unfold intOf?
  split
  · rename_i isMinus
    exact absurd (List.cons.inj isMinus).1 minus
  · rename_i isPlus
    exact absurd (List.cons.inj isPlus).1 plus
  · cases digitsOf? (c :: cs) <;> rfl

theorem intOf?_intChars (n : Int) : intOf? (intChars n) = some n := by
  have whole := digitsOf?_toDigits n.natAbs
  unfold intChars
  by_cases negative : n < 0
  · have back : -(n.natAbs : Int) = n := by omega
    rw [if_pos negative, intOf?_minus, whole]
    exact congrArg some back
  · rw [if_neg negative]
    obtain ⟨c, cs, split, plus, minus⟩ := toDigits_cons n.natAbs
    rw [split] at whole ⊢
    have back : (n.natAbs : Int) = n := by omega
    rw [intOf?_unsigned plus minus, whole]
    exact congrArg some back

/-- **A scalar that was written is read back.** -/
theorem ofChars?_chars {α : Type} (s : Scalar α) {a : α} (faithful : s.Faithful a) :
    s.ofChars? (s.chars a) = some (s.readBack a) := by
  cases s with
  | bool => cases a <;> rfl
  | u8 =>
    simp only [ofChars?, chars, natOf?_toDigits, Option.bind_some]
    rw [if_pos a.toNat_lt, UInt8.ofNat_toNat]
    rfl
  | u32 =>
    simp only [ofChars?, chars, natOf?_toDigits, Option.bind_some]
    rw [if_pos a.toNat_lt, UInt32.ofNat_toNat]
    rfl
  | u64 =>
    simp only [ofChars?, chars, natOf?_toDigits, Option.bind_some]
    rw [if_pos a.toNat_lt, UInt64.ofNat_toNat]
    rfl
  | i32 =>
    simp only [ofChars?, chars, intOf?_intChars, Option.bind_some]
    rw [if_pos ⟨a.minValue_le_toInt, a.toInt_le⟩, Int32.ofInt_toInt]
    rfl
  | i64 =>
    simp only [ofChars?, chars, intOf?_intChars, Option.bind_some]
    rw [if_pos ⟨a.minValue_le_toInt, a.toInt_le⟩, Int64.ofInt_toInt]
    rfl
  | f64 => exact faithful

/-! ## The characters of a scalar -/

theorem isTokenChar_layOut (style : Double.Style) (d : Decimal) {c : Char}
    (mem : c ∈ style.layOut d) : IsTokenChar c := by
  have digits {c : Char} (h : c ∈ Nat.toDigits 10 d.digits) : IsTokenChar c :=
    isTokenChar_toDigits h
  have zeros {n : Nat} {c : Char} (h : c ∈ List.replicate n '0') : IsTokenChar c :=
    List.eq_of_mem_replicate h ▸ by decide
  unfold Double.Style.layOut at mem
  generalize Nat.toDigits 10 d.digits = ds at digits mem
  dsimp only at mem
  -- by the place of the point: behind the digits, among them, before them, or with an exponent
  split at mem
  · split at mem
    · simp only [List.mem_append, List.mem_cons, List.not_mem_nil, or_false] at mem
      rcases mem with (digit | zero) | rfl | rfl
      · exact digits digit
      · exact zeros zero
      all_goals decide
    split at mem
    · simp only [List.mem_append, List.mem_cons] at mem
      rcases mem with digit | rfl | digit
      · exact digits (List.mem_of_mem_take digit)
      · decide
      · exact digits (List.mem_of_mem_drop digit)
    · simp only [List.mem_append, List.mem_cons] at mem
      rcases mem with (rfl | rfl | zero) | digit
      · decide
      · decide
      · exact zeros zero
      · exact digits digit
  · simp only [List.mem_append, List.mem_cons] at mem
    rcases mem with (mantissa | rfl | sign) | digit
    · -- a point stands behind the first digit, if there are two at least
      split at mantissa
      · simp only [List.mem_cons] at mantissa digits
        rcases mantissa with first | rfl | second | more
        · exact digits (Or.inl first)
        · decide
        · exact digits (Or.inr (Or.inl second))
        · exact digits (Or.inr (Or.inr more))
      · exact digits mantissa
    · decide
    · have isSign : c = '-' ∨ c = '+' := by
        split at sign
        · exact Or.inl (List.mem_singleton.1 sign)
        split at sign
        · exact Or.inr (List.mem_singleton.1 sign)
        · exact absurd sign List.not_mem_nil
      rcases isSign with rfl | rfl <;> decide
    · exact isTokenChar_toDigits digit

theorem isTokenChar_double {x : Double} {c : Char} (mem : c ∈ x.chars logDouble) :
    IsTokenChar c := by
  have nan : ∀ c ∈ "NaN".toList, IsTokenChar c :=
    isTokenChar_of_all (by decide)
  have infinite : ∀ c ∈ "inf".toList, IsTokenChar c :=
    isTokenChar_of_all (by decide)
  have negative : ∀ c ∈ "-inf".toList, IsTokenChar c :=
    isTokenChar_of_all (by decide)
  have minus : IsTokenChar '-' := by decide
  have size {c : Char} (h : c ∈ if x.isZero then ['0', '.', '0'] else
      logDouble.layOut (x.shortest logDouble.tie)) : IsTokenChar c := by
    split at h
    · exact isTokenChar_of_all (by decide) c h
    · exact isTokenChar_layOut _ _ h
  unfold Double.chars at mem
  split at mem
  · exact nan c mem
  split at mem
  · split at mem
    · exact negative c mem
    · exact infinite c mem
  dsimp only at mem
  split at mem
  · rcases List.mem_cons.1 mem with rfl | rest
    · exact minus
    · exact size rest
  · exact size mem

/-- **A scalar is one token.** -/
theorem isTokenChar_chars {α : Type} (s : Scalar α) (a : α) : ∀ c ∈ s.chars a, IsTokenChar c := by
  have natural {n : Nat} {c : Char} (h : c ∈ Nat.toDigits 10 n) : IsTokenChar c :=
    isTokenChar_toDigits h
  have whole {n : Int} {c : Char} (h : c ∈ intChars n) : IsTokenChar c := by
    unfold intChars at h
    split at h
    · rcases List.mem_cons.1 h with rfl | digit
      · decide
      · exact natural digit
    · exact natural h
  intro c mem
  cases s with
  | bool => cases a <;> exact isTokenChar_of_all (by decide) c mem
  | u8 | u32 | u64 => exact natural mem
  | i32 | i64 => exact whole mem
  | f64 => exact isTokenChar_double mem

/-- What is read back was there. -/
theorem chars_ne_nil {α : Type} (s : Scalar α) {a : α} (faithful : s.Faithful a) :
    s.chars a ≠ [] := by
  intro none
  have back := ofChars?_chars s faithful
  rw [none] at back
  cases s with
  | f64 => exact absurd back (by simp [ofChars?, Double.ofText?, Double.unsignedOf?, Double.decimalOf?])
  | _ => exact absurd back (by simp [ofChars?, natOf?, intOf?, digitsOf?])

theorem token_takes {cs : List Char} (some_ : cs ≠ []) (all : ∀ c ∈ cs, IsTokenChar c) :
    Reader.Takes Reader.Stops Reader.token (Bytes.ascii cs) cs := by
  have bytes : ∀ b ∈ Bytes.ascii cs, Bytes.isToken b = true := by
    intro b mem
    obtain ⟨c, there, rfl⟩ := List.mem_map.1 mem
    exact (all c there).2
  have taken := Reader.token_takes (by simpa [Bytes.ascii] using some_) bytes
  rwa [latin_ascii all] at taken

/-- **A scalar that was written is taken.** -/
theorem takes {α : Type} (s : Scalar α) {a : α} (faithful : s.Faithful a) :
    Reader.Takes Reader.Stops (Reader.scalar s) (s.written a) (s.readBack a) := by
  intro r rest ending stops
  have token := token_takes (chars_ne_nil s faithful) (isTokenChar_chars s a) r rest ending stops
  unfold Reader.scalar written
  simp only [bind_run, get_run, token, ofChars?_chars s faithful]
  rfl

end Scalar
end Retrace
