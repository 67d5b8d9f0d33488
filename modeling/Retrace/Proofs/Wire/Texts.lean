import Retrace.Proofs.Wire.Scalars

/-!
# Quoted texts and keys are read back

Reading a quoted text undoes the escapes one character at a time (`Quoted.scan_escape`), so it comes
to the closing quote with the bytes of the text (`Quoted.scan_escapes`), and these are the bytes of
no other text. A key is a quoted text that needs no escapes.
-/

namespace Retrace
namespace Quoted

variable {done tail bytes : Bytes}

/-- Bytes that stand for themselves inside quotes. -/
def Plain (bytes : Bytes) : Prop := ∀ b ∈ bytes, b ≠ 34 ∧ b ≠ 92

/-- The bytes of a character are its code, if that is an ASCII one, and otherwise none of them is
ASCII. -/
theorem utf8Char_byte {c : Char} {b : UInt8} (mem : b ∈ String.utf8EncodeChar c) :
    b.toNat = c.toNat ∨ 128 ≤ b.toNat := by
  have bound : c.val.toNat < 1114112 := c.valid.elim (by omega) (by omega)
  have code (m : Nat) : (UInt8.ofNat m).toNat = m % 256 := UInt8.toNat_ofNat'
  change b.toNat = c.val.toNat ∨ _
  unfold String.utf8EncodeChar at mem
  generalize c.val.toNat = n at mem bound
  dsimp only at mem
  split at mem
  · obtain rfl := List.mem_singleton.1 mem
    rw [code]
    omega
  split at mem
  · simp only [List.mem_cons, List.not_mem_nil, or_false] at mem
    rcases mem with rfl | rfl <;> rw [code] <;> omega
  split at mem
  · simp only [List.mem_cons, List.not_mem_nil, or_false] at mem
    rcases mem with rfl | rfl | rfl <;> rw [code] <;> omega
  · simp only [List.mem_cons, List.not_mem_nil, or_false] at mem
    rcases mem with rfl | rfl | rfl | rfl <;> rw [code] <;> omega

/-- An ASCII byte is among those of its own character only. -/
theorem not_mem_utf8Char {c d : Char} {b : UInt8} (isCode : b.toNat = d.toNat)
    (isAscii : b.toNat < 128) (other : c ≠ d) : b ∉ String.utf8EncodeChar c := by
  intro mem
  rcases utf8Char_byte mem with same | beyond
  · exact other (Char.toNat_inj.1 (same.symm.trans isCode))
  · omega

theorem plain_utf8 {c : Char} (quote : c ≠ '"') (escape : c ≠ '\\') :
    Plain (String.utf8EncodeChar c) := by
  intro b mem
  constructor
  · rintro rfl
    exact not_mem_utf8Char rfl (by decide) quote mem
  · rintro rfl
    exact not_mem_utf8Char rfl (by decide) escape mem


theorem scan_plain (plain : Plain bytes) :
    scan done (bytes ++ tail) = scan (bytes.reverse ++ done) tail := by
  induction bytes generalizing done with
  | nil => rfl
  | cons b bytes ih =>
    obtain ⟨quote, escape⟩ := plain b List.mem_cons_self
    have step : scan done (b :: (bytes ++ tail)) = scan (b :: done) (bytes ++ tail) := by
      rw [scan.eq_def]
      simp only [quote, escape, if_false]
    rw [List.cons_append, step, ih fun c mem => plain c (List.mem_cons_of_mem _ mem)]
    simp

theorem scan_letter {e x : UInt8} (other : e ≠ 117) (stands : letter? e = some x) :
    scan done (92 :: e :: tail) = scan (x :: done) tail := by
  rw [scan.eq_def]
  simp [other, stands]

theorem scan_unicode {h₁ h₂ h₃ h₄ : UInt8} {c : Char} (stands : unicode? h₁ h₂ h₃ h₄ = some c) :
    scan done (92 :: 117 :: h₁ :: h₂ :: h₃ :: h₄ :: tail) =
      scan ((String.utf8EncodeChar c).reverse ++ done) tail := by
  rw [scan.eq_def]
  simp [stands]

/-- A control character is read back from its number. -/
theorem unicode?_hexDigit : ∀ n < 32,
    unicode? 48 48 (hexDigit (n / 16)) (hexDigit (n % 16)) = some (Char.ofNat n) := by
  decide +kernel

/-- **An escape is undone.** -/
theorem scan_escape (c : Char) : scan done (escape c ++ tail) =
    scan ((String.utf8EncodeChar c).reverse ++ done) tail := by
  -- five characters have a letter, other controls a number, and all else stands for itself
  unfold escape
  split
  case isTrue same =>
    subst same
    exact scan_letter (by decide) rfl
  rename_i quote
  split
  case isTrue same =>
    subst same
    exact scan_letter (by decide) rfl
  rename_i backslash
  split
  case isTrue same =>
    subst same
    exact scan_letter (by decide) rfl
  split
  case isTrue same =>
    subst same
    exact scan_letter (by decide) rfl
  split
  case isTrue same =>
    subst same
    exact scan_letter (by decide) rfl
  split
  case isTrue control =>
    have stands := unicode?_hexDigit c.toNat control
    rw [Char.ofNat_toNat] at stands
    exact scan_unicode stands
  · exact scan_plain (plain_utf8 quote backslash)

theorem scan_escapes (cs : List Char) : scan done (cs.flatMap escape ++ 34 :: tail) =
    .closed (done.reverse ++ cs.flatMap String.utf8EncodeChar) tail := by
  induction cs generalizing done with
  | nil =>
    show scan done (34 :: tail) = _
    rw [scan.eq_def]
    simp
  | cons c cs ih =>
    rw [List.flatMap_cons, List.append_assoc, scan_escape, ih]
    simp

end Quoted

namespace Reader

theorem quoted_takes (s : String) : Takes Anything quoted (Quoted.written s) s := by
  intro r rest ending _
  have opening := expect_takes (b := 34) (c := '"') (by decide) (by decide) r
    (s.toList.flatMap Quoted.escape ++ 34 :: rest) ending trivial
  have text : Quoted.written s ++ rest =
      [34] ++ (s.toList.flatMap Quoted.escape ++ 34 :: rest) := by
    simp [Quoted.written]
  have content : Bytes.ofUtf8? (s.toList.flatMap String.utf8EncodeChar) = some s :=
    Bytes.ofUtf8?_utf8 s
  rw [text]
  simp only [quoted, bind_run, opening, get_run, Quoted.scan_escapes, List.reverse_nil,
    List.nil_append, set_run, content]
  rfl

end Reader

/-- The spelling of a key needs no escapes. -/
theorem Key.written_eq (k : Key) : k.written = Quoted.written k.text ++ [58] := by
  cases k <;> decide +kernel

namespace Reader

theorem key_takes (k : Key) : Takes Anything (key k) k.written () := by
  have colon : Takes Anything (expect ':') [58] () := expect_takes (by decide) (by decide)
  rw [k.written_eq]
  apply Takes.skipping (b := 34)
  · apply Takes.noting
    intro start
    apply (quoted_takes k.text).seq
    rw [if_neg fun other => other rfl]
    exact colon
  · decide

end Reader
end Retrace
