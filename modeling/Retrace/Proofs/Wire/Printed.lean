import Retrace.Proofs.Wire.Records

/-!
# What is written can be printed

Everything that is written of a record is UTF-8 text without a control character. The keys, the
numbers and the punctuation are printable ASCII. A text may hold any characters, but those below the
space are escaped and all others are written as they are. So whatever the strings of an event are,
its record can be told from the newlines around it.

`TextOf` is closed under all by which a record is put together; what is left is one case for each
kind of token.
-/

namespace Retrace

/-- The bytes are UTF-8, and all characters are of a kind. -/
def TextOf (kind : Char → Prop) (bytes : Bytes) : Prop :=
  ∃ s : String, bytes = Bytes.utf8 s ∧ ∀ c ∈ s.toList, kind c

/-- The byte is the code of an ASCII character of a kind. -/
def IsCode (kind : Char → Prop) (b : UInt8) : Prop := b.toNat < 128 ∧ kind (Char.ofNat b.toNat)

instance (kind : Char → Prop) [DecidablePred kind] (b : UInt8) : Decidable (IsCode kind b) :=
  inferInstanceAs (Decidable (_ ∧ _))

theorem toNat_ofNat_ascii {n : Nat} (isAscii : n < 128) : (Char.ofNat n).toNat = n := by
  have valid : n.isValidChar := Or.inl (by omega)
  rw [Char.ofNat, dif_pos valid]
  rfl

theorem utf8EncodeChar_ascii {c : Char} (isAscii : c.toNat < 128) :
    String.utf8EncodeChar c = [UInt8.ofNat c.toNat] := by
  have small : c.val.toNat ≤ 127 := Nat.le_of_lt_succ isAscii
  unfold String.utf8EncodeChar
  exact if_pos small

namespace TextOf

variable {kind kind' : Char → Prop} {bytes more : Bytes}

theorem nil : TextOf kind [] := ⟨"", rfl, by simp⟩

theorem append (h : TextOf kind bytes) (h' : TextOf kind more) : TextOf kind (bytes ++ more) := by
  obtain ⟨s, rfl, all⟩ := h
  obtain ⟨t, rfl, all'⟩ := h'
  refine ⟨s ++ t, by simp [Bytes.utf8], fun c mem => ?_⟩
  rw [String.toList_append] at mem
  exact (List.mem_append.1 mem).elim (all c) (all' c)

theorem char {c : Char} (isKind : kind c) : TextOf kind (String.utf8EncodeChar c) :=
  ⟨String.singleton c, by simp [Bytes.utf8], by simpa using isKind⟩

theorem cons {b : UInt8} (code : IsCode kind b) (h : TextOf kind bytes) :
    TextOf kind (b :: bytes) := by
  have own : String.utf8EncodeChar (Char.ofNat b.toNat) = [b] := by
    rw [utf8EncodeChar_ascii (by rw [toNat_ofNat_ascii code.1]; exact code.1),
      toNat_ofNat_ascii code.1, UInt8.ofNat_toNat]
  have first : TextOf kind [b] := own ▸ char code.2
  exact first.append h

theorem of_codes (all : ∀ b ∈ bytes, IsCode kind b) : TextOf kind bytes := by
  induction bytes with
  | nil => exact nil
  | cons b bytes ih =>
    exact cons (all b List.mem_cons_self) (ih fun c mem => all c (List.mem_cons_of_mem _ mem))

theorem codes [DecidablePred kind] (all : (bytes.all fun b => IsCode kind b) = true) :
    TextOf kind bytes :=
  of_codes fun b mem => of_decide_eq_true (List.all_eq_true.1 all b mem)

theorem flatMap {α : Type} {list : List α} {f : α → Bytes} (h : ∀ a ∈ list, TextOf kind (f a)) :
    TextOf kind (list.flatMap f) := by
  induction list with
  | nil => exact nil
  | cons a list ih =>
    exact (h a List.mem_cons_self).append (ih fun b mem => h b (List.mem_cons_of_mem _ mem))

theorem imp (h : TextOf kind bytes) (wider : ∀ c, kind c → kind' c) : TextOf kind' bytes := by
  obtain ⟨s, same, all⟩ := h
  exact ⟨s, same, fun c mem => wider c (all c mem)⟩

/-- An ASCII byte is the code of one of the characters. -/
theorem byte (h : TextOf kind bytes) {b : UInt8} (mem : b ∈ bytes) :
    128 ≤ b.toNat ∨ ∃ c, kind c ∧ b.toNat = c.toNat := by
  obtain ⟨s, rfl, all⟩ := h
  obtain ⟨c, there, mem⟩ := List.mem_flatMap.1 mem
  rcases Quoted.utf8Char_byte mem with same | beyond
  · exact Or.inr ⟨c, all c there, same⟩
  · exact Or.inl beyond

end TextOf

/-- The bytes are text without a control character below the space. -/
abbrev Printed : Bytes → Prop := TextOf fun c => 32 ≤ c.toNat

namespace Printed

theorem ascii {cs : List Char} (all : ∀ c ∈ cs, Scalar.IsTokenChar c) :
    Printed (Bytes.ascii cs) := by
  refine .of_codes fun b mem => ?_
  obtain ⟨c, there, rfl⟩ := List.mem_map.1 mem
  have isToken := (all c there).2
  generalize UInt8.ofNat c.toNat = b at isToken
  have bounds : 32 ≤ b.toNat ∧ b.toNat < 128 := by
    simp [Bytes.isToken, Bytes.isDigit, Bytes.isLetter, UInt8.le_iff_toNat_le,
      ← UInt8.toNat_inj] at isToken
    omega
  refine ⟨bounds.2, ?_⟩
  show 32 ≤ (Char.ofNat b.toNat).toNat
  rw [toNat_ofNat_ascii bounds.2]
  exact bounds.1

theorem scalar {α : Type} (s : Scalar α) (a : α) : Printed (s.written a) :=
  ascii (s.isTokenChar_chars a)

theorem key (k : Key) : Printed k.written := by
  refine .codes ?_
  cases k <;> decide +kernel

theorem keyed {α : Type} (k : Key) (s : Scalar α) (a : α) : Printed (Wire.keyed k s a) :=
  (key k).append (scalar s a)

theorem hexDigit {n : Nat} (digit : n < 16) :
    IsCode (fun c => 32 ≤ c.toNat) (Quoted.hexDigit n) := by
  have all : ∀ n < 16, IsCode (fun c => 32 ≤ c.toNat) (Quoted.hexDigit n) := by decide
  exact all n digit

/-- **Whatever the character is, it is written as text that can be printed.** -/
theorem escape (c : Char) : Printed (Quoted.escape c) := by
  unfold Quoted.escape
  split
  · exact .codes (by decide)
  split
  · exact .codes (by decide)
  split
  · exact .codes (by decide)
  split
  · exact .codes (by decide)
  split
  · exact .codes (by decide)
  split
  · have high : c.toNat / 16 < 16 := by omega
    have low : c.toNat % 16 < 16 := by omega
    have letters : Printed [92, 117, 48, 48] := .codes (by decide)
    exact letters.append (.cons (hexDigit high) (.cons (hexDigit low) .nil))
  · rename_i visible
    exact TextOf.char (Nat.le_of_not_lt visible)

theorem quoted (s : String) : Printed (Quoted.written s) :=
  .append (.cons (by decide) (.flatMap fun c _ => escape c)) (.codes (by decide))

theorem keyedText (k : Key) (s : String) : Printed (Wire.keyedText k s) :=
  (key k).append (quoted s)

theorem sequence {α : Type} (k : Key) {element : α → Bytes} (each : ∀ a, Printed (element a))
    (list : List α) : Printed (Wire.sequence k element list) := by
  have separated : Printed (Wire.separated (list.map element)) := by
    cases list with
    | nil => exact .nil
    | cons a list =>
      rw [List.map_cons, Reader.separated_cons, List.flatMap_map]
      exact (each a).append (.flatMap fun b _ => .cons (by decide) (each b))
  exact .append (.append (.append (keyed .length .u32 _)
    (.cons (by decide) ((key k).append (.codes (by decide))))) separated) (.codes (by decide))

theorem valueCase (v : Recorded) : Printed (Wire.valueCase v) := by
  cases v with
  | null => exact (key .nullVal).append (.codes (by decide))
  | str s => exact keyedText .stringVal s
  | _ => exact keyed _ _ _

theorem value (v : Recorded) : Printed (Wire.value v) :=
  .append (.cons (by decide) (valueCase v)) (.codes (by decide))

theorem keyedValue (k : Key) (v : Recorded) : Printed (Wire.keyedValue k v) :=
  (key k).append (value v)

theorem field {α : Type} (f : Field α) (a : α) : Printed (f.written a) := by
  cases f with
  | scalar k s => exact keyed k s a
  | text k => exact keyedText k a
  | value k => exact keyedValue k a
  | arrayType => exact keyed .typeId .u32 arrayTypeId
  | optionalValue =>
    cases a with
    | none => exact keyed .boolVal .bool false
    | some v => exact (keyed .boolVal .bool true).append (.cons (by decide) (keyedValue .entry v))
  | bytes => exact sequence .bytes (scalar .u8) a
  | values => exact sequence .values value a
  | diagnostics =>
    cases a with
    | none => exact (key .diag).append (.codes (by decide))
    | some s =>
      exact .append (.append (key .diag) (.cons (by decide) (keyedText .name s)))
        (.codes (by decide))

theorem layout {α : Type} (layout : Layout α) (a : α) : Printed (layout.written a) := by
  induction layout with
  | done => exact .nil
  | field f rest ih => exact .append (.cons (by decide) (field f a.1)) (ih a.2)

theorem recordHeader (time : Time) (context : Context) (kind : Kind) :
    Printed (Wire.recordHeader time context kind) :=
  .append (.append (keyed _ _ _) (.cons (by decide) (keyed _ _ _)))
    (.cons (by decide) (keyed _ _ _))

theorem logStart : Printed Wire.logStart :=
  .append (.cons (by decide) (keyed _ _ _))
    (.cons (by decide) ((key _).append (.codes (by decide))))

end Printed
end Retrace
