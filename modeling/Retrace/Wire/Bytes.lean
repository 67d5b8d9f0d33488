/-!
# Bytes and text

A log is a sequence of bytes. Text in it is UTF-8: `utf8` gives the bytes of a string, `ofUtf8?` the
string of some bytes, and `ofUtf8?_eq_some_iff` says that the second inverts the first and accepts
nothing else. Numbers and keywords are runs of ASCII bytes, which `latin` reads one character a
byte.
-/

namespace Retrace

/-- What a log is made of. -/
abbrev Bytes := List UInt8

namespace Bytes

/-- The UTF-8 of a string. -/
def utf8 (s : String) : Bytes := s.toList.flatMap String.utf8EncodeChar

/-- The string with the given bytes, if they are well-formed UTF-8. -/
def ofUtf8? (bytes : Bytes) : Option String := String.fromUTF8? ⟨bytes.toArray⟩

/-- The characters with the codes of the given bytes. -/
def latin (bytes : Bytes) : List Char := bytes.map Char.ofUInt8

/-- The bytes that are the codes of the given ASCII characters. -/
def ascii (cs : List Char) : Bytes := cs.map fun c => UInt8.ofNat c.toNat

/-- Space, tab, newline, form feed and carriage return: the bytes that may stand before a token. -/
def isBlank (b : UInt8) : Bool := b = 32 || b = 9 || b = 10 || b = 12 || b = 13

def isDigit (b : UInt8) : Bool := 48 ≤ b && b ≤ 57

def isLetter (b : UInt8) : Bool := (65 ≤ b && b ≤ 90) || (97 ≤ b && b ≤ 122)

/-- The bytes of which unquoted tokens are made: letters, digits, signs and the point. -/
def isToken (b : UInt8) : Bool := isDigit b || isLetter b || b = 43 || b = 45 || b = 46

/-! ## UTF-8 -/

theorem toByteArray_eq (s : String) : s.toByteArray = ⟨(utf8 s).toArray⟩ := by
  conv => lhs; rw [← String.ofList_toList (s := s), String.toByteArray_ofList]
  apply ByteArray.ext
  simp [List.utf8Encode, utf8, List.data_toByteArray]

/-- The bytes that read as a string are exactly those that write it. -/
theorem ofUtf8?_eq_some_iff {bytes : Bytes} {s : String} :
    ofUtf8? bytes = some s ↔ bytes = utf8 s := by
  unfold ofUtf8? String.fromUTF8?
  constructor
  · intro h
    split at h
    · rename_i valid
      have hs : (String.fromUTF8 ⟨bytes.toArray⟩ valid).toByteArray = s.toByteArray := by
        rw [Option.some.inj h]
      have hb : (⟨bytes.toArray⟩ : ByteArray) = s.toByteArray := hs
      rw [toByteArray_eq] at hb
      simpa using congrArg (fun b : ByteArray => b.data.toList) hb
    · simp at h
  · rintro rfl
    have hb := toByteArray_eq s
    split
    · rename_i valid
      congr 1
      apply String.toByteArray_inj.1
      exact hb.symm
    · rename_i invalid
      exact absurd (hb ▸ s.isValidUTF8) invalid

@[simp] theorem ofUtf8?_utf8 (s : String) : ofUtf8? (utf8 s) = some s :=
  ofUtf8?_eq_some_iff.2 rfl

end Bytes
end Retrace
