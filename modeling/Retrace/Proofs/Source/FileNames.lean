import Retrace.Proofs.Files.Paths
import Retrace.Source.Directory

/-!
# Where the file of a source is

What a log says decides in which file a text is kept, and a log may say anything. So what matters of
the names that are made of its words is that none is more than a name, and that no two are made of
different words alike.

The second is shown by going back: `pieceOf` reads a name as the bytes that it was made of
(`unescape_escaped`). A percent sign with nothing behind it is the empty piece, for an escaped byte
always has its digits. The first is a look at what a byte can become (`isNameChar_escaped`), and at
what keeps a name from being all points: either the piece has a byte that is none, or its points are
escaped, and an escape begins with a percent sign (`exists_no_point`).
-/

namespace Retrace

/-! ## One byte -/

/-- The characters that occur in names of files: letters, digits, the point, and three signs. -/
def isNameChar (c : Char) : Bool := c.isAlphanum || c = '.' || c = '_' || c = '%' || c = '-'

/-- What a byte becomes in a file name, which keeps points or escapes them. -/
def escaped (keepsPoints : Bool) (b : UInt8) : List Char :=
  if isNameByte b || (b = 46 && keepsPoints) then [Char.ofUInt8 b] else percentEscape b

/-- The number that an upper-case digit stands for. -/
def upperHexValue (c : Char) : Nat := if c.toNat < 65 then c.toNat - 48 else c.toNat - 55

/-- The bytes that a file name was made of. -/
def unescape : List Char → Bytes
  | [] => []
  | ['%'] => []
  | '%' :: high :: low :: rest =>
    UInt8.ofNat (16 * upperHexValue high + upperHexValue low) :: unescape rest
  | c :: rest => UInt8.ofNat c.toNat :: unescape rest

theorem upperHexValue_digit : ∀ n < 16, upperHexValue (upperHexDigit n) = n := by decide

theorem isNameChar_digit : ∀ n < 16, isNameChar (upperHexDigit n) = true := by decide

theorem forall_byte {P : UInt8 → Prop} (all : ∀ n < 256, P (UInt8.ofNat n)) (b : UInt8) : P b := by
  have here := all b.toNat b.toNat_lt
  rwa [UInt8.ofNat_toNat] at here

theorem isNameChar_ofUInt8 :
    ∀ b : UInt8, isNameByte b = true ∨ b = 46 → isNameChar (Char.ofUInt8 b) = true := by
  apply forall_byte
  decide +kernel

theorem ofUInt8_ne_point : ∀ b : UInt8, b ≠ 46 → Char.ofUInt8 b ≠ '.' := by
  apply forall_byte
  decide +kernel

theorem ofUInt8_ne_percent :
    ∀ b : UInt8, isNameByte b = true ∨ b = 46 → Char.ofUInt8 b ≠ '%' := by
  apply forall_byte
  decide +kernel

/-- A byte is kept, or becomes a percent sign with its digits. -/
theorem escaped_cases (keepsPoints : Bool) (b : UInt8) :
    ((isNameByte b = true ∨ b = 46) ∧ (b = 46 → keepsPoints = true) ∧
      escaped keepsPoints b = [Char.ofUInt8 b]) ∨ escaped keepsPoints b = percentEscape b := by
  unfold escaped
  split
  · rename_i kept
    have point : isNameByte 46 = false := by decide
    refine Or.inl ⟨?_, ?_, rfl⟩
    · simp only [Bool.or_eq_true, Bool.and_eq_true, decide_eq_true_eq] at kept
      exact kept.imp_right And.left
    · rintro rfl
      simpa [point] using kept
  · exact Or.inr rfl

theorem isNameChar_escaped {keepsPoints : Bool} {b : UInt8} {c : Char}
    (mem : c ∈ escaped keepsPoints b) : isNameChar c = true := by
  have bound := b.toNat_lt
  rcases escaped_cases keepsPoints b with ⟨kept, -, same⟩ | same
  · rw [same] at mem
    exact List.mem_singleton.1 mem ▸ isNameChar_ofUInt8 b kept
  · rw [same] at mem
    simp only [percentEscape, List.mem_cons, List.not_mem_nil, or_false] at mem
    rcases mem with rfl | rfl | rfl
    · rfl
    · exact isNameChar_digit _ (by omega)
    · exact isNameChar_digit _ (by omega)

theorem unescape_plain {c : Char} (plain : c ≠ '%') (rest : List Char) :
    unescape (c :: rest) = UInt8.ofNat c.toNat :: unescape rest := by
  rw [unescape.eq_def]
  split <;> simp_all

theorem unescape_percentEscape (b : UInt8) (rest : List Char) :
    unescape (percentEscape b ++ rest) = b :: unescape rest := by
  have bound := b.toNat_lt
  have digits : 16 * upperHexValue (upperHexDigit (b.toNat / 16)) +
      upperHexValue (upperHexDigit (b.toNat % 16)) = b.toNat := by
    rw [upperHexValue_digit _ (by omega), upperHexValue_digit _ (by omega)]
    omega
  show UInt8.ofNat _ :: unescape rest = _
  rw [digits, UInt8.ofNat_toNat]

/-- **What a byte became is read as the byte.** -/
theorem unescape_escaped (keepsPoints : Bool) (b : UInt8) (rest : List Char) :
    unescape (escaped keepsPoints b ++ rest) = b :: unescape rest := by
  rcases escaped_cases keepsPoints b with ⟨kept, -, same⟩ | same
  · have code : UInt8.ofNat (Char.ofUInt8 b).toNat = b := UInt8.ofNat_toNat
    rw [same, List.singleton_append, unescape_plain (ofUInt8_ne_percent b kept), code]
  · rw [same, unescape_percentEscape]

/-! ## Names -/

/-- What may be the name of a file: no more than a name, and none with a meaning of its own. -/
structure IsFileName (name : String) : Prop where
  nonempty : name ≠ ""
  plain : ∀ c ∈ name.toList, isNameChar c = true
  notHere : name ≠ "."
  notUp : name ≠ ".."

/-- The piece that a file name was made of. -/
def pieceOf (name : String) : String := (Bytes.ofUtf8? (unescape name.toList)).getD ""

section Names

variable {piece : String}

theorem toList_fileName (some_ : Bytes.utf8 piece ≠ []) :
    (fileName piece).toList = (Bytes.utf8 piece).flatMap
      (escaped !(Bytes.utf8 piece).all fun b => b = 46) := by
  rw [fileName, if_neg some_, String.toList_ofList]
  rfl

theorem fileName_empty (none : Bytes.utf8 piece = []) : fileName piece = "%" := if_pos none

theorem unescape_escapes (keepsPoints : Bool) (bytes : Bytes) :
    unescape (bytes.flatMap (escaped keepsPoints)) = bytes := by
  induction bytes with
  | nil => rfl
  | cons b bytes ih => rw [List.flatMap_cons, unescape_escaped, ih]

/-- **A file name says what it was made of.** -/
theorem pieceOf_fileName (piece : String) : pieceOf (fileName piece) = piece := by
  have bytes : unescape (fileName piece).toList = Bytes.utf8 piece := by
    by_cases none : Bytes.utf8 piece = []
    · rw [fileName_empty none, none]
      rfl
    · rw [toList_fileName none, unescape_escapes]
  rw [pieceOf, bytes, Bytes.ofUtf8?_utf8, Option.getD_some]

theorem fileName_inj {other : String} : fileName piece = fileName other ↔ piece = other :=
  ⟨fun same => by rw [← pieceOf_fileName piece, same, pieceOf_fileName], congrArg fileName⟩

/-- No name is made of points only, however many the piece has. -/
theorem exists_no_point (piece : String) : ∃ c ∈ (fileName piece).toList, c ≠ '.' := by
  by_cases none : Bytes.utf8 piece = []
  · rw [fileName_empty none]
    exact ⟨'%', by decide, by decide⟩
  rw [toList_fileName none]
  simp only [List.mem_flatMap]
  cases points : (Bytes.utf8 piece).all fun b => b = 46 with
  | true =>
    -- the first point is escaped
    obtain ⟨b, bytes, split⟩ := List.exists_cons_of_ne_nil none
    have point : b = 46 := by simpa using List.all_eq_true.1 points b (split ▸ List.mem_cons_self)
    exact ⟨'%', ⟨b, split ▸ List.mem_cons_self, point ▸ by decide⟩, by decide⟩
  | false =>
    obtain ⟨b, mem, other⟩ := List.all_eq_false.1 points
    have other : b ≠ 46 := by simpa using other
    rcases escaped_cases true b with ⟨-, -, same⟩ | same
    · exact ⟨Char.ofUInt8 b, ⟨b, mem, by simp [same]⟩, ofUInt8_ne_point b other⟩
    · exact ⟨'%', ⟨b, mem, by simp [same, percentEscape]⟩, by decide⟩

theorem isFileName_fileName (piece : String) : IsFileName (fileName piece) := by
  obtain ⟨c, mem, noPoint⟩ := exists_no_point piece
  refine ⟨?_, ?_, ?_, ?_⟩
  · intro empty
    rw [empty] at mem
    exact absurd mem (by simp)
  · intro d mem
    by_cases none : Bytes.utf8 piece = []
    · rw [fileName_empty none] at mem
      exact List.mem_singleton.1 mem ▸ rfl
    · rw [toList_fileName none, List.mem_flatMap] at mem
      obtain ⟨b, -, mem⟩ := mem
      exact isNameChar_escaped mem
  · intro here
    rw [here] at mem
    exact noPoint (by simpa using mem)
  · intro up
    rw [up] at mem
    exact noPoint (by simpa using mem)

/-- A file name leads down from a directory. -/
theorem IsFileName.proper {name : String} (h : IsFileName name) : Path.Proper name where
  slashless mem := absurd (h.plain '/' mem) (by decide)
  nonempty := h.nonempty
  notHere := h.notHere
  notUp := h.notUp

end Names

/-! ## Paths -/

namespace SourceKey

/-- The names on the way from a root to the file of a key. -/
def fileNames (key : SourceKey) : List String := key.directories ++ [fileName key.uri]

theorem path_eq (root : Path) (key : SourceKey) :
    key.path root = key.fileNames.foldl Path.join root := by
  rw [fileNames, List.foldl_append]
  rfl

theorem isFileName_of_mem {key : SourceKey} {name : String} (mem : name ∈ key.fileNames) :
    IsFileName name := by
  have made : ∃ piece, name = fileName piece := by
    unfold fileNames directories at mem
    split at mem
    · simp only [List.cons_append, List.nil_append, List.mem_cons, List.not_mem_nil,
        or_false] at mem
      rcases mem with rfl | rfl <;> exact ⟨_, rfl⟩
    · simp only [List.cons_append, List.nil_append, List.mem_cons, List.not_mem_nil,
        or_false] at mem
      rcases mem with rfl | rfl | rfl <;> exact ⟨_, rfl⟩
  obtain ⟨piece, rfl⟩ := made
  exact isFileName_fileName piece

theorem proper_fileNames (key : SourceKey) : ∀ name ∈ key.fileNames, Path.Proper name :=
  fun _ mem => (isFileName_of_mem mem).proper

theorem length_fileNames (key : SourceKey) :
    key.fileNames.length = if key.directory = "" then 2 else 3 := by
  unfold fileNames directories
  split <;> rfl

/-- The names are those of one key. -/
theorem fileNames_inj {key other : SourceKey} : key.fileNames = other.fileNames ↔ key = other := by
  refine ⟨fun same => ?_, congrArg fileNames⟩
  obtain ⟨directory, document, uri⟩ := key
  obtain ⟨directory', document', uri'⟩ := other
  by_cases none : directory = ""
  all_goals by_cases none' : directory' = ""
  all_goals simp_all [fileNames, directories, fileName_inj]

/-- **The file of a key is below the root**, whatever the key is made of. -/
structure Confined (root : Path) (key : SourceKey) : Prop where
  length : key.fileNames.length = if key.directory = "" then 2 else 3
  names : ∀ name ∈ key.fileNames, IsFileName name
  isAbsolute : (key.path root).isAbsolute = root.isAbsolute
  steps : (key.path root).steps = root.steps ++ key.fileNames
  /-- In every tree of files, the path leads to a place below the one that the root leads to. -/
  below : ∀ (t : FileTree) (place : Place),
    t.walk (t.start (key.path root)) (key.path root).names = .ok place →
      ∃ top, t.walk (t.start root) root.names = .ok top ∧ place = top ++ key.fileNames

theorem confined (root : Path) (key : SourceKey) : key.Confined root where
  length := key.length_fileNames
  names _ mem := isFileName_of_mem mem
  isAbsolute := by rw [path_eq, Path.isAbsolute_foldl_join key.proper_fileNames]
  steps := by rw [path_eq, Path.steps_foldl_join key.proper_fileNames]
  below t place went := by
    rw [path_eq, t.start_foldl_join root key.proper_fileNames,
      t.walk_foldl_join _ root key.proper_fileNames] at went
    cases reached : t.walk (t.start root) root.names with
    | error fault => rw [reached] at went; exact absurd went (by simp [bind, Except.bind])
    | ok top =>
      rw [reached] at went
      exact ⟨top, rfl, FileTree.walk_proper key.proper_fileNames went⟩

/-- **Paths of sources are confined and apart.** Whatever a key is made of, its file is below the
    root, behind two names or three, which are no more than names; what a name was made of can be
    read off it; and a path by which the file of a key is found is the path of this key only. -/
theorem paths_confined_and_apart (root : Path) (key : SourceKey) :
    key.Confined root ∧ Function.LeftInverse pieceOf fileName ∧
      ∀ other : SourceKey, (other.path root).steps = (key.path root).steps ↔ other = key := by
  refine ⟨key.confined root, pieceOf_fileName, fun other => ?_⟩
  rw [(other.confined root).steps, (key.confined root).steps, List.append_cancel_left_eq,
    fileNames_inj]

end SourceKey
end Retrace
