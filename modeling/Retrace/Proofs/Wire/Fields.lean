import Retrace.Proofs.Wire.Texts
import Retrace.Wire.Layout

/-!
# Fields and layouts are read back

Each shape of field is read back by a lemma that follows how it is written, and a layout by
induction over its fields. All fields may end in a scalar, so `Stops` is what is asked of the bytes
behind them; a comma and a closing brace both answer it.

What has to be known of a field for this is `Field.Writable`: its doubles are printed so that they
are read back, and a sequence is no longer than its declared length can say.
-/

namespace Retrace

/-! ## Doubles among values -/

/-- The doubles in a value. -/
def Value.doubles {η : Type} : Value η → List Double
  | f64 x => [x]
  | _ => []

/-- The double in a value is printed so that it is read back. -/
def Recorded.Faithful (v : Recorded) : Prop := ∀ x ∈ v.doubles, Scalar.f64.Faithful x

/-- The value that is read where one was written. -/
def Recorded.readBack (v : Recorded) : Recorded := v.mapDouble Double.readBack

namespace Field

/-- What is read where a field was written. -/
def readBack {α : Type} : Field α → α → α
  | scalar _ s, a => s.readBack a
  | value _, v => Recorded.readBack v
  | optionalValue, name => name.map Recorded.readBack
  | values, list => list.map Recorded.readBack
  | text _, a | arrayType, a | bytes, a | diagnostics, a => a

/-- What a field holds can be written and read back. -/
def Writable {α : Type} : Field α → α → Prop
  | scalar _ s, a => s.Faithful a
  | value _, v => Recorded.Faithful v
  | optionalValue, name => ∀ v ∈ name, Recorded.Faithful v
  | bytes, list => list.length < UInt32.size
  | values, list => list.length < UInt32.size ∧ ∀ v ∈ list, Recorded.Faithful v
  | text _, _ | arrayType, _ | diagnostics, _ => True

end Field

namespace Layout

/-- What is read where the fields of a record were written. -/
def readBack {α : Type} : Layout α → α → α
  | done, () => ()
  | field f rest, (a, b) => (f.readBack a, rest.readBack b)

/-- What a record holds can be written and read back. -/
def Writable {α : Type} : Layout α → α → Prop
  | done, () => True
  | field f rest, (a, b) => f.Writable a ∧ rest.Writable b

end Layout

/-! ## Pieces of fields -/

namespace Reader

theorem comma_takes : Takes Anything (expect ',') [44] () := expect_takes (by decide) (by decide)

theorem brace_takes : Takes Anything (expect '}') [125] () := expect_takes (by decide) (by decide)

theorem keyed_takes {α : Type} (k : Key) (s : Scalar α) {a : α} (faithful : s.Faithful a) :
    Takes Stops (keyed k s) (Wire.keyed k s a) (s.readBack a) :=
  (key_takes k).seq (s.takes faithful)

theorem keyedText_takes (k : Key) (s : String) :
    Takes Anything (keyedText k) (Wire.keyedText k s) s :=
  (key_takes k).seq (quoted_takes s)

theorem sequenceStart_takes (k : Key) :
    Takes Anything (sequenceStart k) (Wire.sequenceStart k) () :=
  (key_takes k).seq (expect_takes (by decide) (by decide))

theorem null_takes (start : Reader) : Takes Stops (null start) [110, 117, 108, 108] () := by
  have letters : Takes Stops token (Bytes.ascii ['n', 'u', 'l', 'l']) ['n', 'u', 'l', 'l'] :=
    Scalar.token_takes (by decide) (Scalar.isTokenChar_of_all (by decide))
  have word : Takes Stops token [110, 117, 108, 108] ['n', 'u', 'l', 'l'] := letters.congr rfl
  apply word.last
  rw [if_neg fun other => other rfl]
  exact .pure ()

/-! ## Sequences -/

section Sequences

variable {α : Type} {element : ReadM α} {written : α → Bytes} {back : α → α} {list done : List α}

theorem separated_cons (part : Bytes) (parts : List Bytes) :
    Wire.separated (part :: parts) = part ++ parts.flatMap fun p => 44 :: p := by
  unfold Wire.separated
  induction parts generalizing part with
  | nil => simp
  | cons next parts ih =>
    rw [List.intersperse_cons_cons, List.flatten_cons, List.flatten_cons, ih, List.flatMap_cons]
    simp

theorem stops_flatMap {rest : Bytes} (stops : Stops rest) :
    Stops ((list.flatMap fun a => 44 :: written a) ++ rest) := by
  cases list with
  | nil => exact stops
  | cons a list => exact .cons (by decide)

/-- Elements behind others: each has a comma before it. -/
theorem more_takes (each : ∀ a ∈ list, Takes Stops element (written a) (back a))
    (some_ : done ≠ []) :
    Takes Stops (elements element done list.length) (list.flatMap fun a => 44 :: written a)
      (done.reverse ++ list.map back) := by
  induction list generalizing done with
  | nil =>
    rw [List.map_nil, List.append_nil]
    exact .pure _
  | cons a list ih =>
    have others := ih (fun b mem => each b (List.mem_cons_of_mem _ mem))
      (List.cons_ne_nil (back a) done)
    have split : done.reverse ++ (a :: list).map back =
        (back a :: done).reverse ++ list.map back := by simp
    have comma : (!done.isEmpty) = true := by simpa using some_
    -- one element has joined those that are done
    rw [split]
    simp only [elements, List.length_cons, comma, if_true, List.flatMap_cons]
    apply comma_takes.seq
    apply (each a List.mem_cons_self).bind others
    intro rest stops
    exact stops_flatMap stops

theorem elements_takes (each : ∀ a ∈ list, Takes Stops element (written a) (back a)) :
    Takes Stops (elements element [] list.length) (Wire.separated (list.map written))
      (list.map back) := by
  cases list with
  | nil => exact .pure _
  | cons a list =>
    have others : Takes Stops (elements element [back a] list.length)
        (list.flatMap fun a => 44 :: written a) ([back a].reverse ++ list.map back) :=
      more_takes (fun b mem => each b (List.mem_cons_of_mem _ mem)) (List.cons_ne_nil _ _)
    rw [List.map_cons, separated_cons, List.flatMap_map]
    simp only [elements, List.length_cons, List.isEmpty_nil, Bool.not_true, Bool.false_eq_true,
      if_false]
    apply (each a List.mem_cons_self).bind others
    intro rest stops
    exact stops_flatMap stops

/-- **A sequence that was written is taken**, if its length can be declared. -/
theorem sequence_takes (k : Key) (short : list.length < UInt32.size)
    (each : ∀ a ∈ list, Takes Stops element (written a) (back a)) :
    Takes Anything (sequence k element) (Wire.sequence k written list) (list.map back) := by
  have declared : (UInt32.ofNat list.length).toNat = list.length := by
    rw [UInt32.toNat_ofNat']
    exact Nat.mod_eq_of_lt short
  have count : Takes Stops length (Wire.length (UInt32.ofNat list.length))
      (UInt32.ofNat list.length) := keyed_takes .length .u32 trivial
  have split : Wire.sequence k written list = Wire.length (UInt32.ofNat list.length) ++
      44 :: (Wire.sequenceStart k ++ (Wire.separated (list.map written) ++ 93 :: [])) := by
    simp [Wire.sequence]
  have close : Takes Anything (expect ']') [93] () := expect_takes (by decide) (by decide)
  rw [split]
  apply count.bindStop _ (by decide)
  apply comma_takes.byte
  apply (sequenceStart_takes k).seq
  rw [declared]
  apply (elements_takes each).bindStop _ (by decide)
  · apply close.byte
    exact .pure _

end Sequences

/-! ## Values -/

/-- A value is written as the key of its case and what the case holds, and this is taken by what the
key calls for. -/
theorem valueCase_takes {v : Recorded} (faithful : Recorded.Faithful v) :
    ∃ k bytes, Wire.valueCase v = Key.written k ++ bytes ∧
      ∀ start, Takes Stops (valueCase start k.text) bytes (Recorded.readBack v) := by
  cases v with
  | null => exact ⟨.nullVal, _, rfl, fun start => (null_takes start).last (.pure Value.null)⟩
  | bool b => exact ⟨.boolVal, _, rfl, fun _ => (Scalar.bool.takes trivial).map Value.bool⟩
  | i32 n => exact ⟨.i32Val, _, rfl, fun _ => (Scalar.i32.takes trivial).map Value.i32⟩
  | u32 n => exact ⟨.u32Val, _, rfl, fun _ => (Scalar.u32.takes trivial).map Value.u32⟩
  | i64 n => exact ⟨.i64Val, _, rfl, fun _ => (Scalar.i64.takes trivial).map Value.i64⟩
  | u64 n => exact ⟨.u64Val, _, rfl, fun _ => (Scalar.u64.takes trivial).map Value.u64⟩
  | f64 x =>
    have double : Scalar.f64.Faithful x := faithful x List.mem_cons_self
    exact ⟨.doubleVal, _, rfl, fun _ => (Scalar.f64.takes double).map Value.f64⟩
  | str s => exact ⟨.stringVal, _, rfl, fun _ => (quoted_takes s).before.map Value.str⟩
  | ref tag =>
    exact ⟨.tagVal, _, rfl, fun _ =>
      (Scalar.u64.takes (a := tag.id) trivial).map fun n => (Value.ref ⟨n⟩ : Recorded)⟩

theorem value_takes {v : Recorded} (faithful : Recorded.Faithful v) :
    Takes Anything value (Wire.value v) (Recorded.readBack v) := by
  obtain ⟨k, bytes, written, held⟩ := valueCase_takes faithful
  have opening : Takes Anything (expect '{') [123] () := expect_takes (by decide) (by decide)
  have colon : Takes Anything (expect ':') [58] () := expect_takes (by decide) (by decide)
  have split : Wire.value v =
      [123] ++ (Quoted.written k.text ++ ([58] ++ (bytes ++ 125 :: []))) := by
    simp [Wire.value, written, k.written_eq]
  rw [split]
  apply opening.seq
  apply Takes.skipping (b := 34)
  · apply Takes.noting
    intro start
    apply (quoted_takes k.text).seq
    apply colon.seq
    apply (held start).bindStop _ (by decide)
    · apply brace_takes.byte
      exact .pure _
  · decide

/-- Bytes that were written are taken, if their length can be declared. -/
theorem bytes_takes {list : List UInt8} (short : list.length < UInt32.size) :
    Takes Anything bytes (Wire.bytes list) list := by
  have numbers : Takes Anything bytes (Wire.bytes list) (list.map Scalar.u8.readBack) :=
    sequence_takes .bytes short fun n _ => Scalar.u8.takes trivial
  have same : list.map Scalar.u8.readBack = list := List.map_id list
  rwa [same] at numbers

theorem values_takes {list : List Recorded} (short : list.length < UInt32.size)
    (faithful : ∀ v ∈ list, Recorded.Faithful v) :
    Takes Anything values (Wire.values list) (list.map Recorded.readBack) :=
  sequence_takes .values short fun v mem => (value_takes (faithful v mem)).before

theorem keyedValue_takes (k : Key) {v : Recorded} (faithful : Recorded.Faithful v) :
    Takes Anything (keyedValue k) (Wire.keyedValue k v) (Recorded.readBack v) :=
  (key_takes k).seq (value_takes faithful)

/-! ## Diagnostics -/

theorem nullOrObject_null : Takes Stops nullOrObject [110, 117, 108, 108] true := by
  apply Takes.skipping (b := 110)
  · intro r rest ending stops
    have word := null_takes { r with rest := [110, 117, 108, 108] ++ rest } r rest ending stops
    simp only [bind_run, get_run, List.cons_append, if_true] at word ⊢
    rw [word]
    rfl
  · decide

theorem nullOrObject_object : Takes Anything nullOrObject [123] false := by
  apply Takes.skipping (b := 123)
  · intro r rest _ _
    rfl
  · decide

end Reader

/-! ## Fields -/

namespace Field

open Reader

/-- **A field that was written is taken**, with the comma before it. -/
theorem takes {α : Type} (f : Field α) {a : α} (writable : f.Writable a) :
    Takes Stops f.read (44 :: f.written a) (f.readBack a) := by
  cases f with
  | scalar k s => exact comma_takes.seq (keyed_takes k s writable)
  | text k => exact comma_takes.seq (keyedText_takes k a).before
  | value k => exact comma_takes.seq (keyedValue_takes k writable).before
  | arrayType =>
    have id : Takes Stops (Reader.keyed .typeId .u32) (Wire.keyed .typeId .u32 arrayTypeId)
        arrayTypeId := keyed_takes .typeId .u32 trivial
    apply Takes.noting
    intro start
    apply comma_takes.byte
    apply id.last
    rw [if_neg fun other => other rfl]
    exact .pure ()
  | optionalValue =>
    cases a with
    | none =>
      have absent : Takes Stops (Reader.keyed .boolVal .bool) (Wire.keyed .boolVal .bool false)
          false := keyed_takes .boolVal .bool trivial
      apply comma_takes.byte
      apply absent.last
      exact .pure _
    | some v =>
      have present : Takes Stops (Reader.keyed .boolVal .bool) (Wire.keyed .boolVal .bool true)
          true := keyed_takes .boolVal .bool trivial
      apply comma_takes.byte
      apply present.bindStop _ (by decide)
      · apply comma_takes.byte
        exact ((keyedValue_takes .entry (writable v rfl)).map some).before
  | bytes => exact comma_takes.seq (bytes_takes writable).before
  | values => exact comma_takes.seq (values_takes writable.1 writable.2).before
  | diagnostics =>
    cases a with
    | none =>
      apply comma_takes.byte
      apply (key_takes .diag).seq
      apply nullOrObject_null.last
      exact .pure _
    | some s =>
      have split : 44 :: written diagnostics (some s) =
          [44] ++ (Key.diag.written ++ ([123] ++ (Wire.keyedText .name s ++ ([125] ++ [])))) := by
        simp [written, Wire.diagnostics]
      rw [split]
      apply comma_takes.seq
      apply (key_takes .diag).seq
      apply nullOrObject_object.seq
      apply (keyedText_takes .name s).seq
      apply brace_takes.seq
      exact .pure _

end Field

/-! ## Layouts -/

namespace Layout

open Reader

theorem stops_written {α : Type} (layout : Layout α) (a : α) {rest : Bytes} (stops : Stops rest) :
    Stops (layout.written a ++ rest) := by
  cases layout with
  | done => exact stops
  | field f more => exact .cons (by decide)

/-- **The fields of a record that were written are taken.** -/
theorem takes {α : Type} (layout : Layout α) {a : α} (writable : layout.Writable a) :
    Takes Stops layout.read (layout.written a) (layout.readBack a) := by
  induction layout with
  | done => exact .pure ()
  | field f rest ih =>
    obtain ⟨first, others⟩ := a
    obtain ⟨here, there⟩ := writable
    apply (f.takes here).bind
    · apply (ih there).last
      exact .pure _
    · intro tail stops
      exact stops_written rest others stops

end Layout
end Retrace
