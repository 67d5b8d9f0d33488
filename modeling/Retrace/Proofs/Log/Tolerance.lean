import Retrace.Proofs.Double.ReadBack
import Retrace.Proofs.Log.Lines
import Retrace.Proofs.Log.Stopping

/-!
# Records that are not known are left out, and nothing else

Logs are read by other versions than wrote them. A log may hold records of kinds that came later,
arrays of other types than the only one there is now, and scripts whose text is not at hand. An
`Entry` is such a record, or an ordinary event; and a tolerant reader makes of any list of entries
what one would hope for (`Log.read_entries`): the events, in order, with each other record left out
for its own reason, and the end marker verified.

What takes an argument is where a refusal leaves the reader. It is the rest of the record's line in
every case: a kind is refused right behind its number, an array behind its type, a script behind its
last field (`Entry.fares`). From there on the lines are all alike.
-/

namespace Retrace

open Reader

variable {load : Loader}

/-! ## What is read, and what is refused -/

/-- Why a number is refused that names no kind. -/
def NoKind (number : Nat) (error : LogError) : Prop :=
  ∃ offset, error = if number < UInt32.size then .unknownKind (UInt32.ofNat number) offset
    else .invalidScalar "u32" (String.ofList (Nat.toDigits 10 number)) offset

section NoKind

variable {number : Nat} {tail : Bytes}

/-- The number of a kind is read where one was written, if it is one that 32 bits can hold. -/
theorem number_takes (small : number < UInt32.size) :
    Takes Stops (keyed .actionKind .u32)
      (Key.actionKind.written ++ Bytes.ascii (Nat.toDigits 10 number)) (UInt32.ofNat number) := by
  have same : (UInt32.ofNat number).toNat = number := by
    rw [UInt32.toNat_ofNat']
    exact Nat.mod_eq_of_lt small
  have takes := keyed_takes .actionKind .u32 (a := UInt32.ofNat number) trivial
  rwa [Wire.keyed, Scalar.written, Scalar.chars, same] at takes

theorem number_refuses (large : ¬ number < UInt32.size) (line : OneLine tail)
    (stops : ∀ rest, Stops rest → Stops (tail ++ rest)) :
    Refuses (keyed .actionKind .u32)
      (Key.actionKind.written ++ (Bytes.ascii (Nat.toDigits 10 number) ++ tail)) (NoKind number) := by
  have token : Takes Stops token (Bytes.ascii (Nat.toDigits 10 number)) (Nat.toDigits 10 number) :=
    Scalar.token_takes (by simp) fun _ mem => Scalar.isTokenChar_toDigits mem
  have none : Scalar.u32.ofChars? (Nat.toDigits 10 number) = none := by
    simp [Scalar.ofChars?, Scalar.natOf?_toDigits, large]
  refine (key_takes .actionKind).refuses (.noting fun start => token.refuses ?_ stops)
    fun _ _ => trivial
  rw [none]
  exact .throw ⟨start.offset, (if_neg large).symm⟩ line

/-- A number that names no kind is refused where it stands. -/
theorem recordHeader_refuses (time : Time) (context : Context)
    (unknown : ∀ kind : Kind, kind.number.toNat ≠ number) (line : OneLine tail)
    (stops : ∀ rest, Stops rest → Stops (tail ++ rest)) :
    Refuses recordHeader
      (Wire.keyed .eventTime .i64 time.ticks ++ 44 :: (Wire.keyed .ctxTag .u64 context.id ++
        44 :: (Key.actionKind.written ++ (Bytes.ascii (Nat.toDigits 10 number) ++ tail))))
      (NoKind number) := by
  have ticks : Takes Stops (keyed .eventTime .i64) (Wire.keyed .eventTime .i64 time.ticks)
      time.ticks := keyed_takes .eventTime .i64 trivial
  have id : Takes Stops (keyed .ctxTag .u64) (Wire.keyed .ctxTag .u64 context.id) context.id :=
    keyed_takes .ctxTag .u64 trivial
  have named (start : Reader) : Refuses (kindNumber time.ticks context.id start)
      (Key.actionKind.written ++ (Bytes.ascii (Nat.toDigits 10 number) ++ tail))
      (NoKind number) := by
    by_cases small : number < UInt32.size
    · have none : Kind.ofNumber? (UInt32.ofNat number) = none := by
        cases found : Kind.ofNumber? (UInt32.ofNat number) with
        | none => rfl
        | some kind =>
          refine absurd ?_ (unknown kind)
          rw [Kind.number_of_ofNumber? found, UInt32.toNat_ofNat']
          exact Nat.mod_eq_of_lt small
      rw [← List.append_assoc]
      refine (number_takes small).refuses ?_ stops
      rw [none]
      exact .throw ⟨start.offset, (if_pos small).symm⟩ line
    · exact (number_refuses small line stops).bind _
  apply ticks.refuses _ fun _ _ => .cons (by decide)
  apply comma_takes.refuses _ fun _ _ => trivial
  apply id.refuses _ fun _ _ => .cons (by decide)
  apply Refuses.noting
  intro start
  exact comma_takes.refuses (named start) fun _ _ => trivial

end NoKind

/-- An array of another type is refused behind the type. -/
theorem arrayType_refuses {id : UInt32} (foreign : id ≠ arrayTypeId) {tail : Bytes}
    (line : OneLine tail) (stops : ∀ rest, Stops (tail ++ rest)) :
    Refuses Field.arrayType.read (44 :: (Wire.keyed .typeId .u32 id ++ tail))
      fun error => ∃ offset, error = .invalidField (.foreignArrayType id) offset := by
  have number : Takes Stops (keyed .typeId .u32) (Wire.keyed .typeId .u32 id) id :=
    keyed_takes .typeId .u32 trivial
  apply Refuses.noting
  intro start
  apply comma_takes.refuses _ fun _ _ => trivial
  apply number.refuses _ fun rest _ => stops rest
  rw [if_pos foreign]
  exact .throw ⟨start.offset, rfl⟩ line

/-- A script is refused whose text is not at hand, or is of another length. -/
theorem loadScript_lost {s : Script} {length : UInt32}
    (lost : ∀ text, load s.key = .ok text → text.utf8ByteSize ≠ length.toNat) :
    ∃ e, Action.loadScript load s length = .error (.source e) := by
  unfold Action.loadScript
  cases found : load s.key with
  | error e => exact ⟨e, rfl⟩
  | ok text => exact ⟨_, if_neg (lost text found)⟩

/-! ## Entries -/

/-- What may stand in a log that was written elsewhere. -/
inductive Entry (load : Loader) where
  /-- An event whose text, if it parses a script, is at hand. -/
  | event (e : Event) (short : e.action.Short)
    (held : ∀ s, e.action = .codeParse s → load s.key = .ok s.text)
  /-- A record of a kind that there is not, with anything behind the number of the kind. -/
  | unknownKind (time : Time) (context : Context) (number : Nat) (tail : Bytes)
    (unknown : ∀ kind : Kind, kind.number.toNat ≠ number) (line : OneLine tail)
    (mark : ∀ b, tail.head? = some b → b = 44 ∨ b = 125)
  | foreignArray (time : Time) (context : Context) (id length : UInt32)
    (foreign : id ≠ arrayTypeId)
  /-- A script of a given length whose text is not at hand, or is of another length. -/
  | lostScript (time : Time) (context : Context) (s : Script) (length : UInt32)
    (lost : ∀ text, load s.key = .ok text → text.utf8ByteSize ≠ length.toNat)

namespace Entry

/-- The event that is read of an entry. -/
def event? : Entry load → Option Event
  | event e .. => some (e.mapDouble Double.readBack)
  | _ => none

/-- What the record of an entry holds, behind its opening brace. -/
def inner : Entry load → Bytes
  | event e .. => e.inner
  | unknownKind time context number tail .. =>
    Wire.keyed .eventTime .i64 time.ticks ++ 44 :: (Wire.keyed .ctxTag .u64 context.id ++
      44 :: (Key.actionKind.written ++ (Bytes.ascii (Nat.toDigits 10 number) ++ tail)))
  | foreignArray time context id length _ => Wire.recordHeader time context .allocateArray ++
      (44 :: (Wire.keyed .typeId .u32 id ++ 44 :: (Wire.keyed .u32Val .u32 length ++ Wire.recordEnd)))
  | lostScript time context s length _ => Wire.recordHeader time context .codeParse ++
      (Kind.codeParse.layout.written (s.document.id, s.loadFlags, s.body.id, s.directory, s.file,
        s.uri, length, ()) ++ Wire.recordEnd)

/-- What becomes of an entry. -/
def fate : Entry load → Fate
  | event e .. => .kept (e.mapDouble Double.readBack)
  | unknownKind _ _ number .. => .left (NoKind number)
  | foreignArray _ _ id .. =>
    .left fun error => ∃ offset, error = .invalidField (.foreignArrayType id) offset
  | lostScript .. => .left fun error => ∃ e, error = .source e

theorem fares (entry : Entry load) : Fares load entry.inner entry.fate := by
  cases entry with
  | event e short held =>
    have writable := Action.writable_fields short
    exact Event.interior_takes writable (Action.reread_of_loaded short held)
  | unknownKind time context number tail unknown line mark =>
    refine (recordHeader_refuses time context unknown line fun rest stops => ?_).bind _
    cases tail with
    | nil => exact stops
    | cons b tail => rcases mark b rfl with rfl | rfl <;> exact .cons (by decide)
  | foreignArray time context id length foreign =>
    refine (recordHeader_takes time context .allocateArray).refuses ?_ fun _ _ => .cons (by decide)
    exact ((arrayType_refuses foreign (.cons (by decide) ((OneLine.keyed _ _ _).append (by decide)))
      fun _ => .cons (by decide)).bind _).bind _
  | lostScript time context s length lost =>
    have writable : Kind.codeParse.layout.Writable (s.document.id, s.loadFlags, s.body.id,
        s.directory, s.file, s.uri, length, ()) := by
      simp [Kind.layout, Kind.form, Layout.Writable, Field.Writable, Scalar.Faithful]
    obtain ⟨e, refused⟩ := loadScript_lost (s := { s with text := "" }) lost
    exact Event.interior_refuses writable refused ⟨e, rfl⟩

/-- An entry as a line of a log. -/
def line (entry : Entry load) : Line load := ⟨entry.inner, entry.fate, entry.fares⟩

theorem line_event? (entry : Entry load) : entry.line.event? = entry.event? := by
  cases entry <;> rfl

end Entry

/-- **Forward compatibility.** Take any entries, and write them to a log as records are written,
    with an end marker that counts them all. A tolerant reader reads the events, in order, with
    their NaNs made one. It leaves out just the entries that are no events, each counted as the
    record that it is and for its own reason. It meets nothing fatal, and has taken the end marker
    and nothing behind it. -/
theorem Log.read_entries (entries : List (Entry load)) (countable : entries.length < UInt64.size) :
    let bytes := Wire.logStart ++
      (Line.written 0 (entries.map Entry.line) ++ Wire.endMarker entries.length)
    ∃ reading, readTolerant load .skipBad (.ofBytes bytes) = .ok reading ∧
      reading.log.events.toList = entries.filterMap Entry.event? ∧ reading.fatal = none ∧
      Line.LeftOut 0 (entries.map Entry.line) reading.skipped ∧
      reading.reader.Ended bytes ∧ reading.reader.records = entries.length ∧
      reading.reader.rest = [10] := by
  have events : (entries.map Entry.line).filterMap Line.event? = entries.filterMap Entry.event? := by
    rw [List.filterMap_map]
    exact congrArg (List.filterMap · entries) (funext Entry.line_event?)
  obtain ⟨reading, ran, found, none, leftOut, count, rest, ended⟩ :=
    Line.read_lines (entries.map Entry.line) (by rwa [List.length_map])
  rw [List.length_map] at ran count ended
  exact ⟨reading, ran, found.trans events, none, leftOut, ended, count, rest⟩

/-- A store that has nothing. -/
def noTexts : Loader := fun key => .error (.notFound key)

/-- The entries of a later version: two events, and between them all that cannot be read. -/
def laterEntries : List (Entry noTexts) := [
  .event ⟨⟨1⟩, ⟨0⟩, .allocateObject true⟩ trivial (by simp),
  .unknownKind ⟨2⟩ ⟨0⟩ 900 (44 :: Bytes.ascii ['"', 'n', '"', ':', '3', '}'])
    (fun kind => by cases kind <;> decide) (by decide)
    (fun _ first => Or.inl (Option.some.inj first).symm),
  .foreignArray ⟨3⟩ ⟨0⟩ 5 8 (by decide),
  .lostScript ⟨4⟩ ⟨0⟩ ⟨⟨7⟩, 0, ⟨1⟩, "lib", "a.js", "app:a", ""⟩ 4 (by simp [noTexts]),
  .event ⟨⟨5⟩, ⟨0⟩, .getAndClearException⟩ trivial (by simp)]

theorem Log.laterEntries_read : laterEntries.length < UInt64.size ∧
    ∃ reading, readTolerant noTexts .skipBad (.ofBytes (Wire.logStart ++
        (Line.written 0 (laterEntries.map Entry.line) ++ Wire.endMarker 5))) = .ok reading ∧
      reading.log.events.toList =
        [⟨⟨1⟩, ⟨0⟩, .allocateObject true⟩, ⟨⟨5⟩, ⟨0⟩, .getAndClearException⟩] ∧
      reading.skipped.map (·.failure.records) = [2, 3, 4] ∧ reading.fatal = none := by
  have countable : laterEntries.length < UInt64.size := by decide
  obtain ⟨reading, ran, events, none, leftOut, -⟩ := read_entries laterEntries countable
  exact ⟨countable, reading, ran, events.trans rfl, (Line.LeftOut.positions leftOut).trans rfl, none⟩

end Retrace
