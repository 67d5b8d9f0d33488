import Retrace.Proofs.Log.Closing
import Retrace.Proofs.Wire.OneLine

/-!
# Going along the lines of a log

Every record of a log stands on a line of its own. A `Line` is what a record holds behind its
opening brace, and what becomes of it: an event is read, or the record is left out. `Line.fares`
says that this is so in front of any other line.

A tolerant reader that gets to the end of one line gets to the end of the next. How it does so
depends on what became of the record. Behind an event it stands before the comma that ends the line;
behind a record that was left out it stands at the newline, and has the comma behind it. `Reader.At`
is both, and both are the same to the next record (`Reader.At.opens`). So any lines can follow each
other (`Reader.At.along`), and none of them is taken for part of another.
-/

namespace Retrace

open Reader

/-! ## Being refused -/

namespace Reader

variable {α β : Type} {follow : Bytes → Prop} {bytes more : Bytes} {reason : LogError → Prop}

/-- The step fails on the bytes, for a reason, and leaves the last of them; among these there is no
    newline. -/
def Refuses (m : ReadM α) (bytes : Bytes) (reason : LogError → Prop) : Prop :=
  ∀ (r : Reader) (rest : Bytes), r.ending = .endOfInput → Stops rest →
    ∃ error remainder, reason error ∧ OneLine remainder ∧
      m { r with rest := bytes ++ rest } = .error error { r with rest := remainder ++ rest }

theorem Refuses.throw {e : LogError} (because : reason e) (line : OneLine bytes) :
    Refuses (throw e : ReadM α) bytes reason :=
  fun _ _ _ _ => ⟨e, bytes, because, line, rfl⟩

theorem Refuses.bind {m : ReadM α} (h : Refuses m bytes reason) (f : α → ReadM β) :
    Refuses (m >>= f) bytes reason := by
  intro r rest ending stops
  obtain ⟨error, remainder, because, line, failed⟩ := h r rest ending stops
  exact ⟨error, remainder, because, line, by rw [bind_run, failed]⟩

theorem Refuses.noting {f : Reader → ReadM α} (h : ∀ start, Refuses (f start) bytes reason) :
    Refuses (get >>= f) bytes reason :=
  fun r rest ending stops => h _ r rest ending stops

/-- A piece that is taken, and another one behind it that is refused. -/
theorem Takes.refuses {m : ReadM α} {f : α → ReadM β} {a : α} (first : Takes follow m bytes a)
    (next : Refuses (f a) more reason) (fits : ∀ rest, Stops rest → follow (more ++ rest)) :
    Refuses (m >>= f) (bytes ++ more) reason := by
  intro r rest ending stops
  obtain ⟨error, remainder, because, line, failed⟩ := next r rest ending stops
  refine ⟨error, remainder, because, line, ?_⟩
  rw [List.append_assoc, bind_run, first r _ ending (fits rest stops)]
  exact failed

end Reader

/-! ## Lines -/

/-- What becomes of a record. -/
inductive Fate where
  | kept (e : Event)
  /-- It is left out, for a reason. -/
  | left (reason : LogError → Prop)

def Fate.event? : Fate → Option Event
  | kept e => some e
  | left _ => none

/-- Whether the error is why a record is left out. -/
def Fate.Explains : Fate → LogError → Prop
  | kept _, _ => False
  | left reason, e => reason e

/-- What a record holds is read as an event, or it is refused before the line is over. -/
def Fares (load : Loader) (inner : Bytes) : Fate → Prop
  | .kept e => Takes Stops (Event.interior load) inner (some e)
  | .left reason => Refuses (Event.interior load) inner reason

/-- A record, behind its opening brace, and what becomes of it. -/
structure Line (load : Loader) where
  inner : Bytes
  fate : Fate
  fares : Fares load inner fate

variable {load : Loader}

def Line.event? (line : Line load) : Option Event := line.fate.event?

/-- The lines of a log behind so many others. -/
def Line.written (before : Nat) : List (Line load) → Bytes
  | [] => []
  | line :: lines => Wire.recordStart (before = 0) ++ line.inner ++ written (before + 1) lines

/-- The records that are left out of some lines, behind so many others: each with the position that
    its line has among all, and with an error that explains it. -/
def Line.LeftOut (before : Nat) (lines : List (Line load)) (skipped : List SkippedRecord) : Prop :=
  List.Forall₂ (fun (line : Line load × Nat) (record : SkippedRecord) =>
      record.failure.records = line.2 ∧ line.1.fate.Explains record.failure.error)
    ((lines.zipIdx (before + 1)).filter fun line => line.1.event?.isNone) skipped

theorem Line.LeftOut.append {before : Nat} {lines more : List (Line load)}
    {skipped skipped' : List SkippedRecord} (h : LeftOut before lines skipped)
    (h' : LeftOut (before + lines.length) more skipped') :
    LeftOut before (lines ++ more) (skipped ++ skipped') := by
  unfold LeftOut
  rw [List.zipIdx_append, List.filter_append, Nat.add_right_comm]
  exact List.rel_append h h'

theorem Line.LeftOut.positions {before : Nat} {lines : List (Line load)}
    {skipped : List SkippedRecord} (h : LeftOut before lines skipped) :
    skipped.map (·.failure.records) =
      ((lines.zipIdx (before + 1)).filter fun line => line.1.event?.isNone).map (·.2) := by
  unfold LeftOut at h
  generalize (lines.zipIdx (before + 1)).filter _ = left at h ⊢
  induction h with
  | nil => rfl
  | cons first _ ih => rw [List.map_cons, List.map_cons, first.1, ih]

/-! ## Records of events -/

namespace Event

/-- What the record of an event holds, behind its opening brace. -/
def inner (e : Event) : Bytes :=
  Wire.recordHeader e.time e.context e.kind ++
    (e.kind.layout.written e.action.fields ++ Wire.recordEnd)

/-- What the record of an event holds between its braces. -/
def held (e : Event) : Bytes :=
  Wire.recordHeader e.time e.context e.kind ++ e.kind.layout.written e.action.fields

theorem inner_eq (e : Event) : e.inner = e.held ++ [125] :=
  (List.append_assoc ..).symm

theorem record_eq (first : Bool) (e : Event) : e.record first = Wire.recordStart first ++ e.inner :=
  List.append_assoc ..

theorem inner_printed (e : Event) : Printed e.inner :=
  (Printed.recordHeader e.time e.context e.kind).append
    ((Printed.layout e.kind.layout e.action.fields).append (.codes (by decide)))

/-- **There is no newline in the record of an event.** -/
theorem inner_oneLine (e : Event) : OneLine e.inner := .printed e.inner_printed

variable {e : Event} {action : Action} {error : LogError} {reason : LogError → Prop}

/-- **What the record of an event holds is read as the event**, with what is read of its action. -/
theorem interior_takes (writable : e.kind.layout.Writable e.action.fields)
    (given : e.action.reread load = .ok action) :
    Takes Stops (interior load) e.inner (some { e with action }) := by
  have held : Action.ofFields load e.kind (e.kind.layout.readBack e.action.fields) = .ok action :=
    (Action.ofFields_readBack load e.action).trans given
  apply (recordHeader_takes e.time e.context e.kind).bind
  · apply (e.kind.layout.takes writable).bindStop _ (by decide)
    dsimp only
    rw [held]
    exact brace_takes.before.last (.pure _)
  · intro rest stops
    rw [List.append_assoc]
    exact Layout.stops_written _ _ (.cons (by decide))

/-- A record is refused at its end whose fields are those of no action. -/
theorem interior_refuses {time : Time} {context : Context} {kind : Kind} {fields : kind.Fields}
    (writable : kind.layout.Writable fields)
    (refused : Action.ofFields load kind (kind.layout.readBack fields) = .error error)
    (because : reason error) : Refuses (interior load) (Wire.recordHeader time context kind ++
      (kind.layout.written fields ++ Wire.recordEnd)) reason := by
  refine (recordHeader_takes time context kind).refuses ?_ fun rest _ => ?_
  · refine (kind.layout.takes writable).refuses ?_ fun _ _ => .cons (by decide)
    dsimp only
    rw [refused]
    exact .throw because (by decide)
  · rw [List.append_assoc]
    exact Layout.stops_written _ _ (.cons (by decide))

end Event

/-! ## Between two lines -/

namespace Reader

variable {r : Reader} {rest tail body : Bytes}

/-- The reader stands before what is left of a log, behind some records. If it has left out the last
    of them, it stands at the end of the line, behind the comma. -/
structure At (rest : Bytes) (r : Reader) : Prop where
  ending : r.ending = .endOfInput
  inRecords : r.inRecords = true
  place : r.rest = rest ∧ r.commaSkipped = false ∨
    0 < r.records ∧ r.rest = rest.dropWhile (· ≠ 10) ∧ (rest.head? = some 44 → r.commaSkipped = true)

/-- A reader that has begun with a log stands before what comes behind the log's opening. -/
theorem begun_at (bytes : Bytes) : ∃ r : Reader,
    beginLog (.ofBytes (Wire.logStart ++ bytes)) = .ok formatVersion r ∧ r.At bytes ∧
      r.records = 0 := by
  obtain ⟨r, begun, among, fresh⟩ := beginLog_run bytes
  exact ⟨_, begun, ⟨among.ending, among.inRecords, Or.inl ⟨rfl, among.noneSkipped⟩⟩, fresh⟩

/-- The reader inside the record that comes next. -/
def inside (r : Reader) (body : Bytes) : Reader :=
  { r with rest := body, records := r.records + 1, commaSkipped := false }

/-- **A record can be started on the next line**, whatever became of the one before. -/
theorem At.opens (h : r.At (Wire.recordStart (r.records = 0) ++ body)) :
    startRecord r = .ok true (r.inside body) := by
  obtain ⟨ending, inRecords, ⟨same, noneSkipped⟩ | ⟨some_, same, skipped⟩⟩ := h
  · have started := startRecord_run ⟨ending, inRecords, noneSkipped⟩ body
    rw [← same] at started
    refine started.trans ?_
    rw [inside, ← noneSkipped]
  · obtain ⟨left, ending', total, records, inRecords', commaSkipped⟩ := r
    obtain ⟨n, rfl⟩ : ∃ n, records = n + 1 := ⟨records - 1, by simp only at some_; omega⟩
    obtain rfl : left = 10 :: 123 :: body := same
    obtain rfl : commaSkipped = true := skipped rfl
    obtain rfl : ending' = .endOfInput := ending
    obtain rfl : inRecords' = true := inRecords
    rfl

theorem At.endMarker {count : Nat} (h : r.At (Wire.endMarker count)) :
    r.rest = Wire.endMarker count := by
  rcases h.place with ⟨same, -⟩ | ⟨-, same, -⟩
  · exact same
  · exact same

/-- The bytes may stand behind a record: a newline, with a comma before it or not. -/
inductive EndsLine : Bytes → Prop
  | newline (rest : Bytes) : EndsLine (10 :: rest)
  | comma (rest : Bytes) : EndsLine (44 :: 10 :: rest)

theorem EndsLine.stops (ends : EndsLine rest) : Stops rest := by
  cases ends <;> exact .cons (by decide)

theorem endsLine_endMarker (count : Nat) : EndsLine (Wire.endMarker count) := .newline _

theorem endsLine_recordStart (first : Bool) (body : Bytes) :
    EndsLine (Wire.recordStart first ++ body) := by
  cases first
  · exact .comma _
  · exact .newline _

theorem endsLine_written {lines : List (Line load)} (before : Nat) (ends : EndsLine tail) :
    EndsLine (Line.written before lines ++ tail) := by
  cases lines with
  | nil => exact ends
  | cons line lines =>
    rw [Line.written, List.append_assoc, List.append_assoc]
    exact endsLine_recordStart _ _

/-- **To leave a record out is to get to the end of its line**, if reading has not come further. -/
theorem skipRecord_at {remainder : Bytes} (ending : r.ending = .endOfInput)
    (inRecords : r.inRecords = true) (some_ : 0 < r.records) (stands : r.rest = remainder ++ rest)
    (within : OneLine remainder) (ends : EndsLine rest) : ∃ s, skipRecord r = .ok () s ∧
      s.At rest ∧ s.records = r.records ∧ s.rest.length ≤ rest.length := by
  have others : ∀ b ∈ remainder, (b ≠ 10 : Bool) = true :=
    fun b mem => decide_eq_true (within.ne mem)
  have run := skipRecord_run ending
  rw [stands, List.dropWhile_append_of_pos others, List.takeWhile_append_of_pos others] at run
  refine ⟨_, run, ⟨ending, inRecords, Or.inr ⟨some_, rfl, fun comma => ?_⟩⟩, rfl,
    (List.dropWhile_suffix _).length_le⟩
  cases ends with
  | newline rest => cases comma
  | comma rest => simp [endsInComma, Bytes.isBlank]

end Reader

/-! ## From line to line -/

namespace Reader.At

variable {r : Reader} {rest tail : Bytes}

theorem step (line : Line load)
    (h : r.At (Wire.recordStart (r.records = 0) ++ (line.inner ++ rest))) (ends : EndsLine rest) :
    ∃ skipped s, Passes load r line.event?.toList skipped s ∧ s.At rest ∧
      s.records = r.records + 1 ∧ Line.LeftOut r.records [line] skipped := by
  have started := h.opens
  obtain ⟨inner, fate, fares⟩ := line
  cases fate with
  | kept e =>
    have held := fares (r.inside []) rest h.ending ends.stops
    have read : Event.read load r = .ok (some e) (r.inside rest) := by
      rw [Event.read_eq, bind_run, started]
      exact held
    exact ⟨[], r.inside rest, .read read (.here _), ⟨h.ending, h.inRecords, Or.inl ⟨rfl, rfl⟩⟩, rfl,
      .nil⟩
  | left reason =>
    obtain ⟨error, remainder, explains, within, held⟩ :=
      fares (r.inside []) rest h.ending ends.stops
    have read : Event.read load r = .error error (r.inside (remainder ++ rest)) := by
      rw [Event.read_eq, bind_run, started]
      exact held
    obtain ⟨s, skip, at_, count, short⟩ := skipRecord_at
      (r := r.inside (remainder ++ rest)) h.ending h.inRecords (Nat.succ_pos _) rfl within ends
    have before : (inner ++ rest).length < r.rest.length := startRecord_shorter started
    rw [List.length_append] at before
    exact ⟨_, s, .skipped read skip (by omega) (.here s), at_, count, .cons ⟨rfl, explains⟩ .nil⟩

/-- **A tolerant reader gets from line to line.** It reads the events that are kept and leaves out
    the records that are not. -/
theorem along (lines : List (Line load)) (h : r.At (Line.written r.records lines ++ tail))
    (ends : EndsLine tail) : ∃ skipped s, Passes load r (lines.filterMap Line.event?) skipped s ∧
      s.At tail ∧ s.records = r.records + lines.length ∧ Line.LeftOut r.records lines skipped := by
  induction lines generalizing r with
  | nil => exact ⟨[], r, .here r, h, rfl, .nil⟩
  | cons line lines ih =>
    rw [Line.written, List.append_assoc, List.append_assoc] at h
    obtain ⟨first, s, passes, at_, count, leftOut⟩ := h.step line (endsLine_written _ ends)
    rw [← count] at at_
    obtain ⟨others, t, further, end_, total, leftOut'⟩ := ih at_
    refine ⟨first ++ others, t, ?_, end_, ?_, ?_⟩
    · have both := passes.trans further
      rwa [show line.event?.toList ++ lines.filterMap Line.event? =
        (line :: lines).filterMap Line.event? by
          rw [List.filterMap_cons]; cases line.event? <;> rfl] at both
    · rw [total, count, List.length_cons]
      omega
    · rw [count] at leftOut'
      exact leftOut.append leftOut'

end Reader.At

/-- **Lines with an end marker that counts them are read to the end.** The events are those that are
    kept, and just the other records are left out. -/
theorem Line.read_lines (lines : List (Line load)) (countable : lines.length < UInt64.size) :
    ∃ reading, Log.readTolerant load .skipBad (.ofBytes
        (Wire.logStart ++ (written 0 lines ++ Wire.endMarker lines.length))) = .ok reading ∧
      reading.log.events.toList = lines.filterMap event? ∧ reading.fatal = none ∧
      LeftOut 0 lines reading.skipped ∧ reading.reader.records = lines.length ∧
      reading.reader.rest = [10] ∧ reading.reader.Ended
        (Wire.logStart ++ (written 0 lines ++ Wire.endMarker lines.length)) := by
  obtain ⟨r, begun, here, fresh⟩ := begun_at (written 0 lines ++ Wire.endMarker lines.length)
  rw [← fresh] at here
  obtain ⟨skipped, s, passes, at_, count, leftOut⟩ := here.along lines (endsLine_endMarker _)
  have counted : lines.length = s.records := by rw [count, fresh, Nat.zero_add]
  have ended := startRecord_endMarker at_.ending at_.inRecords countable at_.endMarker
  rw [if_pos counted] at ended
  have last : Event.read load s = .ok none { s with rest := [10], inRecords := false } := by
    rw [Event.read_eq, bind_run, ended]
    rfl
  have inside := ((passes.among_or_bad here.inRecords).1).trans (beginLog_begun begun).2
  refine ⟨⟨⟨(lines.filterMap event?).toArray⟩, skipped, none,
    { s with rest := [10], inRecords := false }⟩, ?_, rfl, rfl, fresh ▸ leftOut, counted.symm, rfl,
    (ended_of_startRecord at_.inRecords ended).within inside⟩
  unfold Log.readTolerant
  rw [begun]
  exact congrArg Except.ok (passes.toEnd (.ended last))

end Retrace
