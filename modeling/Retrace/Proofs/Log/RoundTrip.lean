import Retrace.Log.Reading
import Retrace.Proofs.Double.ReadBack
import Retrace.Proofs.Log.Delivery

/-!
# A log that was written is read back

`Log.read_written` is the round trip of a whole log: what is read of the delivered bytes, with the
store that writing has left, is the log itself, its NaNs made one and each script with the last text
of its source. Where this text has another length than the script had, reading fails at the first
such script instead. So the round trip changes nothing in a log in which a source has one text only.

Reading goes over the records by induction (`Reading.within_records`); the end marker is the base.
-/

namespace Retrace

/-! ## What can be read back -/

namespace Action

/-- **What is short can be written and read back.** -/
theorem writable_fields {a : Action} (short : a.Short) : a.kind.layout.Writable a.fields := by
  have value (v : Recorded) : Recorded.Faithful v := fun x _ => Scalar.f64.faithful x
  cases a with
  | constructCall f args => exact ⟨trivial, ⟨short, fun v _ => value v⟩, trivial⟩
  | callBegin call =>
    exact ⟨trivial, trivial, trivial, Scalar.f64.faithful _, trivial, ⟨short, fun v _ => value v⟩,
      trivial⟩
  | callEnd call => exact ⟨trivial, trivial, trivial, trivial, Scalar.f64.faithful _, trivial⟩
  | allocateArrayBuffer bytes => exact ⟨short, trivial⟩
  | allocateFunction name => exact ⟨fun v _ => value v, trivial⟩
  | _ =>
    simp [Kind.layout, Kind.form, kind, fields, Layout.Writable, Field.Writable, Scalar.Faithful,
      value]

end Action

/-! ## The frame of a log -/

namespace Reader

variable {r : Reader} {load : Loader}

theorem beginLog_run (rest : Bytes) : ∃ r : Reader,
    beginLog (ofBytes (Wire.logStart ++ rest)) = .ok formatVersion { r with rest } ∧
      r.Among ∧ r.records = 0 := by
  let start : Reader := { ofBytes [] with total := (Wire.logStart ++ rest).length }
  have version : Takes Stops (keyed .version .u32) (Wire.keyed .version .u32 formatVersion)
      formatVersion := keyed_takes .version .u32 trivial
  have opening : Takes Anything (expect '{') [123] () := expect_takes (by decide) (by decide)
  have opened := opening start (Wire.keyed .version .u32 formatVersion ++
    44 :: (Wire.sequenceStart .actions ++ rest)) rfl trivial
  have read := version start (44 :: (Wire.sequenceStart .actions ++ rest)) rfl (.cons (by decide))
  have comma := comma_takes start (Wire.sequenceStart .actions ++ rest) rfl trivial
  have begun := sequenceStart_takes .actions start rest rfl trivial
  have split : ofBytes (Wire.logStart ++ rest) = { start with rest := [123] ++
      (Wire.keyed .version .u32 formatVersion ++
        44 :: (Wire.sequenceStart .actions ++ rest)) } := by
    simp [start, ofBytes, Wire.logStart]
  simp only [List.cons_append, List.nil_append] at comma
  refine ⟨{ start with inRecords := true }, ?_, ⟨rfl, rfl, rfl⟩, rfl⟩
  rw [split]
  simp only [beginLog, bind_run, opened, read, ne_eq, not_true_eq_false, if_false, comma, begun,
    modify_run, pure_run]

/-- Before a closing bracket there is no further record. -/
theorem startRecord_bracket (among : r.Among) (rest : Bytes) :
    startRecord { r with rest := 10 :: 93 :: rest } =
      (finishLog >>= fun _ => pure false) { r with rest } := by
  obtain ⟨left, ending, total, records, inRecords, commaSkipped⟩ := r
  obtain ⟨rfl, rfl, rfl⟩ := among
  rfl

/-- A written end marker is taken, and compared with the number of records. -/
theorem finishLog_declaring (ending : r.ending = .endOfInput) {count : Nat}
    (countable : count < UInt64.size) :
    finishLog { r with rest := 44 :: (Wire.keyed .endOfLog .u64 (UInt64.ofNat count) ++
      [125, 10]) } =
      if count = r.records then .ok () { r with rest := [10], inRecords := false }
      else .error (.recordCountMismatch count r.records)
        { r with rest := [10], inRecords := false } := by
  have marks : Takes Stops (keyed .endOfLog .u64)
      (Wire.keyed .endOfLog .u64 (UInt64.ofNat count)) (UInt64.ofNat count) :=
    keyed_takes .endOfLog .u64 trivial
  have declared : (UInt64.ofNat count).toNat = count := by
    rw [UInt64.toNat_ofNat']
    exact Nat.mod_eq_of_lt countable
  have comma := comma_takes { r with inRecords := false }
    (Wire.keyed .endOfLog .u64 (UInt64.ofNat count) ++ [125, 10]) ending trivial
  have marked := marks { r with inRecords := false } [125, 10] ending (.cons (by decide))
  have closed := brace_takes { r with inRecords := false } [10] ending trivial
  simp only [List.cons_append, List.nil_append] at comma closed
  simp only [finishLog, bind_run, modify_run, comma, marked, closed, get_run, declared, ne_eq]
  by_cases same : count = r.records
  · simp [same]
  · simp [same]

theorem finishLog_run (ending : r.ending = .endOfInput) (countable : r.records < UInt64.size) :
    finishLog { r with rest := 44 :: (Wire.keyed .endOfLog .u64 (UInt64.ofNat r.records) ++
      [125, 10]) } = .ok () { r with rest := [10], inRecords := false } :=
  (finishLog_declaring ending countable).trans (if_pos rfl)

/-- **The end marker ends the records**, if it counts them. -/
theorem read_end (load : Loader) (among : r.Among) (countable : r.records < UInt64.size) :
    Event.read load { r with rest := Wire.endMarker r.records } =
      .ok none { r with rest := [10], inRecords := false } := by
  have finished := finishLog_run among.ending countable
  have split : Wire.endMarker r.records = 10 :: 93 :: 44 ::
      (Wire.keyed .endOfLog .u64 (UInt64.ofNat r.records) ++ [125, 10]) := by
    simp [Wire.endMarker]
  have start := startRecord_bracket among
    (44 :: (Wire.keyed .endOfLog .u64 (UInt64.ofNat r.records) ++ [125, 10]))
  rw [bind_run, finished] at start
  rw [split]
  simp only [Event.read, bind_run, start]
  rfl

end Reader

/-! ## The records of a log -/

namespace Reading

open Reader (Among)

variable {load : Loader} {r : Reader} {events : List Event}

/-- The first record of several is read, and reading goes on behind it. -/
theorem within_record {e : Event} {action : Action} (among : r.Among)
    (writable : e.kind.layout.Writable e.action.fields)
    (given : e.action.reread load = .ok action) (log : Log) (tail : Bytes) (bound : Nat) :
    within load .strict (bound + 1)
        ⟨log, [], none, { r with rest := e.record (r.records = 0) ++ tail }⟩ =
      within load .strict bound
        ⟨log.push { e with action }, [], none, { r with rest := tail, records := r.records + 1 }⟩ := by
  have read := Event.read_record writable among given tail
  rw [within]
  simp only [read]

/-- **Records that can be read are read**, whatever comes behind them. -/
theorem within_records {reread : Event → Action} (among : r.Among)
    (writable : ∀ e ∈ events, e.kind.layout.Writable e.action.fields)
    (given : ∀ e ∈ events, e.action.reread load = .ok (reread e)) (log : Log) (tail : Bytes)
    (bound : Nat) :
    within load .strict (events.length + bound)
        ⟨log, [], none, { r with rest := Wire.records r.records events ++ tail }⟩ =
      within load .strict bound
        ⟨⟨log.events ++ events.map fun e => { e with action := reread e }⟩, [], none,
          { r with rest := tail, records := r.records + events.length }⟩ := by
  -- the reader counts the records, so it knows which one has no comma before it
  induction events generalizing log r with
  | nil => simp [Wire.records]
  | cons e events ih =>
    have first := within_record among (writable e List.mem_cons_self) (given e List.mem_cons_self)
      log (Wire.records (r.records + 1) events ++ tail) (events.length + bound)
    have others := ih (r := { r with records := r.records + 1 })
      ⟨among.ending, among.inRecords, among.noneSkipped⟩
      (fun d mem => writable d (List.mem_cons_of_mem _ mem))
      (fun d mem => given d (List.mem_cons_of_mem _ mem)) (log.push { e with action := reread e })
    have steps : (e :: events).length + bound = events.length + bound + 1 := by
      rw [List.length_cons]
      omega
    have count : r.records + (e :: events).length = r.records + 1 + events.length := by
      rw [List.length_cons]
      omega
    rw [steps, count, Wire.records, List.append_assoc, first, others]
    simp [Log.push]

/-- What reading has come to: the log, or why reading stopped. -/
def outcome (r : Reading) : Except LogError Log :=
  r.fatal.elim (.ok r.log) fun failure => .error failure.error

end Reading

/-! ## Whole logs -/

theorem Wire.length_le_records (before : Nat) (events : List Event) :
    events.length ≤ (Wire.records before events).length := by
  induction events generalizing before with
  | nil => exact Nat.zero_le _
  | cons e events ih =>
    have rest := ih (before + 1)
    simp only [Wire.records, Event.record, Wire.recordEnd, List.length_append, List.length_cons]
    omega

namespace Log

variable {load : Loader} {events : List Event} {reread : Event → Action}

/-- Reading starts at the first record, and may go on for more records than there are. -/
theorem read_start (load : Loader) (events : List Event) (tail : Bytes) :
    ∃ (r : Reader) (bound : Nat), r.Among ∧ r.records = 0 ∧
      read load (.ofBytes (Wire.logStart ++ (Wire.records 0 events ++ tail))) =
        (Reading.within load .strict (events.length + (bound + 1)) ⟨.empty, [], none,
          { r with rest := Wire.records r.records events ++ tail }⟩).outcome := by
  obtain ⟨r, begun, among, none⟩ := Reader.beginLog_run (Wire.records 0 events ++ tail)
  have enough := Wire.length_le_records 0 events
  obtain ⟨bound, steps⟩ : ∃ bound, (Wire.records 0 events ++ tail).length + 1 =
      events.length + (bound + 1) := by
    refine ⟨(Wire.records 0 events ++ tail).length - events.length, ?_⟩
    rw [List.length_append]
    omega
  have first : Wire.records r.records events = Wire.records 0 events := by rw [none]
  refine ⟨r, bound, among, none, ?_⟩
  rw [first]
  unfold read readTolerant
  simp only [begun, Reading.start, Reading.toEnd, steps, Reading.outcome]
  split
  · rename_i failure fatal
    rw [fatal]
    rfl
  · rename_i fatal
    rw [fatal]
    rfl

/-- **Where every action can be read, so can the log.** -/
theorem read_records (writable : ∀ e ∈ events, e.kind.layout.Writable e.action.fields)
    (given : ∀ e ∈ events, e.action.reread load = .ok (reread e))
    (countable : events.length < UInt64.size) :
    read load (.ofBytes
        (Wire.logStart ++ (Wire.records 0 events ++ Wire.endMarker events.length))) =
      .ok ⟨(events.map fun e => { e with action := reread e }).toArray⟩ := by
  obtain ⟨r, bound, among, none, start⟩ := read_start load events (Wire.endMarker events.length)
  have count : r.records + events.length = events.length := by omega
  have records := Reading.within_records among writable given .empty
    (Wire.endMarker events.length) (bound + 1)
  have ended := Reader.read_end load (r := { r with records := events.length })
    ⟨among.ending, among.inRecords, among.noneSkipped⟩ countable
  rw [start, records, count, Reading.within]
  simp only [ended]
  simp [Reading.outcome, Log.empty]

/-- **The first action that cannot be read is where reading fails.** -/
theorem read_records_error {before after : List Event} {e : Event} {error : LogError}
    (writable : ∀ d ∈ before ++ [e], d.kind.layout.Writable d.action.fields)
    (given : ∀ d ∈ before, d.action.reread load = .ok (reread d))
    (refused : e.action.reread load = .error error) (tail : Bytes) :
    read load (.ofBytes
        (Wire.logStart ++ (Wire.records 0 (before ++ e :: after) ++ tail))) = .error error := by
  obtain ⟨r, bound, among, none, start⟩ := read_start load (before ++ e :: after) tail
  have steps : (before ++ e :: after).length + (bound + 1) =
      before.length + (after.length + bound + 1 + 1) := by
    rw [List.length_append, List.length_cons]
    omega
  have rest : Wire.records r.records (before ++ e :: after) ++ tail =
      Wire.records r.records before ++ (e.record (r.records + before.length = 0) ++
        (Wire.records (r.records + before.length + 1) after ++ tail)) := by
    rw [Wire.records_append, Wire.records]
    simp only [List.append_assoc]
  have records := Reading.within_records among
    (fun d mem => writable d (List.mem_append_left _ mem)) given .empty
    (e.record (r.records + before.length = 0) ++
      (Wire.records (r.records + before.length + 1) after ++ tail))
    (after.length + bound + 1 + 1)
  obtain ⟨r', failed⟩ := Event.read_refused (r := { r with records := r.records + before.length })
    (writable e (by simp)) ⟨among.ending, among.inRecords, among.noneSkipped⟩ refused
    (Wire.records (r.records + before.length + 1) after ++ tail)
  -- past the records that can be read, the next one fails
  rw [start, steps, rest, records, Reading.within]
  simp only [failed]
  rfl

end Log

/-! ## The round trip -/

/-- The action with another text for its script. -/
def Action.withText (text : Script → String) : Action → Action
  | codeParse s => codeParse { s with text := text s }
  | a => a

namespace Log

/-- The length that a log declares for a script is not that of the text there is for it. -/
def Misfit (log : Log) (s : Script) : Prop :=
  (log.lastText s).utf8ByteSize ≠ s.text.utf8ByteSize

instance (log : Log) (s : Script) : Decidable (log.Misfit s) := inferInstanceAs (Decidable (_ ≠ _))

/-- Replaces every double in a log. -/
def mapDouble (log : Log) (f : Double → Double) : Log := ⟨log.events.map (Event.mapDouble f)⟩

/-- The log with the last text of every source. -/
def withLastTexts (log : Log) : Log :=
  ⟨log.events.map fun e => { e with action := e.action.withText log.lastText }⟩

/-- The action that is read of an event whose record can be read. -/
def readAction (log : Log) (e : Event) : Action :=
  (e.action.withText log.lastText).mapDouble Double.readBack

/-- Why a script is refused whose text has been replaced by a longer or a shorter one. -/
def misfitError (log : Log) (s : Script) : LogError :=
  .source (.lengthMismatch s.uri (UInt32.ofNat s.text.utf8ByteSize) (log.lastText s).utf8ByteSize)

/-- What is read where a log was written: the log with the last text of every source, or the error
of the first script that this text does not fit. -/
def readBack (log : Log) : Except LogError Log :=
  (log.scripts.find? fun s => log.Misfit s).elim (.ok (log.withLastTexts.mapDouble Double.readBack))
    fun s => .error (log.misfitError s)

variable {log : Log} {e : Event} {s : Script}

theorem mem_scripts (mem : e ∈ log.events.toList) (isScript : e.script? = some s) :
    s ∈ log.scripts := List.mem_filterMap.2 ⟨e, mem, isScript⟩

theorem action_of_script? (isScript : e.script? = some s) : e.action = .codeParse s := by
  unfold Event.script? at isScript
  cases action : e.action <;> rw [action] at isScript <;> cases isScript
  rfl

/-- A script is read with the last text of its source, or not at all. -/
theorem loadScript_lastText (short : s.text.utf8ByteSize < UInt32.size) (mem : s ∈ log.scripts)
    (store : MemoryStore) :
    Action.loadScript (log.loader store) s (UInt32.ofNat s.text.utf8ByteSize) =
      if log.Misfit s then .error (log.misfitError s)
      else .ok (.codeParse { s with text := log.lastText s }) := by
  have declared : (UInt32.ofNat s.text.utf8ByteSize).toNat = s.text.utf8ByteSize := by
    rw [UInt32.toNat_ofNat']
    exact Nat.mod_eq_of_lt short
  unfold Action.loadScript misfitError
  rw [loader_lastText mem store]
  simp only [declared, Misfit]
  by_cases same : (log.lastText s).utf8ByteSize = s.text.utf8ByteSize
  · simp only [same, if_true, ne_eq, not_true_eq_false, if_false]
  · simp only [same, if_false, ne_eq, not_false_eq_true, if_true]

theorem reread_run (short : e.action.Short) (mem : e ∈ log.events.toList)
    (fits : ∀ s, e.script? = some s → ¬ log.Misfit s) (store : MemoryStore) :
    e.action.reread (log.loader store) = .ok (log.readAction e) := by
  obtain ⟨time, context, action⟩ := e
  cases action with
  | codeParse s =>
    refine (loadScript_lastText short (mem_scripts mem rfl) store).trans ?_
    rw [if_neg (fits s rfl)]
    rfl
  | _ => rfl

theorem reread_misfit (short : e.action.Short) (mem : e ∈ log.events.toList)
    (isScript : e.script? = some s) (misfit : log.Misfit s) (store : MemoryStore) :
    e.action.reread (log.loader store) = .error (log.misfitError s) := by
  rw [action_of_script? isScript] at short ⊢
  exact (loadScript_lastText short (mem_scripts mem isScript) store).trans (if_pos misfit)

/-- **What is read of the written records**, with the store that has the scripts' texts. -/
theorem read_records_readBack (short : log.Short)
    (countable : log.size < UInt64.size) (store : MemoryStore) :
    read (log.loader store) (.ofBytes
        (Wire.logStart ++ (Wire.records 0 log.events.toList ++ Wire.endMarker log.size))) =
      log.readBack := by
  have writable : ∀ e ∈ log.events.toList, e.kind.layout.Writable e.action.fields :=
    fun e mem => Action.writable_fields (short e mem)
  unfold readBack
  cases found : log.scripts.find? fun s => log.Misfit s with
  | none =>
    have fits : ∀ s ∈ log.scripts, ¬ log.Misfit s := by
      intro s mem misfit
      exact List.find?_eq_none.1 found s mem (decide_eq_true misfit)
    have given : ∀ e ∈ log.events.toList,
        e.action.reread (log.loader store) = .ok (log.readAction e) := by
      intro e mem
      apply reread_run (short e mem) mem _ store
      exact fun s isScript => fits s (mem_scripts mem isScript)
    refine (read_records writable given countable).trans ?_
    apply congrArg fun events => Except.ok (Log.mk events)
    rw [withLastTexts, Array.map_map, ← Array.toList_map]
    exact Array.toArray_toList
  | some s =>
    -- the event of the first misfit, and what is before it
    have first := found
    unfold scripts at first
    rw [List.find?_filterMap, Option.bind_eq_some_iff] at first
    obtain ⟨e, foundEvent, isScript⟩ := first
    obtain ⟨-, before, after, split, fits⟩ := List.find?_eq_some_iff_append.1 foundEvent
    have inside {d : Event} (mem : d ∈ before ++ [e]) : d ∈ log.events.toList := by
      rw [split, List.append_cons]
      exact List.mem_append_left after mem
    have misfit : log.Misfit s := by simpa using List.find?_some found
    have given : ∀ d ∈ before, d.action.reread (log.loader store) = .ok (log.readAction d) := by
      intro d mem
      have there := inside (List.mem_append_left [e] mem)
      apply reread_run (short d there) there _ store
      intro t isScript misfit
      have none := fits d mem
      rw [isScript] at none
      simp [misfit] at none
    have there := inside (List.mem_append_right before List.mem_cons_self)
    have refused := reread_misfit (short e there) there isScript misfit store
    rw [split]
    exact read_records_error (fun d mem => writable d (inside mem)) given refused _

theorem lastText_of_alike {s : Script}
    (alike : ∀ t ∈ log.scripts, s.SameSource t → s.text = t.text) : log.lastText s = s.text := by
  unfold lastText
  cases found : log.scripts.reverse.find? fun t => t.SameSource s with
  | none => rfl
  | some t =>
    obtain ⟨directory, document, uri⟩ : t.SameSource s := by simpa using List.find?_some found
    have mem := List.mem_reverse.1 (List.mem_of_find?_eq_some found)
    exact (alike t mem ⟨directory.symm, document.symm, uri.symm⟩).symm

/-- **Where every source has one text, nothing is lost.** -/
theorem readBack_of_alike
    (alike : ∀ s ∈ log.scripts, ∀ t ∈ log.scripts, s.SameSource t → s.text = t.text) :
    log.readBack = .ok (log.mapDouble Double.readBack) := by
  have last {s : Script} (mem : s ∈ log.scripts) : log.lastText s = s.text :=
    lastText_of_alike (alike s mem)
  have none : log.scripts.find? (fun s => log.Misfit s) = none := by
    rw [List.find?_eq_none]
    intro s mem misfit
    exact of_decide_eq_true misfit (by rw [last mem])
  have same : log.withLastTexts = log := by
    have each : ∀ e ∈ log.events,
        { e with action := e.action.withText log.lastText } = id e := by
      intro e mem
      obtain ⟨time, context, action⟩ := e
      cases action with
      | codeParse s =>
        have text := last (mem_scripts (Array.mem_toList_iff.2 mem) rfl)
        simp only [Action.withText, text]
        rfl
      | _ => rfl
    unfold withLastTexts
    rw [Array.map_congr_left each, Array.map_id]
  unfold readBack
  rw [none, same]
  rfl

/-- **A log that was written is read back**, if there are no more events than 64 bits count. -/
theorem read_written (short : log.Short)
    (countable : log.size < UInt64.size) (store : MemoryStore) :
    ∃ d, log.write (Delivery.start store none) = .ok () d ∧
      read (SourceStore.load d.store) (.ofBytes d.sink.delivered) = log.readBack ∧
      ((∀ s ∈ log.scripts, ∀ t ∈ log.scripts, s.SameSource t → s.text = t.text) →
        log.readBack = .ok (log.mapDouble Double.readBack)) := by
  obtain ⟨d, written, delivered, stored⟩ := write_run short store
  refine ⟨d, written, ?_, readBack_of_alike⟩
  rw [delivered, stored]
  exact read_records_readBack short countable store

/-- A script that is loaded twice, with two texts, and a call. -/
def reloaded (earlier later : String) : Log where
  events := #[
    ⟨⟨1⟩, ⟨0⟩, .codeParse ⟨⟨7⟩, 0, ⟨1⟩, "lib", "a.js", "app:a", earlier⟩⟩,
    ⟨⟨2⟩, ⟨0⟩, .codeParse ⟨⟨7⟩, 0, ⟨2⟩, "lib", "a.js", "app:a", later⟩⟩,
    ⟨⟨3⟩, ⟨0⟩, .callBegin ⟨0, .none, ⟨1⟩, ⟨0x3fd0000000000000⟩, some "f\"", [.str "\n"]⟩⟩]

theorem reloaded_read :
    (reloaded "f(1)" "f(2)").Short ∧
    (reloaded "f(1)" "f(2)").size < UInt64.size ∧
    ∃ d, (reloaded "f(1)" "f(2)").write (Delivery.start MemoryStore.empty none) = .ok () d ∧
      read (SourceStore.load d.store) (.ofBytes d.sink.delivered) =
        .ok (reloaded "f(2)" "f(2)") := by
  have short : (reloaded "f(1)" "f(2)").Short := by
    unfold Short
    decide +kernel
  have countable : (reloaded "f(1)" "f(2)").size < UInt64.size := by decide
  have fit : (reloaded "f(1)" "f(2)").scripts.find?
      (fun s => (reloaded "f(1)" "f(2)").Misfit s) = none := by
    decide +kernel
  obtain ⟨d, written, back, -⟩ := read_written short countable .empty
  refine ⟨short, countable, d, written, back.trans ?_⟩
  unfold readBack
  rw [fit]
  apply congrArg Except.ok
  decide +kernel

/-! Where the two texts differ in length, the earlier script is refused. -/

example : (reloaded "f()" "f(2)").readBack =
    .error (.source (.lengthMismatch "app:a" 3 4)) := rfl

end Log
end Retrace
