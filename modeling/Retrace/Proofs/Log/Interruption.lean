import Retrace.Proofs.Log.Exactness
import Retrace.Proofs.Log.RoundTrip
import Retrace.Proofs.Log.Stopping

/-!
# A log whose writing broke off is read as far as it was delivered

Bytes may break off anywhere: within a number, which leaves a shorter number, within an escape, or
in the count of the end marker. `Log.write_interrupted` says that nothing is made up by that. What
is read back is the events whose records were delivered whole, and then reading fails; unless the
end marker was delivered, too.

That a torn record is read as nothing at all does not need its bytes to be looked at. What is read
is read just so in front of anything else (`Event.read_before`); so if a torn record were read, the
whole one would be read and leave bytes over, and it leaves none (`Event.read_cut`).
-/

namespace Retrace

/-! ## Reading what is left -/

namespace Event

variable {load : Loader} {r r' : Reader} {found : Option Event}

/-- What is read is read just so in front of anything else. -/
theorem read_before (among : r.Among) (ran : read load r = .ok found r') :
    ∃ w, r.rest = w ++ r'.rest ∧
      ∀ rest, read load { r with rest := w ++ rest } = .ok found { r' with rest } := by
  have here (rest : Bytes) : Reader.Among { r with rest } :=
    ⟨among.ending, among.inRecords, among.noneSkipped⟩
  cases found with
  | none =>
    obtain ⟨w, mem, rest, isWord, rfl⟩ := (read_eq_none among).1 ran
    exact ⟨w, isWord, fun rest => (read_eq_none (here _)).2 ⟨w, mem, rest, rfl, rfl⟩⟩
  | some e =>
    obtain ⟨stored, w, mem, rest, isWord, rfl⟩ := (read_eq_some among).1 ran
    exact ⟨w, isWord, fun rest => (read_eq_some (here _)).2 ⟨stored, w, mem, rest, rfl, rfl⟩⟩

/-- **Less than the whole of what is read is not read.** -/
theorem read_cut {part full : Bytes} (among : r.Among) (cut : part <+: full)
    (whole : ∀ found r', read load { r with rest := full } = .ok found r' →
      part.length + r'.rest.length < full.length) :
    ∃ error r', read load { r with rest := part } = .error error r' := by
  cases ran : read load { r with rest := part } with
  | error error r' => exact ⟨error, r', rfl⟩
  | ok found r' =>
    exfalso
    obtain ⟨w, split, before⟩ := read_before (r := { r with rest := part })
      ⟨among.ending, among.inRecords, among.noneSkipped⟩ ran
    obtain ⟨more, rfl⟩ := cut
    have split : part = w ++ r'.rest := split
    have all := before (r'.rest ++ more)
    rw [← List.append_assoc, ← split] at all
    have shorter := whole found _ all
    simp only [List.length_append] at shorter
    omega

/-- A record that is torn is not read. -/
theorem read_torn (load : Loader) {e : Event} (writable : e.kind.layout.Writable e.action.fields)
    (among : r.Among) {part : Bytes} (cut : part <+: e.record (r.records = 0))
    (torn : part.length < (e.record (r.records = 0)).length) :
    ∃ error r', read load { r with rest := part } = .error error r' := by
  apply read_cut among cut
  intro found r' ran
  cases given : e.action.reread load with
  | error error =>
    obtain ⟨s, refused⟩ := read_refused writable among given []
    rw [List.append_nil, ran] at refused
    cases refused
  | ok action =>
    have read := read_record writable among given []
    rw [List.append_nil, ran] at read
    cases read
    exact torn

/-- The end marker ends the records as soon as its closing brace is there; the newline behind it
need not be. -/
theorem read_endMarker (load : Loader) (among : r.Among) (countable : r.records < UInt64.size)
    {part : Bytes} (cut : part <+: Wire.endMarker r.records)
    (closed : (Wire.endMarker r.records).length ≤ part.length + 1) :
    ∃ r', read load { r with rest := part } = .ok none r' := by
  obtain ⟨w, split, before⟩ := read_before (r := { r with rest := Wire.endMarker r.records })
    ⟨among.ending, among.inRecords, among.noneSkipped⟩ (Reader.read_end load among countable)
  have split : Wire.endMarker r.records = w ++ [10] := split
  have shorter : w.length ≤ part.length := by
    rw [split, List.length_append] at closed
    exact Nat.le_of_succ_le_succ closed
  obtain ⟨rest, rfl⟩ := List.prefix_of_prefix_length_le ⟨[10], split.symm⟩ cut shorter
  exact ⟨_, before rest⟩

theorem read_endMarker_torn (load : Loader) (among : r.Among) (countable : r.records < UInt64.size)
    {part : Bytes} (cut : part <+: Wire.endMarker r.records)
    (torn : part.length + 1 < (Wire.endMarker r.records).length) :
    ∃ error r', read load { r with rest := part } = .error error r' := by
  apply read_cut among cut
  intro found r' ran
  rw [Reader.read_end load among countable] at ran
  cases ran
  exact torn

end Event

/-- How many of the records of events, behind so many already, are whole in so many bytes. -/
def Wire.wholeRecords (before : Nat) : List Event → Nat → Nat
  | [], _ => 0
  | e :: more, size =>
    if (e.record (before = 0)).length ≤ size then
      wholeRecords (before + 1) more (size - (e.record (before = 0)).length) + 1
    else 0

theorem Wire.lt_wholeRecords_iff {events : List Event} {before i size : Nat}
    (inside : i < events.length) : i < wholeRecords before events size ↔
      (records before (events.take (i + 1))).length ≤ size := by
  induction events generalizing before i size with
  | nil => exact absurd inside (Nat.not_lt_zero i)
  | cons e events ih =>
    simp only [wholeRecords, List.take_succ_cons, records, List.length_append]
    split
    case isTrue whole =>
      cases i with
      | zero => simpa [records] using whole
      | succ i =>
        have later : i < wholeRecords (before + 1) events (size - (e.record (before = 0)).length) ↔
            (records (before + 1) (events.take (i + 1))).length ≤
              size - (e.record (before = 0)).length := ih (Nat.lt_of_succ_lt_succ inside)
        rw [Nat.succ_lt_succ_iff, later]
        omega
    case isFalse torn =>
      refine iff_of_false (Nat.not_lt_zero i) ?_
      omega

theorem Wire.wholeRecords_le (events : List Event) (before size : Nat) :
    wholeRecords before events size ≤ events.length := by
  induction events generalizing before size with
  | nil => exact Nat.le_refl 0
  | cons e events ih =>
    simp only [wholeRecords, List.length_cons]
    split
    · exact Nat.succ_le_succ (ih _ _)
    · exact Nat.zero_le _

namespace Reading

variable {load : Loader} {r : Reader} {events : List Event}

/-- **Of records that break off, the whole ones are read**, and then reading fails, unless the end
marker behind them is whole, too. -/
theorem within_cut (among : r.Among) {part : Bytes}
    (cut : part <+: Wire.records r.records events ++ Wire.endMarker (r.records + events.length))
    (writable : ∀ e ∈ events, e.kind.layout.Writable e.action.fields)
    (countable : r.records + events.length < UInt64.size)
    (given : ∀ e ∈ events.take (Wire.wholeRecords r.records events part.length),
      e.action.reread load = .ok (e.action.mapDouble Double.readBack))
    (log : Log) {bound : Nat} (enough : part.length < bound) :
    ∃ fatal r', within load .strict bound ⟨log, [], none, { r with rest := part }⟩ =
      ⟨⟨log.events ++ (events.take (Wire.wholeRecords r.records events part.length)).map
        (Event.mapDouble Double.readBack)⟩, [], fatal, r'⟩ ∧
      (fatal = none ↔ (Wire.records r.records events).length +
        (Wire.endMarker (r.records + events.length)).length ≤ part.length + 1) := by
  obtain ⟨bound, rfl⟩ := Nat.exists_eq_succ_of_ne_zero (Nat.ne_zero_of_lt enough)
  -- on the records: either the first is there whole, or what is left ends within it
  induction events generalizing r part log bound with
  | nil =>
    simp only [Wire.records, List.nil_append, List.length_nil, Nat.add_zero, Nat.zero_add] at *
    rw [within]
    by_cases closed : (Wire.endMarker r.records).length ≤ part.length + 1
    · obtain ⟨r', ended⟩ := Event.read_endMarker load among countable cut closed
      simp only [ended]
      exact ⟨none, r', rfl, iff_of_true rfl closed⟩
    · obtain ⟨error, r', failed⟩ :=
        Event.read_endMarker_torn load among countable cut (Nat.lt_of_not_le closed)
      simp only [failed]
      exact ⟨_, r', rfl, iff_of_false (by simp) closed⟩
  | cons e events ih =>
    have count : r.records + (e :: events).length = r.records + 1 + events.length := by
      rw [List.length_cons]
      omega
    rw [count] at cut countable ⊢
    rw [Wire.records, List.append_assoc] at cut
    have first : e.kind.layout.Writable e.action.fields := writable e List.mem_cons_self
    simp only [Wire.wholeRecords, Wire.records, List.length_append] at given ⊢
    by_cases whole : (e.record (r.records = 0)).length ≤ part.length
    · -- the first record is read, and reading goes on behind it
      obtain ⟨tail, rfl⟩ := List.prefix_of_prefix_length_le (List.prefix_append _ _) cut whole
      have size : (e.record (r.records = 0) ++ tail).length - (e.record (r.records = 0)).length =
          tail.length := by
        rw [List.length_append]
        omega
      rw [if_pos whole, size, List.take_succ_cons] at given
      rw [if_pos whole, size, List.take_succ_cons]
      simp only [List.length_append] at enough
      have brace : 0 < (e.record (r.records = 0)).length := by
        simp only [Event.record, Wire.recordEnd, List.length_append, List.length_cons]
        omega
      obtain ⟨bound, rfl⟩ := Nat.exists_eq_succ_of_ne_zero (show bound ≠ 0 by omega)
      have step := within_record among first (given e List.mem_cons_self) log tail (bound + 1)
      obtain ⟨fatal, r', read, ended⟩ := ih (r := { r with records := r.records + 1 })
        ⟨among.ending, among.inRecords, among.noneSkipped⟩
        ((List.prefix_append_right_inj _).1 cut)
        (fun d mem => writable d (List.mem_cons_of_mem _ mem)) countable
        (fun d mem => given d (List.mem_cons_of_mem _ mem))
        (log.push { e with action := e.action.mapDouble Double.readBack }) bound (by omega)
      refine ⟨fatal, r', ?_, ?_⟩
      · rw [step, read]
        simp [Log.push, Event.mapDouble]
      · rw [ended, List.length_append]
        dsimp only
        omega
    -- the record breaks off, so reading it fails, and the end marker is not there either
    · have torn := Nat.lt_of_not_le whole
      have part_ := List.prefix_of_prefix_length_le cut (List.prefix_append _ _) (Nat.le_of_lt torn)
      obtain ⟨error, r', failed⟩ := Event.read_torn load first among part_ torn
      rw [if_neg whole, within]
      simp only [failed]
      refine ⟨some _, r', by rw [List.take_zero]; rfl, iff_of_false (by simp) ?_⟩
      have more : 1 < (Wire.endMarker (r.records + 1 + events.length)).length := by
        simp [Wire.endMarker]
      omega

end Reading

/-- What a log opens with is not read if it is torn. -/
theorem Reader.beginLog_torn {part : Bytes} (cut : part <+: Wire.logStart)
    (torn : part.length < Wire.logStart.length) :
    ∃ error r', beginLog (ofBytes part) = .error error r' := by
  cases ran : beginLog (ofBytes part) with
  | error error r' => exact ⟨error, r', rfl⟩
  | ok n r' =>
    exfalso
    obtain ⟨rfl, w, mem, rest, split, -⟩ := (beginLog_iff rfl).1 ran
    obtain ⟨more, whole⟩ := cut
    have split : part = w ++ rest := split
    have again : Wire.logStart ++ [] = w ++ (rest ++ more) := by
      rw [List.append_nil, ← whole, split, List.append_assoc]
    obtain ⟨s, taken, left⟩ : ∃ s, beginLog (ofBytes (Wire.logStart ++ [])) = .ok formatVersion s ∧
        s.rest = rest ++ more :=
      ⟨_, (beginLog_iff (r := ofBytes (Wire.logStart ++ [])) rfl).2
        ⟨rfl, w, mem, rest ++ more, again, rfl⟩, rfl⟩
    obtain ⟨r, begun, -⟩ := beginLog_run []
    rw [begun] at taken
    cases taken
    rw [← whole, (List.append_eq_nil_iff.1 left.symm).2, List.append_nil] at torn
    exact Nat.lt_irrefl _ torn

namespace Log

variable {log : Log}

/-- What is read of a log, record by record: the events, and why there are no more of them, unless
it is because the log is over. -/
def salvage (load : Loader) (bytes : Bytes) : List Event × Option LogError :=
  match readTolerant load .strict (.ofBytes bytes) with
  | .error failure => ([], some failure.error)
  | .ok reading => (reading.log.events.toList, reading.fatal.map ReadFailure.error)

/-- The bytes of a whole log. -/
def written (log : Log) : Bytes :=
  Wire.logStart ++ (Wire.records 0 log.events.toList ++ Wire.endMarker log.size)

/-- The end marker comes behind every record. -/
theorem through_prefix (log : Log) (i : Nat) : ∃ more, 1 < more.length ∧
    log.written = log.through i ++ more := by
  have split : Wire.records 0 log.events.toList = Wire.records 0 (log.events.toList.take (i + 1)) ++
      Wire.records (0 + (log.events.toList.take (i + 1)).length)
        (log.events.toList.drop (i + 1)) := by
    rw [← Wire.records_append, List.take_append_drop]
  refine ⟨Wire.records (0 + (log.events.toList.take (i + 1)).length)
    (log.events.toList.drop (i + 1)) ++ Wire.endMarker log.size, ?_, ?_⟩
  · simp [Wire.endMarker]
    omega
  · unfold through written
    rw [split]
    simp only [List.append_assoc]

/-- **Of a log that breaks off, the events with whole records are read**, and then reading fails,
unless the closing brace of the end marker is there, too. -/
theorem salvage_cut {load : Loader} {part : Bytes} (cut : part <+: log.written)
    (writable : ∀ e ∈ log.events.toList, e.kind.layout.Writable e.action.fields)
    (countable : log.size < UInt64.size)
    (given : ∀ i e, log.events.toList[i]? = some e → log.through i <+: part →
      e.action.reread load = .ok (e.action.mapDouble Double.readBack)) :
    ∃ k error, salvage load part =
        ((log.events.toList.take k).map (Event.mapDouble Double.readBack), error) ∧
      k ≤ log.size ∧ (∀ i < log.size, i < k ↔ log.through i <+: part) ∧
      (error = none ↔ log.written.length ≤ part.length + 1) := by
  have within_iff (i : Nat) : log.through i <+: part ↔ (log.through i).length ≤ part.length :=
    have ⟨more, _, split⟩ := log.through_prefix i
    ⟨List.IsPrefix.length_le, List.prefix_of_prefix_length_le ⟨more, split.symm⟩ cut⟩
  -- what is delivered may break off even before the first record
  by_cases header : Wire.logStart.length ≤ part.length
  · obtain ⟨tail, rfl⟩ := List.prefix_of_prefix_length_le (List.prefix_append _ _) cut header
    have cut := (List.prefix_append_right_inj _).1 cut
    let k := Wire.wholeRecords 0 log.events.toList tail.length
    have counts (i : Nat) (inside : i < log.size) :
        i < k ↔ log.through i <+: Wire.logStart ++ tail := by
      rw [within_iff, through, List.length_append, List.length_append,
        Nat.add_le_add_iff_left, ← Wire.lt_wholeRecords_iff (by simpa [size] using inside)]
    obtain ⟨r, begun, among, none⟩ := Reader.beginLog_run tail
    -- only a record that is there whole has to find the text of its script
    have read : ∀ e ∈ log.events.toList.take k,
        e.action.reread load = .ok (e.action.mapDouble Double.readBack) := by
      intro e mem
      obtain ⟨i, bound, rfl⟩ := List.mem_take_iff_getElem.1 mem
      obtain ⟨less, inside⟩ := Nat.lt_min.1 bound
      exact given i _ (List.getElem?_eq_getElem inside)
        ((counts i (by simpa [size] using inside)).1 less)
    have count : r.records + log.events.toList.length = log.size := by
      rw [none, Nat.zero_add]
      rfl
    have first : Wire.records r.records log.events.toList = Wire.records 0 log.events.toList := by
      rw [none]
    have same : Wire.wholeRecords r.records log.events.toList tail.length = k := by rw [none]
    obtain ⟨fatal, r', ran, ended⟩ := Reading.within_cut among (by rwa [first, count]) writable
      (by rwa [count]) (by rwa [same]) .empty (Nat.lt_succ_self tail.length)
    rw [same] at ran
    rw [first, count] at ended
    refine ⟨k, fatal.map ReadFailure.error, ?_, ?_, counts, ?_⟩
    · unfold salvage readTolerant
      simp only [begun, Reading.toEnd, Reading.start, ran]
      simp [Log.empty]
    · exact Wire.wholeRecords_le _ _ _
    · rw [Option.map_eq_none_iff, ended, written]
      simp only [List.length_append]
      omega
  · have torn := Nat.lt_of_not_le header
    obtain ⟨error, r', failed⟩ := Reader.beginLog_torn
      (List.prefix_of_prefix_length_le cut (List.prefix_append _ _) (Nat.le_of_lt torn)) torn
    refine ⟨0, some error, ?_, Nat.zero_le _, fun i _ => ?_, iff_of_false (by simp) ?_⟩
    · unfold salvage readTolerant
      simp only [failed, List.take_zero, List.map_nil]
    · rw [within_iff, through, List.length_append]
      omega
    · have more : 1 < (Wire.endMarker log.size).length := by simp [Wire.endMarker]
      simp only [written, List.length_append]
      omega

/-- Where the closing brace of the end marker is there, so is every record. -/
theorem through_of_closed {part : Bytes} (cut : part <+: log.written)
    (closed : log.written.length ≤ part.length + 1) (i : Nat) : log.through i <+: part := by
  obtain ⟨more, behind, split⟩ := log.through_prefix i
  apply List.prefix_of_prefix_length_le ⟨more, split.symm⟩ cut
  rw [split, List.length_append] at closed
  omega

/-- All but the newline at the end is there if only so many bytes are missing. -/
theorem dropLast_prefix_iff {part : Bytes} (cut : part <+: log.written) :
    log.written.dropLast <+: part ↔ log.written.length ≤ part.length + 1 := by
  have size : log.written.dropLast.length = log.written.length - 1 := List.length_dropLast
  constructor
  · intro reaches
    have shorter := reaches.length_le
    omega
  · intro reaches
    exact List.prefix_of_prefix_length_le (List.dropLast_prefix _) cut (by omega)

/-- Where a record was delivered whole, its event is read with the text of its script. -/
theorem reread_of_through (short : log.Short)
    (alike : ∀ s ∈ log.scripts, ∀ t ∈ log.scripts, s.SameSource t → s.text = t.text)
    {done rest : List Output} {torn : Bytes} (split : log.outputs = done ++ rest)
    (broken : Output.Broken rest torn) {i : Nat} {e : Event}
    (there : log.events.toList[i]? = some e)
    (inside : log.through i <+: done.flatMap Output.bytes ++ torn) (store : MemoryStore) :
    e.action.reread (SourceStore.load (store.putAll (done.flatMap Output.saved))) =
      .ok (e.action.mapDouble Double.readBack) := by
  apply Action.reread_of_loaded (short e (List.mem_of_getElem? there))
  intro s isScript
  have among : done.flatMap Output.saved ⊆ log.scripts.map Script.put := by
    rw [← outputs_saved short, split, List.flatMap_append]
    exact List.subset_append_left _ _
  have kept := stored_of_through short split broken there inside
    (show e.script? = some s by rw [Event.script?, isScript])
  exact load_of_stored alike among kept

/-- **A log whose writing broke off is read as far as it was delivered.** Whatever room there is and
however many texts the store takes: the bytes delivered and the texts stored are initial pieces of
those of the whole log, and what is read of them is just the events whose records are delivered
through their closing braces. Then reading fails, unless all has been delivered but the newline at
the end.

There must be no more events than 64 bits count. -/
theorem write_interrupted (short : log.Short)
    (countable : log.size < UInt64.size)
    (alike : ∀ s ∈ log.scripts, ∀ t ∈ log.scripts, s.SameSource t → s.text = t.text)
    (store : MemoryStore) (left : Nat) (room : Option Nat) :
    ∃ whole d, log.write (Delivery.start store none) = .ok () whole ∧
      whole.sink.delivered = log.written ∧
      (log.write (Delivery.start (RationedStore.mk store left) room) = .ok () d ∨
        ∃ error, log.write (Delivery.start (RationedStore.mk store left) room) = .error error d ∧
          ∀ e, error = .source e → ∃ put, d.stored ++ [put] <+: whole.stored) ∧
      d.sink.delivered <+: whole.sink.delivered ∧ d.stored <+: whole.stored ∧
      ∃ k error, salvage (SourceStore.load d.store) d.sink.delivered =
          ((log.events.toList.take k).map (Event.mapDouble Double.readBack), error) ∧
        k ≤ log.size ∧ (∀ i < log.size, i < k ↔ log.through i <+: d.sink.delivered) ∧
        (error = none ↔ log.written.dropLast <+: d.sink.delivered) ∧
        (error = none → k = log.size) := by
  have whole := Output.forM_run (outputs_accepted short) (d := Delivery.start store none) rfl
  -- what was done before it broke off, and the piece of an output that was still delivered
  obtain ⟨done, rest, torn, d, split, after, broken, outcome⟩ :=
    Output.forM_rationed (outputs_accepted short) (Delivery.start (RationedStore.mk store left) room)
  have delivered : d.sink.delivered = done.flatMap Output.bytes ++ torn := after.delivered
  have stored : d.stored = done.flatMap Output.saved := after.stored
  have written : log.outputs.flatMap Output.bytes = log.written := outputs_bytes short
  have saved : log.outputs.flatMap Output.saved =
      done.flatMap Output.saved ++ rest.flatMap Output.saved := by
    rw [split, List.flatMap_append]
  have cut : d.sink.delivered <+: log.written := by
    rw [delivered, ← written, split]
    exact broken.delivered_prefix done
  have given : ∀ i e, log.events.toList[i]? = some e → log.through i <+: d.sink.delivered →
      e.action.reread (SourceStore.load d.store) = .ok (e.action.mapDouble Double.readBack) := by
    intro i e there inside
    have loaded : SourceStore.load d.store =
        SourceStore.load (store.putAll (done.flatMap Output.saved)) :=
      congrArg SourceStore.load after.store
    rw [loaded]
    exact reread_of_through short alike split broken there (delivered ▸ inside) store
  have writable : ∀ e ∈ log.events.toList, e.kind.layout.Writable e.action.fields :=
    fun e mem => Action.writable_fields (short e mem)
  obtain ⟨k, error, read, bound, counts, ended⟩ := salvage_cut cut writable countable given
  have all : ((Delivery.start store none).sink.add (log.outputs.flatMap Output.bytes)).delivered =
      log.written := by
    rw [Sink.delivered_add, written]
    rfl
  refine ⟨_, d, whole, all, ?_, all ▸ cut, ?_, k, error, read, bound, counts,
    ended.trans (dropLast_prefix_iff cut).symm, ?_⟩
  · rcases outcome with ran | ⟨error, ran, refused⟩
    · exact .inl ran
    · refine .inr ⟨error, ran, fun e isSource => ?_⟩
      obtain ⟨o, more, put, rfl, next⟩ := refused e isSource
      refine ⟨put, ?_⟩
      simp only [stored, saved, List.flatMap_cons, next, Delivery.start, List.nil_append]
      exact ⟨more.flatMap Output.saved, List.append_assoc ..⟩
  · simp only [stored, saved, Delivery.start, List.nil_append]
    exact List.prefix_append _ _
  -- if the end marker is there, so are all records in front of it
  · intro isOver
    apply Nat.le_antisymm bound
    apply Nat.le_of_not_lt
    intro less
    have inside : log.through k <+: d.sink.delivered := through_of_closed cut (ended.1 isOver) k
    exact Nat.lt_irrefl k ((counts k less).2 inside)

/-- A store that takes one text stops the second script behind the header of its record, and it is
the first script that is left. -/
theorem reloaded_interrupted :
    (reloaded "f(1)" "f(1)").Short ∧
    (reloaded "f(1)" "f(1)").size < UInt64.size ∧
    (∀ s ∈ (reloaded "f(1)" "f(1)").scripts, ∀ t ∈ (reloaded "f(1)" "f(1)").scripts,
      s.SameSource t → s.text = t.text) ∧
    ∃ error d, (reloaded "f(1)" "f(1)").write
        (Delivery.start (RationedStore.mk MemoryStore.empty 1) none) = .error error d ∧
      (salvage (SourceStore.load d.store) d.sink.delivered).1 =
        (reloaded "f(1)" "f(1)").events.toList.take 1 := by
  have short : (reloaded "f(1)" "f(1)").Short := by
    unfold Short
    decide +kernel
  have countable : (reloaded "f(1)" "f(1)").size < UInt64.size := by decide
  have alike : ∀ s ∈ (reloaded "f(1)" "f(1)").scripts, ∀ t ∈ (reloaded "f(1)" "f(1)").scripts,
      s.SameSource t → s.text = t.text := by
    decide +kernel
  have stops : (match (reloaded "f(1)" "f(1)").write
      (Delivery.start (RationedStore.mk MemoryStore.empty 1) none) with
    | .ok _ _ => false
    | .error _ d => (reloaded "f(1)" "f(1)").through 0 <+: d.sink.delivered &&
        !((reloaded "f(1)" "f(1)").through 1 <+: d.sink.delivered)) = true := by
    decide +kernel
  obtain ⟨whole, d, -, -, outcome, -, -, k, error, read, bound, counts, -⟩ :=
    write_interrupted short countable alike .empty 1 none
  refine ⟨short, countable, alike, ?_⟩
  rcases outcome with ran | ⟨error, ran, -⟩
  · rw [ran] at stops
    cases stops
  · rw [ran] at stops
    simp only [Bool.and_eq_true, decide_eq_true_eq, Bool.not_eq_true', decide_eq_false_iff_not]
      at stops
    have one : k = 1 := by
      have first := (counts 0 (by decide)).2 stops.1
      have second := mt (counts 1 (by decide)).1 stops.2
      omega
    have same : ((reloaded "f(1)" "f(1)").events.toList.take 1).map
        (Event.mapDouble Double.readBack) = (reloaded "f(1)" "f(1)").events.toList.take 1 := by
      decide +kernel
    refine ⟨error, d, ran, ?_⟩
    rw [read, one]
    exact same

end Log
end Retrace
