import Retrace.Proofs.Log.Lines
import Retrace.Proofs.Log.Stopping

/-!
# One line for each record

A log that was written to the end is text, and it is made of lines. The first opens the log, the
last says how many records there are, and between them stand the records, one on each line and in
the order of the events. A newline ends a line and is nowhere else, because no record holds one; the
comma that separates a record from the next stands at the end of its own line. So a tool that knows
nothing of the format can cut a log into records.

This does not depend on the store that keeps the texts of scripts, nor on the room there is for the
text: writing only succeeds if all of it was delivered (`Log.write_delivered`).
-/

namespace Retrace

/-! ## Writing that succeeds -/

namespace Output

variable {σ : Type} [SourceStore σ] {o : Output} {outputs : List Output} {d d' : Delivery σ}

theorem perform_ok (run : o.perform d = .ok () d') :
    o.Accepted ∧ d'.sink.delivered = d.sink.delivered ++ o.bytes := by
  cases o with
  | refusal error => cases run
  | script key content =>
    simp only [perform, Delivery.save] at run
    split at run
    · obtain ⟨-, rfl⟩ := EStateM.Result.ok.inj run
      exact ⟨trivial, (List.append_nil _).symm⟩
    · cases run
  | text content =>
    simp only [perform, Delivery.put] at run
    rcases Sink.put_run content d.sink with ⟨sink, put, delivered⟩ | ⟨torn, sink, put, -⟩
    · rw [put] at run
      obtain ⟨-, rfl⟩ := EStateM.Result.ok.inj run
      exact ⟨trivial, delivered⟩
    · rw [put] at run
      cases run

/-- **Writing goes on to the end only if everything is delivered.** -/
theorem forM_ok (run : outputs.forM perform d = .ok () d') : (∀ o ∈ outputs, o.Accepted) ∧
    d'.sink.delivered = d.sink.delivered ++ outputs.flatMap bytes := by
  induction outputs generalizing d with
  | nil =>
    obtain ⟨-, rfl⟩ := EStateM.Result.ok.inj run
    exact ⟨by simp, by simp⟩
  | cons o outputs ih =>
    have step : (o :: outputs).forM perform d =
        (o.perform >>= fun _ => outputs.forM perform) d := rfl
    rw [step] at run
    obtain ⟨_, between, first, rest⟩ := ok_of_bind run
    obtain ⟨accepted, delivered⟩ := perform_ok first
    obtain ⟨others, further⟩ := ih rest
    refine ⟨List.forall_mem_cons.2 ⟨accepted, others⟩, ?_⟩
    rw [further, delivered, List.flatMap_cons, List.append_assoc]

end Output

namespace Log

variable {σ : Type} [SourceStore σ] {log : Log} {store : σ} {room : Option Nat} {d : Delivery σ}

theorem short_of_accepted (accepted : ∀ o ∈ log.outputs, o.Accepted) : log.Short := by
  rw [outputs_eq] at accepted
  have among {before : Nat} {events : List Event}
      (accepted : ∀ o ∈ Wire.outputs before events, o.Accepted) :
      ∀ e ∈ events, e.action.Short := by
    induction events generalizing before with
    | nil => exact fun e mem => absurd mem List.not_mem_nil
    | cons e events ih =>
      obtain ⟨here, there⟩ := List.forall_mem_append.1 accepted
      exact List.forall_mem_cons.2 ⟨Event.outputs_accepted.1 here, ih there⟩
  exact among fun o mem => accepted o (List.mem_cons_of_mem _ (List.mem_append_left _ mem))

/-- What is delivered does not depend on where it goes. -/
theorem write_delivered (written : log.write (Delivery.start store room) = .ok () d) :
    d.sink.delivered =
      Wire.logStart ++ (Wire.records 0 log.events.toList ++ Wire.endMarker log.size) := by
  obtain ⟨accepted, delivered⟩ := Output.forM_ok written
  rw [delivered, outputs_bytes (short_of_accepted accepted)]
  rfl

end Log

/-! ## The lines -/

namespace Wire

/-- The lines of events: each record is an object, with a comma behind it if another one follows. -/
def lines : List Event → List Bytes
  | [] => []
  | [e] => [123 :: e.inner]
  | e :: next :: more => (123 :: e.inner ++ [44]) :: lines (next :: more)

/-- The last line of a log, without the newline that ends it. -/
def lastLine (count : Nat) : Bytes :=
  [93, 44] ++ keyed .endOfLog .u64 (UInt64.ofNat count) ++ [125]

theorem endMarker_eq (count : Nat) : endMarker count = 10 :: (lastLine count ++ [10]) := by
  simp [endMarker, lastLine]

theorem lines_cons (e : Event) (more : List Event) :
    lines (e :: more) = (123 :: e.inner ++ if more = [] then [] else [44]) :: lines more := by
  cases more with
  | nil => simp [lines]
  | cons next more => simp [lines]

/-- Behind the brace of a record come its line and those of the later ones, each with its newline.
-/
theorem records_lines (before : Nat) (e : Event) (more : List Event) (tail : Bytes) :
    123 :: e.inner ++ (records (before + 1) more ++ 10 :: tail) =
      (lines (e :: more)).flatMap (· ++ [10]) ++ tail := by
  induction more generalizing before e with
  | nil => simp [records, lines]
  | cons next more ih =>
    have rest := ih (before + 1) next
    have record : next.record false = 44 :: 10 :: 123 :: next.inner := next.record_eq false
    rw [lines_cons, List.flatMap_cons, List.append_assoc, ← rest, records,
      decide_eq_false (Nat.succ_ne_zero before), record]
    simp

theorem lines_getElem? (events : List Event) (i : Nat) : (lines events)[i]? =
    events[i]?.map fun e => 123 :: e.inner ++ if i + 1 < events.length then [44] else [] := by
  induction events generalizing i with
  | nil => simp [lines]
  | cons e more ih =>
    rw [lines_cons]
    cases i with
    | zero => cases more <;> simp
    | succ i => simp [ih]

theorem length_lines (events : List Event) : (lines events).length = events.length := by
  induction events with
  | nil => rfl
  | cons e more ih => rw [lines_cons, List.length_cons, List.length_cons, ih]

theorem lines_printed (events : List Event) : ∀ line ∈ lines events, Printed line := by
  intro line mem
  obtain ⟨i, there⟩ := List.mem_iff_getElem?.1 mem
  rw [lines_getElem?] at there
  obtain ⟨e, -, rfl⟩ := Option.map_eq_some_iff.1 there
  refine TextOf.append (.cons (by decide) e.inner_printed) ?_
  split
  · exact .codes (by decide)
  · exact .nil

theorem lastLine_printed (count : Nat) : Printed (lastLine count) :=
  .append (.append (.codes (by decide)) (Printed.keyed _ _ _)) (.codes (by decide))

theorem splitOn_lines {lines : List Bytes} (each : ∀ line ∈ lines, OneLine line) :
    (lines.flatMap (· ++ [10])).splitOn 10 = lines ++ [[]] := by
  induction lines with
  | nil => simp
  | cons line lines ih =>
    rw [List.flatMap_cons, List.append_assoc, List.singleton_append,
      List.splitOn_append_cons_self_of_not_mem (each line List.mem_cons_self),
      ih fun other mem => each other (List.mem_cons_of_mem _ mem), List.cons_append]

end Wire

namespace Log

/-- All lines of a log. -/
def lines (log : Log) : List Bytes :=
  Wire.logStart :: (Wire.lines log.events.toList ++ [Wire.lastLine log.size])

theorem lines_eq (log : Log) :
    Wire.logStart ++ (Wire.records 0 log.events.toList ++ Wire.endMarker log.size) =
      log.lines.flatMap (· ++ [10]) := by
  rw [lines, Wire.endMarker_eq, List.flatMap_cons, List.flatMap_append, List.append_assoc]
  refine congrArg (Wire.logStart ++ ·) ?_
  cases log.events.toList with
  | nil => simp [Wire.records, Wire.lines]
  | cons e more =>
    have record : e.record true = 10 :: 123 :: e.inner := e.record_eq true
    have rest := Wire.records_lines 0 e more (Wire.lastLine log.size ++ [10])
    rw [List.cons_append] at rest
    rw [Wire.records, decide_eq_true rfl, record, List.cons_append, List.cons_append,
      List.append_assoc]
    simpa using rest

theorem lines_printed (log : Log) : ∀ line ∈ log.lines, Printed line := by
  intro line mem
  rcases List.mem_cons.1 mem with rfl | mem
  · exact Printed.logStart
  rcases List.mem_append.1 mem with record | last
  · exact Wire.lines_printed _ line record
  · exact List.mem_singleton.1 last ▸ Wire.lastLine_printed log.size

/-- **A log that was written is made of lines, one for each record.** Whatever texts it holds, and
    whatever store has those of its scripts: what is delivered is UTF-8, and no byte in it is a
    control character below the space but for the newlines. Cut at these, it is the line that opens
    the log, a line for every event in their order, which is an object with a comma behind all but
    the last, and the line that counts the events; behind that one comes nothing. -/
theorem one_line_for_each_record {σ : Type} [SourceStore σ] (log : Log) (store : σ)
    (room : Option Nat) (d : Delivery σ)
    (written : log.write (Delivery.start store room) = .ok () d) :
    (∃ text, Bytes.ofUtf8? d.sink.delivered = some text) ∧
    (∀ b ∈ d.sink.delivered, b < 32 → b = 10) ∧
    ∃ records : List Bytes,
      d.sink.delivered.splitOn 10 = Wire.logStart :: records ++ [Wire.lastLine log.size, []] ∧
      records.length = log.size ∧
      ∀ i e, log.get? i = some e →
        records[i]? = some (123 :: e.held ++ 125 :: if i + 1 < log.size then [44] else []) := by
  have delivered : d.sink.delivered = log.lines.flatMap (· ++ [10]) :=
    (write_delivered written).trans log.lines_eq
  have text : TextOf (fun c => c = '\n' ∨ 32 ≤ c.toNat) d.sink.delivered := by
    rw [delivered]
    refine .flatMap fun line mem => ?_
    exact ((log.lines_printed line mem).imp fun _ => Or.inr).append (.codes (by decide))
  refine ⟨?_, fun b mem control => ?_, Wire.lines log.events.toList, ?_, ?_, fun i e there => ?_⟩
  · obtain ⟨s, same, -⟩ := text
    exact ⟨s, Bytes.ofUtf8?_eq_some_iff.2 same⟩
  · have control : b.toNat < 32 := UInt8.lt_iff_toNat_lt.1 control
    rcases text.byte mem with beyond | ⟨c, rfl | visible, same⟩
    · omega
    · exact UInt8.toNat_inj.1 same
    · omega
  · rw [delivered, Wire.splitOn_lines fun line mem => .printed (log.lines_printed line mem), lines]
    simp
  · exact (Wire.length_lines _).trans Array.length_toList
  · have there : log.events.toList[i]? = some e := by
      rw [Array.getElem?_toList]
      exact there
    rw [Wire.lines_getElem?, there, Option.map_some, e.inner_eq, List.cons_append,
      List.append_assoc]
    rfl

/-- The texts of this log hold a newline, a quote, a control character and a letter that is not
    ASCII. -/
def awkwardTexts : Log where
  events := #[
    ⟨⟨1⟩, ⟨0⟩, .convertToObject (.str "a\nb\"")⟩,
    ⟨⟨2⟩, ⟨0⟩, .codeParse ⟨⟨7⟩, 0, ⟨1⟩, "lib\n", "\u0001", "é", "f()\n"⟩⟩]

theorem awkwardTexts_lines : ∃ d,
    awkwardTexts.write (Delivery.start MemoryStore.empty none) = .ok () d ∧
    (∃ text, Bytes.ofUtf8? d.sink.delivered = some text) ∧
    (∀ b ∈ d.sink.delivered, b < 32 → b = 10) ∧
    ∃ records : List Bytes,
      d.sink.delivered.splitOn 10 = Wire.logStart :: records ++ [Wire.lastLine 2, []] ∧
      records.length = 2 ∧
      ∀ i e, awkwardTexts.get? i = some e →
        records[i]? = some (123 :: e.held ++ 125 :: if i + 1 < 2 then [44] else []) := by
  have short : awkwardTexts.Short := by
    unfold Short
    decide +kernel
  obtain ⟨d, written, -⟩ := write_run short MemoryStore.empty
  exact ⟨d, written, one_line_for_each_record awkwardTexts MemoryStore.empty none d written⟩

end Log

end Retrace
