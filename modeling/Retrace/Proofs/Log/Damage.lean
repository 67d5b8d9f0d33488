import Retrace.Proofs.Double.ReadBack
import Retrace.Proofs.Log.Overrun

/-!
# What damage to a record costs

Put anything but a newline between the braces of one record of a log. The records before it are read
as ever. Those behind it are too, if the damage is contained: if a reader that has nothing but the
damaged line gets to the end of it, with nothing broken off for want of more input, and without a
bracket on the way that closes the records (`Contained`). Then the reader does on the damaged line
what it does on this line alone, since what it reads is `Steady`, and is at the end of the line when
the next one begins.

If something breaks off, the reader runs over into the next record, and that one can be lost
(`symbolFirst_second_lost`), but none behind it. Only a bracket that closes the records costs all.
-/

namespace Retrace

open Reader

variable {load : Loader}

/-! ## Contained damage -/

/-- A reader that has nothing before it but one record, of the given bytes between braces. -/
def Reader.alone (damage : Bytes) : Reader :=
  { ofBytes (123 :: (damage ++ Wire.recordEnd)) with inRecords := true }

/-- What is read of one record alone. -/
def Reading.alone (load : Loader) (damage : Bytes) : Reading :=
  (start (.alone damage)).toEnd load .skipBad

/-- None of the records was left out because it broke off for want of input. -/
def Fed (skipped : List SkippedRecord) : Prop :=
  ∀ record ∈ skipped, record.failure.error.wantsMore = false

instance (skipped : List SkippedRecord) : Decidable (Fed skipped) :=
  inferInstanceAs (Decidable (∀ _ ∈ _, _))

/-- A record that holds the given bytes is over with its line. -/
structure Contained (load : Loader) (damage : Bytes) : Prop where
  inRecords : (Reading.alone load damage).reader.inRecords = true
  fed : Fed (Reading.alone load damage).skipped

instance (load : Loader) (damage : Bytes) : Decidable (Contained load damage) :=
  decidable_of_iff (_ ∧ _) ⟨fun h => ⟨h.1, h.2⟩, fun h => ⟨h.inRecords, h.fed⟩⟩

/-! ## The end of a line -/

section

variable {r c s t : Reader} {events : List Event} {skipped : List SkippedRecord}
  {fatal : Option ReadFailure} {tail : Bytes}

/-- Out of the records a tolerant reader stays. -/
theorem Passes.outside (passes : Passes load r events skipped s) (halts : Halts load s fatal t)
    (outside : r.inRecords = false) : t.inRecords = false := by
  obtain ⟨-, rfl⟩ := passes.eq_here outside
  have none := Event.read_outside load outside
  cases halts with
  | ended read => cases none.symm.trans read; exact outside
  | broken read => cases none.symm.trans read
  | stuck read => cases none.symm.trans read

/-- A closing bracket leads out of the records. -/
theorem Event.read_closing {error : LogError} (closing : r.Closing)
    (failed : read load r = .error error s) : s.inRecords = false := by
  have failed := read_error_of_closing closing failed
  rcases startRecord_ends closing with ⟨_, ran, _⟩ | ⟨_, _, ran, outside, -⟩
  · cases ran.symm.trans failed
  · cases ran.symm.trans failed
    exact outside

theorem Reader.skipRecord_inRecords (r : Reader) :
    (final (skipRecord r)).inRecords = r.inRecords := by
  obtain ⟨rest, commaSkipped, -, same⟩ := final_skipRecord r
  rw [same]

/-- Where reading fails on a line, leaving the record out gets to the end of the line. -/
theorem Event.skipped_line {error : LogError} (inRecords : r.inRecords = true)
    (ending : r.ending = .endOfInput) (line : OneLine r.rest) (others : ¬ r.Closing)
    (failed : read load r = .error error s) : ∃ s', skipRecord s = .ok () s' ∧ s'.rest = [] := by
  obtain ⟨rest, records, commaSkipped, suffix, -, same⟩ :=
    final_read load inRecords others
  rw [failed] at same
  obtain rfl := same
  exact ⟨_, skipRecord_run ending, List.dropWhile_eq_nil_iff.2 fun b mem =>
    decide_eq_true ((line.suffix suffix).ne mem)⟩

/-- A tolerant reader does not stop among the records of a line before the line is over. -/
theorem Halts.line_over (halts : Halts load r fatal t) (among : t.inRecords = true)
    (inRecords : r.inRecords = true) (ending : r.ending = .endOfInput) (line : OneLine r.rest) :
    r.rest = [] := by
  have others {s : Reader} {error : LogError} (failed : Event.read load r = .error error s)
      (among : (final (skipRecord s)).inRecords = true) : ¬ r.Closing := by
    intro closing
    rw [skipRecord_inRecords, Event.read_closing closing failed] at among
    cases among
  cases halts with
  | ended read =>
    have outside := (ended_of_startRecord inRecords (Event.read_none read)).outside
    rw [among] at outside
    cases outside
  | broken read broke =>
    obtain ⟨s', skipped, -⟩ := Event.skipped_line inRecords ending line
      (others read (by rw [broke]; exact among)) read
    cases skipped.symm.trans broke
  | stuck read skipped still =>
    obtain ⟨s', skipped', none⟩ := Event.skipped_line inRecords ending line
      (others read (by rw [skipped]; exact among)) read
    cases skipped'.symm.trans skipped
    rw [none] at still
    exact List.eq_nil_of_length_eq_zero (by simpa using still)

theorem Passes.of_nothing (passes : Passes load r events skipped s) (none : r.rest = []) :
    events = [] := by
  cases passes with
  | here => rfl
  | read first => exact absurd (Event.read_shorter first).2.2 (by simp [none])
  | skipped first skip ahead => exact absurd ahead (by simp [none])

/-! ## Within a line and alone -/

/-- Where two readers stand before the same bytes, one of them with more behind, they read alike,
    unless the bytes are not enough. -/
theorem Event.read_agrees (beside : Beside tail r c) (inRecords : r.inRecords = true)
    (others : ¬ r.Closing) : Agree tail (read load r) (read load c) := by
  rw [read_eq]
  refine Agree.bind ?_ fun found r' c' after => ?_
  · cases stands : r.rest.dropWhile Bytes.isBlank with
    | nil =>
      obtain ⟨e, wants, failed⟩ := startRecord_nothing inRecords stands
      rw [failed]
      exact Or.inl wants
    | cons b more =>
      have other : b ≠ 93 := by
        rintro rfl
        exact others ⟨inRecords, by rw [stands]; rfl⟩
      rw [startRecord_open inRecords stands other,
        startRecord_open (beside.inRecords.trans inRecords) (beside.stands stands) other]
      exact openRecord_agrees (beside.moved (stands ▸ List.dropWhile_suffix _))
  · cases found with
    | false => exact Or.inr ⟨rfl, after⟩
    | true => exact (interior_steady load).beside tail r' c' after

/-- `r` is on a line that it has for itself, and `c` on the same line of a log: they read alike, and
    where the one is at the end of all, the other is at the end of the line. -/
structure Abreast (load : Loader) (tail : Bytes) (r c : Reader) : Prop where
  ending : r.ending = .endOfInput
  inRecords : r.inRecords = true
  line : OneLine r.rest
  braced : Braced r.rest
  longer : r.rest.length + tail.length ≤ c.rest.length
  alike : ¬ r.Closing → Agree tail (Event.read load r) (Event.read load c)
  some_ : ¬ r.Closing → 0 < (final (Event.read load r)).records
  overruns : ∀ more, tail = crossing ++ more → ¬ r.Closing → r.rest ≠ [] →
    Starved (Event.read load r) → ∃ error s, Event.read load c = .error error s ∧ Overrun more s
  atEnd : r.rest = [] → c.At tail ∧ 0 < c.records

namespace Abreast

theorem of_beside (beside : Beside tail r c) (ending : r.ending = .endOfInput)
    (inRecords : r.inRecords = true) (line : OneLine r.rest) (braced : Braced r.rest)
    (some_ : 0 < r.records) (noneSkipped : r.commaSkipped = false) : Abreast load tail r c where
  ending := ending
  inRecords := inRecords
  line := line
  braced := braced
  longer := by rw [beside.rest, List.length_append]
  alike := Event.read_agrees beside inRecords
  some_ := by
    intro others
    obtain ⟨rest, records, commaSkipped, -, count, same⟩ :=
      Event.final_read load inRecords others
    rw [same]
    exact some_.trans_le count
  overruns := by
    rintro more rfl others ahead starved
    exact Event.read_overruns ⟨beside, ending, braced⟩ inRecords others ahead starved
  atEnd := fun none => ⟨⟨beside.ending, beside.inRecords.trans inRecords,
    Or.inl ⟨by rw [beside.rest, none]; rfl, beside.commaSkipped.trans noneSkipped⟩⟩,
    beside.started.2 some_⟩

/-- An event that the one reads the other reads too, and they go on together. -/
theorem kept {e : Event} (h : Abreast load tail r c) (read : Event.read load r = .ok (some e) s) :
    ∃ c', Event.read load c = .ok (some e) c' ∧ Abreast load tail s c' := by
  obtain ⟨inRecords, others, rest, suffix, -, rfl⟩ := Event.read_some read
  have alike := h.alike others
  rw [read] at alike
  -- what is read is not for want of input, so more of it makes no difference
  rcases alike with starved | alike
  · exact starved.elim
  · rcases alike.cases with ⟨_, _, _, c', ran, ran', rfl, beside⟩ | ⟨_, _, _, _, failed, _⟩
    · cases ran
      exact ⟨c', ran', .of_beside beside h.ending inRecords (h.line.suffix suffix)
        (h.braced.suffix suffix) (Nat.succ_pos _) rfl⟩
    · cases failed

/-- A record that the one cannot read the other leaves out too, and is at the end of the line. -/
theorem left {error : LogError} (h : Abreast load tail r c) (others : ¬ r.Closing)
    (failed : Event.read load r = .error error s) (fed : error.wantsMore = false)
    (ahead : r.rest ≠ []) (ends : EndsLine tail) :
    ∃ skipped c', Passes load c [] skipped c' ∧ 0 < c'.records ∧ c'.At tail := by
  obtain ⟨rest, records, commaSkipped, suffix, -, same⟩ :=
    Event.final_read load h.inRecords others
  have alike := h.alike others
  have some_ := h.some_ others
  rw [failed] at alike same some_
  obtain rfl := same
  rcases alike with starved | alike
  · cases fed.symm.trans starved
  · rcases alike.cases with ⟨_, _, _, _, ran, _⟩ | ⟨_, _, error', s', same, failed', -, beside⟩
    · cases ran
    · cases same
      have count := beside.started.2 some_
      obtain ⟨c', skip, at_, same, short⟩ := skipRecord_at beside.ending
        (beside.inRecords.trans h.inRecords) count beside.rest (h.line.suffix suffix) ends
      have longer : tail.length < c.rest.length :=
        (Nat.lt_add_of_pos_left (List.length_pos_of_ne_nil ahead)).trans_le h.longer
      exact ⟨_, c', .skipped failed' skip (short.trans_lt longer) (.here c'), same ▸ count, at_⟩

/-- A record that breaks off costs the next one, at most. -/
theorem lost {error : LogError} {behind : Bytes} (h : Abreast load tail r c) (others : ¬ r.Closing)
    (failed : Event.read load r = .error error s) (starved : error.wantsMore = true)
    (ahead : r.rest ≠ []) (next : NextRecord tail behind) :
    ∃ skipped c', Passes load c [] skipped c' ∧ 0 < c'.records ∧ (c'.At tail ∨ c'.At behind) := by
  obtain ⟨line, rfl, oneLine, ends⟩ := next
  obtain ⟨error', s', failed', overrun⟩ := h.overruns _ rfl others ahead (failed ▸ starved)
  have longer : (crossing ++ (line ++ behind)).length < c.rest.length :=
    (Nat.lt_add_of_pos_left (List.length_pos_of_ne_nil ahead)).trans_le h.longer
  exact overrun.passes failed' oneLine ends longer

/-- **Of a line of a log a reader makes what it makes of the line alone**, and is at the end of the
    line then, or, if it may have run over into the next line, at the end of this one. -/
theorem passes {behind : Bytes} (passes : Passes load r events skipped s)
    (h : Abreast load tail r c) (ends : EndsLine tail) (halts : Halts load s fatal t)
    (among : t.inRecords = true) (fits : Fed skipped ∨ NextRecord tail behind) :
    ∃ skipped' c', Passes load c events skipped' c' ∧ 0 < c'.records ∧
      (c'.At tail ∨ ¬ Fed skipped ∧ c'.At behind) := by
  -- on the way of the reader of the line, which the other one goes along, record by record
  induction passes generalizing c with
  | here r =>
    have none := halts.line_over among h.inRecords h.ending h.line
    obtain ⟨at_, some_⟩ := h.atEnd none
    exact ⟨[], c, .here c, some_, Or.inl at_⟩
  | read first more ih =>
    obtain ⟨c', read, further⟩ := h.kept first
    obtain ⟨skipped', c'', passes, at_⟩ := ih further halts fits
    exact ⟨skipped', c'', .read read passes, at_⟩
  | @skipped r s s' _ error events skipped first skip ahead more ih =>
    -- had the line closed the records, the reader would be outside of them in the end
    have others : ¬ r.Closing := by
      intro closing
      have outside : s'.inRecords = false := by
        have same := skipRecord_inRecords s
        rw [skip, Event.read_closing closing first] at same
        exact same
      rw [more.outside halts outside] at among
      cases among
    obtain ⟨_, skip', none⟩ := Event.skipped_line h.inRecords h.ending h.line others first
    cases skip.symm.trans skip'
    obtain rfl : events = [] := more.of_nothing none
    have some_ : r.rest ≠ [] := List.ne_nil_of_length_pos (Nat.zero_lt_of_lt ahead)
    -- unless the line broke off, the end of it is found as it is in the line alone
    cases wants : error.wantsMore with
    | false =>
      obtain ⟨skipped', c', passes, count, at_⟩ := h.left others first wants some_ ends
      exact ⟨skipped', c', passes, count, Or.inl at_⟩
    | true =>
      have broke : ¬ Fed (⟨⟨error, s.offset, s.records⟩, s'.offset⟩ :: skipped) := fun fed => by
        cases (fed _ List.mem_cons_self).symm.trans wants
      obtain ⟨skipped', c', passes, count, at_⟩ :=
        h.lost others first wants some_ (fits.resolve_left broke)
      exact ⟨skipped', c', passes, count, at_.imp_right fun at_ => ⟨broke, at_⟩⟩

/-- A record alone, and the same record in a log. -/
theorem alone {damage : Bytes} (line : OneLine damage) (at_ : c.At
    (Wire.recordStart (c.records = 0) ++ (damage ++ Wire.recordEnd ++ tail))) :
    Abreast load tail (.alone damage) c := by
  have started : startRecord (.alone damage) =
      .ok true (inside (.alone damage) (damage ++ Wire.recordEnd)) := rfl
  have started' := at_.opens
  -- both have opened the record, and the one has more input behind the line
  have beside : Beside tail (inside (.alone damage) (damage ++ Wire.recordEnd))
      (c.inside (damage ++ Wire.recordEnd ++ tail)) := by
    refine ⟨rfl, at_.ending, at_.inRecords, rfl,
      iff_of_true (Nat.succ_pos _) (Nat.succ_pos _), Or.inr fun b last => ?_⟩
    obtain rfl : b = 125 := by simpa [inside, Wire.recordEnd, eq_comm] using last
    decide
  have read : Event.read load (.alone damage) =
      Event.interior load (inside (.alone damage) (damage ++ Wire.recordEnd)) := by
    rw [Event.read_eq, bind_run, started]
    rfl
  have read' : Event.read load c =
      Event.interior load (c.inside (damage ++ Wire.recordEnd ++ tail)) := by
    rw [Event.read_eq, bind_run, started']
    rfl
  have braced (front : Bytes) : Braced (front ++ Wire.recordEnd) := fun b last => by
    simpa [Wire.recordEnd, eq_comm] using last
  refine ⟨rfl, rfl, ?_, ?_, ?_, fun _ => ?_, fun _ => ?_, ?_, fun none => ?_⟩
  · exact .cons (by decide) (line.append (by decide))
  · exact braced (123 :: damage)
  · have shorter : (damage ++ Wire.recordEnd ++ tail).length < c.rest.length :=
      startRecord_shorter started'
    simp only [Reader.alone, ofBytes, List.length_cons, List.length_append] at shorter ⊢
    omega
  · rw [read, read']
    exact (Event.interior_steady load).beside tail _ _ beside
  · obtain ⟨rest, -, same⟩ := ((Event.interior_steady load).onward
      (inside (.alone damage) (damage ++ Wire.recordEnd))).exists_rest
    rw [read, same]
    exact Nat.succ_pos 0
  · rintro more rfl - - starved
    rw [read] at starved
    rw [read']
    exact Event.interior_overruns ⟨beside, rfl, braced damage⟩ at_.inRecords (Nat.succ_pos _)
      starved
  · cases none

end Abreast

/-- Of a damaged line a reader makes what it makes of the line alone, and gets to the end of it, or
    of the next one. -/
theorem Reading.alone_passes {damage behind : Bytes}
    (among : (Reading.alone load damage).reader.inRecords = true) (line : OneLine damage)
    (at_ : c.At (Wire.recordStart (c.records = 0) ++ (damage ++ Wire.recordEnd ++ tail)))
    (ends : EndsLine tail)
    (fits : Fed (Reading.alone load damage).skipped ∨ NextRecord tail behind) : ∃ skipped c',
      Passes load c (Reading.alone load damage).log.events.toList skipped c' ∧ 0 < c'.records ∧
      (c'.At tail ∨ ¬ Fed (Reading.alone load damage).skipped ∧ c'.At behind) := by
  obtain ⟨events, skipped, s, fatal, t, passes, halts⟩ := exists_passes load (.alone damage)
  rw [Reading.alone, passes.toEnd halts] at among fits ⊢
  exact Abreast.passes passes (.alone line at_) ends halts among fits

end

/-! ## Damaged lines -/

namespace Line

variable {before after : List (Line load)} {damage tail : Bytes}

theorem written_later {n m : Nat} (some_ : 0 < n) (some_' : 0 < m) (lines : List (Line load)) :
    written n lines = written m lines := by
  induction lines generalizing n m with
  | nil => rfl
  | cons line lines ih =>
    have first : decide (n = 0) = decide (m = 0) := by
      simp [Nat.ne_of_gt some_, Nat.ne_of_gt some_']
    rw [written, written, first, ih (Nat.succ_pos n) (Nat.succ_pos m)]

/-- The lines before a record are read, whatever the record holds. -/
theorem read_before_record (before : List (Line load)) (inner : Bytes) : ∃ r s skipped,
    beginLog (.ofBytes (Wire.logStart ++ (written 0 before ++
      (Wire.recordStart (before.length = 0) ++ inner)))) = .ok formatVersion r ∧
    Passes load r (before.filterMap event?) skipped s ∧ s.records = before.length ∧
    s.At (Wire.recordStart (s.records = 0) ++ inner) := by
  obtain ⟨r, begun, here, fresh⟩ := begun_at
    (written 0 before ++ (Wire.recordStart (before.length = 0) ++ inner))
  have there : r.At (written r.records before ++
      (Wire.recordStart (before.length = 0) ++ inner)) := by
    rw [fresh]
    exact here
  obtain ⟨skipped, s, passes, at_, count, -⟩ := there.along before (endsLine_recordStart _ _)
  rw [fresh, Nat.zero_add] at count
  exact ⟨r, s, skipped, begun, passes, count, count ▸ at_⟩

/-- The lines behind a record that has been read or left out are read, up to the end of the log. -/
theorem read_behind_record {c : Reader} {count : Nat} (after : List (Line load))
    (countable : count < UInt64.size) (some_ : 0 < c.records)
    (at_ : c.At (written 1 after ++ Wire.endMarker count)) : ∃ skipped s t,
      Passes load c (after.filterMap event?) skipped s ∧ Halts load s none t := by
  rw [written_later Nat.one_pos some_] at at_
  obtain ⟨skipped, s, passes, end_, -⟩ := at_.along after (endsLine_endMarker _)
  obtain ⟨skipped', s', t, further, halts⟩ :=
    ends_at_marker end_.ending end_.inRecords countable end_.endMarker
  refine ⟨skipped ++ skipped', s', t, ?_, halts⟩
  have both := passes.trans further
  rwa [List.append_nil] at both

/-- The line begins as the record of an event does. -/
def Timed (line : Line load) : Prop :=
  ∃ rest, line.inner = Key.eventTime.written ++ rest ∧ OneLine rest

theorem Timed.next {line : Line load} (timed : line.Timed) {before : Nat} (some_ : 0 < before)
    (lines : List (Line load)) (ends : EndsLine tail) :
    NextRecord (written before (line :: lines) ++ tail) (written (before + 1) lines ++ tail) := by
  obtain ⟨rest, inner, oneLine⟩ := timed
  refine ⟨rest, ?_, oneLine, endsLine_written _ ends⟩
  rw [written, inner, crossing, decide_eq_false (Nat.ne_of_gt some_)]
  simp only [List.append_assoc]

/-- The lines behind a damaged one are read but one, at most, if the damage does not close the
    records; all of them, if it is contained. -/
theorem read_behind_damage {c : Reader} {count : Nat} (line : OneLine damage)
    (among : (Reading.alone load damage).reader.inRecords = true) (countable : count < UInt64.size)
    (at_ : c.At (Wire.recordStart (c.records = 0) ++ (damage ++ Wire.recordEnd ++
      (written 1 after ++ Wire.endMarker count))))
    (fits : Fed (Reading.alone load damage).skipped ∨ after ≠ [])
    (timed : ∀ line ∈ after.head?, line.Timed) : ∃ lost ≤ 1,
      (Fed (Reading.alone load damage).skipped → lost = 0) ∧ ∃ skipped s t,
        Passes load c ((Reading.alone load damage).log.events.toList ++
          (after.drop lost).filterMap event?) skipped s ∧ Halts load s none t := by
  have ends := endsLine_endMarker count
  have next : Fed (Reading.alone load damage).skipped ∨ NextRecord
      (written 1 after ++ Wire.endMarker count) (written 1 after.tail ++ Wire.endMarker count) := by
    cases after with
    | nil => exact Or.inl (fits.resolve_right (absurd rfl))
    | cons line lines =>
      have next := (timed line rfl).next Nat.one_pos lines ends
      rw [written_later (Nat.succ_pos 1) Nat.one_pos] at next
      exact Or.inr next
  obtain ⟨skipped, s, passes, some_, at_ | ⟨broke, at_⟩⟩ :=
    Reading.alone_passes among line at_ (endsLine_written 1 ends) next
  · obtain ⟨skipped', t, u, further, halts⟩ := read_behind_record after countable some_ at_
    exact ⟨0, Nat.zero_le 1, fun _ => rfl, _, t, u, passes.trans further, halts⟩
  · obtain ⟨skipped', t, u, further, halts⟩ := read_behind_record after.tail countable some_ at_
    rw [← List.drop_one] at further
    exact ⟨1, le_rfl, fun fed => absurd fed broke, _, t, u, passes.trans further, halts⟩

/-- What is read of lines of which one is damaged. -/
theorem read_around (before after : List (Line load)) (line : OneLine damage) {count : Nat}
    (countable : count < UInt64.size) (timed : ∀ line ∈ after.head?, line.Timed) :
    ∃ reading, Log.readTolerant load .skipBad (.ofBytes (Wire.logStart ++ (written 0 before ++
        (Wire.recordStart (before.length = 0) ++ (damage ++ Wire.recordEnd ++
          (written 1 after ++ Wire.endMarker count)))))) = .ok reading ∧
      before.filterMap event? <+: reading.log.events.toList ∧
      ((Reading.alone load damage).reader.inRecords = true →
        Fed (Reading.alone load damage).skipped ∨ after ≠ [] → ∃ lost ≤ 1,
          (Fed (Reading.alone load damage).skipped → lost = 0) ∧
          reading.log.events.toList = before.filterMap event? ++
            ((Reading.alone load damage).log.events.toList ++
              (after.drop lost).filterMap event?)) := by
  obtain ⟨r, s, skipped, begun, passes, -, at_⟩ := read_before_record before
    (damage ++ Wire.recordEnd ++ (written 1 after ++ Wire.endMarker count))
  refine ⟨(Reading.start r).toEnd load .skipBad, ?_, ?_, fun among fits => ?_⟩
  · unfold Log.readTolerant
    rw [begun]
  · obtain ⟨events, _, _, fatal, _, further, halts⟩ := exists_passes load s
    rw [(passes.trans further).toEnd halts]
    exact List.prefix_append _ _
  · obtain ⟨lost, few, none, _, _, _, further, halts⟩ :=
      read_behind_damage line among countable at_ fits timed
    exact ⟨lost, few, none, by rw [(passes.trans further).toEnd halts]⟩

end Line

/-! ## Damaged logs -/

/-- A log with the given bytes between the braces of one record, behind the records of some events
    and before those of others. -/
def Wire.around (before after : List Event) (held : Bytes) : Bytes :=
  logStart ++ (records 0 before ++ (recordStart (before.length = 0) ++ (held ++ recordEnd ++
    (records (before.length + 1) after ++ endMarker (before.length + 1 + after.length)))))

namespace Event

/-- What becomes of an event's record. -/
def fate (load : Loader) (e : Event) : Fate :=
  match e.action.reread load with
  | .ok action => .kept { e with action }
  | .error error => .left (· = error)

theorem fares {e : Event} (writable : e.kind.layout.Writable e.action.fields) :
    Fares load e.inner (e.fate load) := by
  unfold fate
  split
  · rename_i given
    exact interior_takes writable given
  · rename_i given
    exact interior_refuses writable ((Action.ofFields_readBack load e.action).trans given) rfl

/-- The record of an event as a line of a log. -/
def asLine (load : Loader) (e : Event) (writable : e.kind.layout.Writable e.action.fields) :
    Line load := ⟨e.inner, e.fate load, fares writable⟩

theorem asLine_timed (e : Event) (writable : e.kind.layout.Writable e.action.fields) :
    (asLine load e writable).Timed := by
  have split : ∃ rest, e.inner = Key.eventTime.written ++ rest := by
    simp only [inner, Wire.recordHeader, Wire.keyed, List.append_assoc]
    exact ⟨_, rfl⟩
  obtain ⟨rest, split⟩ := split
  exact ⟨rest, split, e.inner_oneLine.suffix ⟨_, split.symm⟩⟩

end Event

namespace Log

variable {log : Log} {events : List Event}

theorem written_lines (writable : ∀ e ∈ events, e.kind.layout.Writable e.action.fields)
    (before : Nat) :
    Line.written before (events.pmap (Event.asLine load) writable) = Wire.records before events := by
  induction events generalizing before with
  | nil => rfl
  | cons e events ih =>
    rw [List.pmap_cons, Line.written, Wire.records, ih, Event.record_eq]
    rfl

theorem events_of_lines (load : Loader)
    (writable : ∀ e ∈ events, e.kind.layout.Writable e.action.fields) (lost : Nat) :
    ((events.pmap (Event.asLine load) writable).drop lost).filterMap Line.event? =
      (events.drop lost).filterMap fun e => (e.fate load).event? := by
  induction events generalizing lost with
  | nil => simp
  | cons e events ih =>
    cases lost with
    | zero =>
      have rest := ih (fun other mem => writable other (List.mem_cons_of_mem e mem)) 0
      rw [List.drop_zero, List.drop_zero] at rest ⊢
      rw [List.pmap_cons, List.filterMap_cons, List.filterMap_cons, rest]
      rfl
    | succ lost => exact ih _ lost

/-- What is read of the records of some events, and of one between them that is damaged. -/
theorem read_around (load : Loader) {before after : List Event}
    (writable : ∀ e ∈ before, e.kind.layout.Writable e.action.fields)
    (writable' : ∀ e ∈ after, e.kind.layout.Writable e.action.fields) {damage : Bytes}
    (line : OneLine damage) (countable : before.length + 1 + after.length < UInt64.size) :
    ∃ reading,
      readTolerant load .skipBad (.ofBytes (Wire.around before after damage)) = .ok reading ∧
      before.filterMap (fun e => (e.fate load).event?) <+: reading.log.events.toList ∧
      ((Reading.alone load damage).reader.inRecords = true →
        Fed (Reading.alone load damage).skipped ∨ after ≠ [] → ∃ lost ≤ 1,
          (Fed (Reading.alone load damage).skipped → lost = 0) ∧
          reading.log.events.toList = before.filterMap (fun e => (e.fate load).event?) ++
            ((Reading.alone load damage).log.events.toList ++
              (after.drop lost).filterMap fun e => (e.fate load).event?)) := by
  have timed : ∀ line ∈ (after.pmap (Event.asLine load) writable').head?, line.Timed := by
    intro line first
    obtain ⟨e, mem, rfl⟩ := List.mem_pmap.1 (List.mem_of_mem_head? first)
    exact e.asLine_timed (writable' e mem)
  obtain ⟨reading, ran, found, behind⟩ :=
    Line.read_around (before.pmap (Event.asLine load) writable) _ line countable timed
  have all := events_of_lines load writable 0
  rw [List.drop_zero, List.drop_zero] at all
  rw [List.length_pmap, written_lines,
    Line.written_later Nat.one_pos (Nat.succ_pos before.length), written_lines] at ran
  simp only [all, events_of_lines, ne_eq, List.pmap_eq_nil_iff] at found behind
  exact ⟨reading, ran, found, behind⟩

/-- What is read of an event's record, with the texts that the store has in the end. -/
def readEvent? (log : Log) (e : Event) : Option Event :=
  if e.script?.any fun s => log.Misfit s then none else some { e with action := log.readAction e }

theorem fate_event? {e : Event} (short : e.action.Short) (mem : e ∈ log.events.toList)
    (store : MemoryStore) : (e.fate (log.loader store)).event? = log.readEvent? e := by
  unfold readEvent? Event.fate
  by_cases misfit : ∃ s, e.script? = some s ∧ log.Misfit s
  · obtain ⟨s, isScript, misfit⟩ := misfit
    rw [reread_misfit short mem isScript misfit store, isScript]
    simp [misfit, Fate.event?]
  · have fits : ∀ s, e.script? = some s → ¬ log.Misfit s := fun s isScript bad =>
      misfit ⟨s, isScript, bad⟩
    have none : ¬ (e.script?.any fun s => log.Misfit s) = true := by
      simpa [Option.any_eq_true] using fits
    rw [reread_run short mem fits store, if_neg none]
    rfl

theorem readEvent?_of_alike {e : Event} (mem : e ∈ log.events.toList)
    (alike : ∀ s ∈ log.scripts, ∀ t ∈ log.scripts, s.SameSource t → s.text = t.text) :
    log.readEvent? e = some (e.mapDouble Double.readBack) := by
  have last {s : Script} (isScript : e.script? = some s) : log.lastText s = s.text :=
    lastText_of_alike (alike s (mem_scripts mem isScript))
  have none : ¬ (e.script?.any fun s => log.Misfit s) = true := by
    intro any
    obtain ⟨s, isScript, misfit⟩ := (Option.any_eq_true _ _).1 any
    exact of_decide_eq_true misfit (by rw [last isScript])
  rw [readEvent?, if_neg none]
  obtain ⟨time, context, action⟩ := e
  cases action with
  | codeParse s => simp only [readAction, Action.withText, last rfl]; rfl
  | _ => rfl

/-- **What damage to a record costs.** Write a log, and put anything without a newline between the
    braces of the record of one event. The events before it are read as they were. If the damage is
    contained, so are the events behind it, and between them there are the events that the damaged
    record alone is read as. If it is not, but does not close the records either, it can cost the
    event right behind it, and no other. -/
theorem read_damaged (short : log.Short) (countable : log.size < UInt64.size)
    (store : MemoryStore) {before after : List Event} {e : Event}
    (split : log.events.toList = before ++ e :: after) {damage : Bytes}
    (line : OneLine damage) :
    ∃ d, log.write (Delivery.start store none) = .ok () d ∧
      d.sink.delivered = Wire.around before after e.held ∧
      ∃ reading, readTolerant (SourceStore.load d.store) .skipBad
          (.ofBytes (Wire.around before after damage)) = .ok reading ∧
        before.filterMap log.readEvent? <+: reading.log.events.toList ∧
        (Contained (SourceStore.load d.store) damage → reading.log.events.toList =
          before.filterMap log.readEvent? ++
            ((Reading.alone (SourceStore.load d.store) damage).log.events.toList ++
              after.filterMap log.readEvent?)) ∧
        ((Reading.alone (SourceStore.load d.store) damage).reader.inRecords = true → after ≠ [] →
          ∃ lost ≤ 1, reading.log.events.toList = before.filterMap log.readEvent? ++
            ((Reading.alone (SourceStore.load d.store) damage).log.events.toList ++
              (after.drop lost).filterMap log.readEvent?)) ∧
        ((∀ s ∈ log.scripts, ∀ t ∈ log.scripts, s.SameSource t → s.text = t.text) →
          ∀ other ∈ log.events.toList,
            log.readEvent? other = some (other.mapDouble Double.readBack)) := by
  obtain ⟨d, written, delivered, stored⟩ := write_run short store
  have writable : ∀ other ∈ log.events.toList,
      other.kind.layout.Writable other.action.fields :=
    fun other mem => Action.writable_fields (short other mem)
  have size : before.length + 1 + after.length = log.size := by
    have same := congrArg List.length split
    simp only [List.length_append, List.length_cons, Array.length_toList] at same
    unfold Log.size
    omega
  have isBefore : ∀ other ∈ before, other ∈ log.events.toList := fun other mem => by
    rw [split]
    exact List.mem_append_left _ mem
  have isAfter : ∀ other ∈ after, other ∈ log.events.toList := fun other mem => by
    rw [split]
    exact List.mem_append_right _ (List.mem_cons_of_mem _ mem)
  refine ⟨d, written, ?_, ?_⟩
  · rw [delivered, split, Wire.records_append, Wire.records, Wire.around, size, Event.record_eq]
    simp [Event.inner, Event.held]
  rw [show SourceStore.load d.store = log.loader store by rw [stored]; rfl]
  have fates {events : List Event} (among : ∀ other ∈ events, other ∈ log.events.toList) :
      events.filterMap (fun e => (e.fate (log.loader store)).event?) =
        events.filterMap log.readEvent? :=
    List.filterMap_congr fun e mem => fate_event? (short e (among e mem)) (among e mem) store
  have rest (lost : Nat) := fates fun other mem =>
    isAfter other ((List.drop_sublist lost after).subset mem)
  -- what holds of any loader, taken at the store that the log was written to
  obtain ⟨reading, ran, found, behind⟩ := read_around (log.loader store)
    (fun other mem => writable other (isBefore other mem))
    (fun other mem => writable other (isAfter other mem)) line (size ▸ countable)
  simp only [fates isBefore, rest] at found behind
  refine ⟨reading, ran, found, fun contained => ?_, fun among some_ => ?_,
    fun alike other mem => readEvent?_of_alike mem alike⟩
  · obtain ⟨lost, -, none, same⟩ := behind contained.inRecords (Or.inl contained.fed)
    rw [same, none contained.fed, List.drop_zero]
  · obtain ⟨lost, few, -, same⟩ := behind among (Or.inr some_)
    exact ⟨lost, few, same⟩

/-- An event whose record holds a value, and two more. -/
def symbolFirst : Log where
  events := #[⟨⟨1⟩, ⟨0⟩, .createSymbol (.bool true)⟩, ⟨⟨2⟩, ⟨0⟩, .getAndClearException⟩,
    ⟨⟨3⟩, ⟨0⟩, .allocateObject true⟩]

/-- With a brace too many behind a record, no event is lost. -/
theorem symbolFirst_contained : symbolFirst.Short ∧
    symbolFirst.size < UInt64.size ∧
    OneLine (Event.held ⟨⟨2⟩, ⟨0⟩, .getAndClearException⟩ ++ [125]) ∧
    ∃ d, symbolFirst.write (Delivery.start MemoryStore.empty none) = .ok () d ∧
      Contained (SourceStore.load d.store)
        (Event.held ⟨⟨2⟩, ⟨0⟩, .getAndClearException⟩ ++ [125]) ∧
      ∃ reading, readTolerant (SourceStore.load d.store) .skipBad (.ofBytes (Wire.around
          [⟨⟨1⟩, ⟨0⟩, .createSymbol (.bool true)⟩] [⟨⟨3⟩, ⟨0⟩, .allocateObject true⟩]
          (Event.held ⟨⟨2⟩, ⟨0⟩, .getAndClearException⟩ ++ [125]))) = .ok reading ∧
        reading.log.events.toList = symbolFirst.events.toList := by
  have short : symbolFirst.Short := by
    unfold Short
    decide +kernel
  have countable : symbolFirst.size < UInt64.size := by decide
  have line : OneLine (Event.held ⟨⟨2⟩, ⟨0⟩, .getAndClearException⟩ ++ [125]) := by decide +kernel
  obtain ⟨d, written, -, reading, ran, -, found, -⟩ := read_damaged short countable .empty
    (show symbolFirst.events.toList = [⟨⟨1⟩, ⟨0⟩, .createSymbol (.bool true)⟩] ++
      ⟨⟨2⟩, ⟨0⟩, .getAndClearException⟩ :: [⟨⟨3⟩, ⟨0⟩, .allocateObject true⟩] from rfl) line
  obtain ⟨d', written', -, stored⟩ := write_run short MemoryStore.empty
  obtain rfl : d = d' := (EStateM.Result.ok.inj (written.symm.trans written')).2
  have contained : Contained (SourceStore.load d.store)
      (Event.held ⟨⟨2⟩, ⟨0⟩, .getAndClearException⟩ ++ [125]) := by
    rw [stored]
    decide +kernel
  refine ⟨short, countable, line, d, written, contained, reading, ran, ?_⟩
  rw [found contained, stored]
  decide +kernel

/-- The first record, with a brace too few. -/
def braceShort : Bytes := (Event.held ⟨⟨1⟩, ⟨0⟩, .createSymbol (.bool true)⟩).dropLast

/-- **Damage to one record can cost another.** With a brace too few in the first record, reading it
    takes the comma behind it. Then the second record cannot be read either, for want of a comma. -/
theorem symbolFirst_second_lost : OneLine braceShort ∧
    symbolFirst.events.toList =
      [] ++ ⟨⟨1⟩, ⟨0⟩, .createSymbol (.bool true)⟩ :: symbolFirst.events.toList.tail ∧
    ∃ reading, readTolerant (SourceStore.load MemoryStore.empty) .skipBad
        (.ofBytes (Wire.around [] symbolFirst.events.toList.tail braceShort)) = .ok reading ∧
      ⟨⟨2⟩, ⟨0⟩, .getAndClearException⟩ ∉ reading.log.events.toList := by
  have lost : (readTolerant (SourceStore.load MemoryStore.empty) .skipBad (.ofBytes
      (Wire.around [] symbolFirst.events.toList.tail braceShort))).toOption.map
        (fun reading => reading.log.events.toList) =
      some [⟨⟨3⟩, ⟨0⟩, .allocateObject true⟩] := by
    decide +kernel
  refine ⟨by decide +kernel, rfl, ?_⟩
  cases ran : readTolerant (SourceStore.load MemoryStore.empty) .skipBad (.ofBytes
      (Wire.around [] symbolFirst.events.toList.tail braceShort)) with
  | ok reading =>
    rw [ran] at lost
    have found : reading.log.events.toList = [⟨⟨3⟩, ⟨0⟩, .allocateObject true⟩] :=
      Option.some.inj lost
    refine ⟨reading, rfl, ?_⟩
    rw [found]
    decide
  | error failure =>
    rw [ran] at lost
    cases lost

end Log

end Retrace
