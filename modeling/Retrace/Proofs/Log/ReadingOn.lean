import Retrace.Proofs.Log.RoundTrip
import Retrace.Proofs.Wire.Steady

/-!
# Reading on past bad records

A tolerant reader leaves out what it cannot read, goes on at the end of the line, and stops where
that gets it nowhere. `Passes` is its way from one reader to another, record by record, with the
events it reads and the records it leaves out; `Halts` is how it stops. Together they are what
`Reading.toEnd` does (`Passes.toEnd`), and there is always such a way (`exists_passes`).

So a statement about tolerant reading is an induction over `Passes`, and needs to know two things
about each record: where reading begins (`startRecord_open`, `startRecord_closing`), and that all of
what is read behind its opening brace is `Steady`.
-/

namespace Retrace

open Reader

variable {load : Loader}

/-! ## Where a record begins -/

namespace Reader

variable {r s : Reader} {more : Bytes} {b : UInt8}

/-- Takes the brace that opens a record. -/
def openBrace : ReadM Bool := do
  modify fun r => { r with commaSkipped := false }
  expect '{'
  modify fun r => { r with records := r.records + 1 }
  return true

/-- Takes the brace that opens a record, with the comma before it. -/
def openRecord : ReadM Bool := do
  let r ← get
  if 0 < r.records ∧ r.commaSkipped = false then expect ','
  openBrace

/-- The reader stands before the bracket that closes the records. -/
def Closing (r : Reader) : Prop :=
  r.inRecords = true ∧ (r.rest.dropWhile Bytes.isBlank).head? = some 93

instance (r : Reader) : Decidable r.Closing := inferInstanceAs (Decidable (_ ∧ _))

theorem startRecord_ended (ended : r.inRecords = false) : startRecord r = .ok false r := by
  simp only [startRecord, bind_run, get_run, ended]
  rfl

theorem startRecord_closing (inRecords : r.inRecords = true)
    (stands : r.rest.dropWhile Bytes.isBlank = 93 :: more) :
    startRecord r = (finishLog >>= fun _ => pure false) { r with rest := more } := by
  simp only [startRecord, bind_run, get_run, inRecords, Bool.not_true, Bool.false_eq_true, if_false,
    skipBlanks_before stands]
  rfl

theorem startRecord_open (inRecords : r.inRecords = true)
    (stands : r.rest.dropWhile Bytes.isBlank = b :: more) (other : b ≠ 93) :
    startRecord r = openRecord { r with rest := b :: more } := by
  have skipped := skipBlanks_before stands
  have seen : peek? { r with rest := b :: more } = .ok (some b) { r with rest := b :: more } := rfl
  obtain ⟨left, ending, total, records, inRecords', commaSkipped⟩ := r
  obtain rfl : inRecords' = true := inRecords
  simp only [startRecord, bind_run, get_run, Bool.not_true, Bool.false_eq_true, if_false, skipped,
    seen, other, openRecord, openBrace]

/-- Where the input is used up, no record can begin. -/
theorem startRecord_nothing (inRecords : r.inRecords = true)
    (none : r.rest.dropWhile Bytes.isBlank = []) :
    ∃ e, e.wantsMore = true ∧ startRecord r = .error e { r with rest := [] } := by
  obtain ⟨left, ending, total, records, inRecords', commaSkipped⟩ := r
  obtain rfl : inRecords' = true := inRecords
  have left_ : left.dropWhile Bytes.isBlank = [] := none
  simp only [startRecord, bind_run, get_run, Bool.not_true, Bool.false_eq_true, if_false, skipBlanks,
    modify_run, left_]
  cases ending with
  | endOfInput => exact ⟨.unexpectedEnd _, rfl, rfl⟩
  | fault fault => exact ⟨.transport fault, rfl, rfl⟩

/-- How a reader has changed by taking what a record opens with, or failing to take it. -/
inductive Opened (r : Reader) : EStateM.Result LogError Reader Bool → Prop
  | opened (rest : Bytes) (suffix : rest <:+ r.rest) (shorter : rest.length < r.rest.length) :
    Opened r (.ok true { r with rest, records := r.records + 1, commaSkipped := false })
  | failed (e : LogError) (rest : Bytes) (suffix : rest <:+ r.rest) (commaSkipped : Bool) :
    Opened r (.error e { r with rest, commaSkipped })

theorem Opened.behind {rest : Bytes} {result : EStateM.Result LogError Reader Bool}
    (h : Opened { r with rest } result) (suffix : rest <:+ r.rest) : Opened r result := by
  cases h with
  | opened rest' suffix' shorter =>
    exact .opened rest' (suffix'.trans suffix) (shorter.trans_le suffix.length_le)
  | failed e rest' suffix' commaSkipped => exact .failed e rest' (suffix'.trans suffix) commaSkipped

theorem openBrace_opened (r : Reader) : Opened r (openBrace r) := by
  have moved := (expect_steady '{').onward { r with commaSkipped := false }
  simp only [openBrace, bind_run, modify_run, pure_run]
  cases taken : expect '{' { r with commaSkipped := false } with
  | ok _ t =>
    have shorter := expect_shorter taken
    rw [taken] at moved
    obtain ⟨rest, suffix, rfl⟩ := moved.exists_rest
    exact .opened rest suffix shorter
  | error e t =>
    rw [taken] at moved
    obtain ⟨rest, suffix, rfl⟩ := moved.exists_rest
    exact .failed (r := r) e rest suffix false

theorem openRecord_opened (r : Reader) : Opened r (openRecord r) := by
  simp only [openRecord, bind_run get, get_run]
  split
  · have moved := (expect_steady ',').onward r
    rw [bind_run]
    cases taken : expect ',' r with
    | ok _ t =>
      rw [taken] at moved
      obtain ⟨rest, suffix, rfl⟩ := moved.exists_rest
      exact (openBrace_opened { r with rest }).behind suffix
    | error e t =>
      rw [taken] at moved
      obtain ⟨rest, suffix, rfl⟩ := moved.exists_rest
      exact .failed e rest suffix r.commaSkipped
  · exact openBrace_opened r

/-- Away from the end of the records, either a record is opened, or it is an error. -/
theorem startRecord_opened (inRecords : r.inRecords = true) (others : ¬ r.Closing) :
    Opened r (startRecord r) := by
  have suffix := List.dropWhile_suffix (l := r.rest) Bytes.isBlank
  cases stands : r.rest.dropWhile Bytes.isBlank with
  | nil =>
    obtain ⟨e, -, failed⟩ := startRecord_nothing inRecords stands
    rw [failed]
    exact .failed e [] List.nil_suffix r.commaSkipped
  | cons b more =>
    have other : b ≠ 93 := by
      rintro rfl
      exact others ⟨inRecords, by rw [stands]; rfl⟩
    rw [startRecord_open inRecords stands other]
    exact (openRecord_opened _).behind (stands ▸ suffix)

/-- Before the closing bracket there is no record. -/
theorem startRecord_of_closing (closing : r.Closing) : ∃ more,
    r.rest.dropWhile Bytes.isBlank = 93 :: more ∧
      startRecord r = (finishLog >>= fun _ => pure false) { r with rest := more } := by
  obtain ⟨more, stands⟩ := List.head?_eq_some_iff.1 closing.2
  exact ⟨more, stands, startRecord_closing closing.1 stands⟩

/-- At the end marker there is no record, and it is an error if the marker does not count the
    records. -/
theorem startRecord_endMarker (isEnd : r.ending = .endOfInput) (inRecords : r.inRecords = true)
    {count : Nat} (countable : count < UInt64.size) (stands : r.rest = Wire.endMarker count) :
    startRecord r =
      if count = r.records then .ok false { r with rest := [10], inRecords := false }
      else .error (.recordCountMismatch count r.records)
        { r with rest := [10], inRecords := false } := by
  have bracket : r.rest.dropWhile Bytes.isBlank =
      93 :: 44 :: (Wire.keyed .endOfLog .u64 (UInt64.ofNat count) ++ [125, 10]) := by
    rw [stands, Wire.endMarker]
    simp [Bytes.isBlank]
  rw [startRecord_closing inRecords bracket, bind_run, finishLog_declaring isEnd countable]
  by_cases same : count = r.records
  · rw [if_pos same, if_pos same]
    rfl
  · rw [if_neg same, if_neg same]

/-- A record that was started has been opened. -/
theorem opened_of_started (started : startRecord r = .ok true s) :
    r.inRecords = true ∧ ¬ r.Closing := by
  cases inRecords : r.inRecords with
  | false => simp [startRecord_ended inRecords] at started
  | true =>
    refine ⟨rfl, fun closing => ?_⟩
    obtain ⟨more, -, run⟩ := startRecord_of_closing closing
    rw [run, bind_run] at started
    cases finished : finishLog { r with rest := more } with
    | ok _ t => simp [finished] at started
    | error e t => simp [finished] at started

theorem startRecord_shorter (started : startRecord r = .ok true s) :
    s.rest.length < r.rest.length := by
  obtain ⟨inRecords, others⟩ := opened_of_started started
  have opened := startRecord_opened inRecords others
  rw [started] at opened
  cases opened with
  | opened rest suffix shorter => exact shorter

theorem openBrace_agrees {more : Bytes} (beside : Beside more r s) :
    Agree more (openBrace r) (openBrace s) := by
  have cleared : Beside more { r with commaSkipped := false } { s with commaSkipped := false } :=
    ⟨beside.rest, beside.ending, beside.inRecords, rfl, beside.started, beside.closes⟩
  refine ((expect_steady '{').beside more _ _ cleared).bind fun _ r' s' after => Or.inr ⟨rfl, ?_⟩
  exact ⟨after.rest, after.ending, after.inRecords, after.commaSkipped,
    iff_of_true (Nat.succ_pos _) (Nat.succ_pos _), after.closes⟩

theorem openRecord_agrees {more : Bytes} (beside : Beside more r s) :
    Agree more (openRecord r) (openRecord s) := by
  simp only [openRecord, bind_run get, get_run, beside.started, beside.commaSkipped]
  split
  · exact ((expect_steady ',').beside more r s beside).bind fun _ _ _ after => openBrace_agrees after
  · exact openBrace_agrees beside

/-! ## Leaving a record out -/

/-- Whether the last byte of a line that is not blank is a comma. -/
def endsInComma (line : Bytes) : Bool := (line.filter fun b => !Bytes.isBlank b).getLast? = some 44

theorem skipRecord_run (isEnd : r.ending = .endOfInput) : skipRecord r = .ok () { r with
    rest := r.rest.dropWhile (· ≠ 10)
    commaSkipped := endsInComma (r.rest.takeWhile (· ≠ 10)) } := by
  have stands := checkEnding_run (r := { r with rest := r.rest.dropWhile (· ≠ 10) }) isEnd
  simp only [skipRecord, bind_run, get_run, set_run, stands]
  rfl

end Reader

/-! ## What a record holds -/

theorem Event.interior_steady (load : Loader) : Steady (interior load) (interior load) := by
  refine recordHeader_steady.bind fun header => header.kind.layout.steady.bind fun fields => ?_
  cases Action.ofFields load header.kind fields with
  | error e => exact .fail rfl
  | ok action => exact (expect_steady '}').bind fun _ => .pure _

/-- Out of the records there is no event. -/
theorem Event.read_outside (load : Loader) {r : Reader} (outside : r.inRecords = false) :
    read load r = .ok none r := by
  rw [read_eq, bind_run, startRecord_ended outside]
  rfl

/-- A record that was started holds an event, or it is an error. -/
theorem Event.interior_some {found : Option Event} {r s : Reader}
    (ran : interior load r = .ok found s) : found.isSome := by
  obtain ⟨header, _, _, ran⟩ := ok_of_bind ran
  obtain ⟨fields, _, _, ran⟩ := ok_of_bind ran
  cases held : Action.ofFields load header.kind fields with
  | error e => simp [held] at ran
  | ok action =>
    simp only [held] at ran
    obtain ⟨_, _, _, ran⟩ := ok_of_bind ran
    cases ran
    rfl

/-- There is no further event just where there is no further record. -/
theorem Event.read_none {r s : Reader} (ran : read load r = .ok none s) :
    startRecord r = .ok false s := by
  rw [read_eq] at ran
  obtain ⟨found, t, started, ran⟩ := ok_of_bind ran
  cases found with
  | false =>
    cases ran
    exact started
  | true => cases interior_some ran

/-- At the closing bracket there is no event. -/
theorem Event.read_error_of_closing {e : LogError} {r s : Reader} (closing : r.Closing)
    (ran : read load r = .error e s) : startRecord r = .error e s := by
  rw [read_eq, bind_run] at ran
  cases started : startRecord r with
  | ok found t =>
    cases found with
    | true => exact absurd closing (opened_of_started started).2
    | false => simp [started] at ran
  | error e' t => simpa [started] using ran

/-- How a reader has changed by reading, or failing to read, the next record. -/
theorem Event.final_read (load : Loader) {r : Reader} (inRecords : r.inRecords = true)
    (others : ¬ r.Closing) :
    ∃ rest records commaSkipped, rest <:+ r.rest ∧ r.records ≤ records ∧
      final (read load r) = { r with rest, records, commaSkipped } := by
  have opened := startRecord_opened inRecords others
  rw [read_eq, bind_run]
  cases started : startRecord r with
  | error e s =>
    rw [started] at opened
    cases opened with
    | failed _ rest suffix commaSkipped =>
      exact ⟨rest, r.records, commaSkipped, suffix, le_rfl, rfl⟩
  | ok found s =>
    rw [started] at opened
    cases opened with
    | opened rest suffix shorter =>
      obtain ⟨rest', suffix', same⟩ := ((interior_steady load).onward
        { r with rest, records := r.records + 1, commaSkipped := false }).exists_rest
      exact ⟨rest', r.records + 1, false, suffix'.trans suffix, Nat.le_succ _, same⟩

/-- How a reader has changed by reading an event. -/
theorem Event.read_some {e : Event} {r s : Reader} (ran : read load r = .ok (some e) s) :
    r.inRecords = true ∧ ¬ r.Closing ∧ ∃ rest, rest <:+ r.rest ∧ rest.length < r.rest.length ∧
      s = { r with rest, records := r.records + 1, commaSkipped := false } := by
  rw [read_eq] at ran
  obtain ⟨found, t, started, ran⟩ := ok_of_bind ran
  cases found with
  | false => cases ran
  | true =>
    obtain ⟨inRecords, others⟩ := opened_of_started started
    have opened := startRecord_opened inRecords others
    rw [started] at opened
    cases opened with
    | opened rest suffix shorter =>
      have moved := (interior_steady load).onward
        { r with rest, records := r.records + 1, commaSkipped := false }
      rw [if_pos rfl] at ran
      rw [ran] at moved
      obtain ⟨rest', suffix', rfl⟩ := moved.exists_rest
      exact ⟨inRecords, others, rest', suffix'.trans suffix, suffix'.length_le.trans_lt shorter, rfl⟩

/-- An event that is read takes something. -/
theorem Event.read_shorter {e : Event} {r s : Reader} (ran : read load r = .ok (some e) s) :
    r.inRecords = true ∧ ¬ r.Closing ∧ s.rest.length < r.rest.length := by
  obtain ⟨inRecords, others, rest, -, shorter, rfl⟩ := read_some ran
  exact ⟨inRecords, others, shorter⟩

/-! ## The way of a tolerant reader -/

/-- A tolerant reader gets from one reader to another, reads some events on the way and leaves some
records out. -/
inductive Passes (load : Loader) : Reader → List Event → List SkippedRecord → Reader → Prop
  | here (r : Reader) : Passes load r [] [] r
  | read {r s t : Reader} {e : Event} {events : List Event} {skipped : List SkippedRecord}
    (first : Event.read load r = .ok (some e) s) (more : Passes load s events skipped t) :
    Passes load r (e :: events) skipped t
  | skipped {r s s' t : Reader} {error : LogError} {events : List Event}
    {skipped : List SkippedRecord} (first : Event.read load r = .error error s)
    (skip : skipRecord s = .ok () s') (ahead : s'.rest.length < r.rest.length)
    (more : Passes load s' events skipped t) :
    Passes load r events (⟨⟨error, s.offset, s.records⟩, s'.offset⟩ :: skipped) t

/-- A tolerant reader stops: at an end marker, or because leaving a record out gets it nowhere. -/
inductive Halts (load : Loader) : Reader → Option ReadFailure → Reader → Prop
  | ended {r s : Reader} (read : Event.read load r = .ok none s) : Halts load r none s
  | broken {r s s' : Reader} {error error' : LogError} (read : Event.read load r = .error error s)
    (skip : skipRecord s = .error error' s') :
    Halts load r (some ⟨error, s.offset, s.records⟩) s'
  | stuck {r s s' : Reader} {error : LogError} (read : Event.read load r = .error error s)
    (skip : skipRecord s = .ok () s') (still : ¬ s'.rest.length < r.rest.length) :
    Halts load r (some ⟨error, s.offset, s.records⟩) s'

namespace Passes

variable {r s t : Reader} {events events' : List Event} {skipped skipped' : List SkippedRecord}
  {fatal : Option ReadFailure}

theorem trans (first : Passes load r events skipped s) (next : Passes load s events' skipped' t) :
    Passes load r (events ++ events') (skipped ++ skipped') t := by
  induction first with
  | here => exact next
  | read first _ ih => exact .read first (ih next)
  | skipped first skip ahead _ ih => exact .skipped first skip ahead (ih next)

theorem within (passes : Passes load r events skipped s) (halts : Halts load s fatal t) (log : Log)
    (before : List SkippedRecord) {bound : Nat} (enough : r.rest.length < bound) :
    Reading.within load .skipBad bound ⟨log, before, none, r⟩ =
      ⟨⟨log.events ++ events⟩, before ++ skipped, fatal, t⟩ := by
  induction passes generalizing log before bound with
  | here r =>
    obtain ⟨bound, rfl⟩ : ∃ k, bound = k + 1 := ⟨bound - 1, by omega⟩
    rw [Reading.within]
    cases halts with
    | ended read => simp [read]
    | broken read skip => simp [read, skip]
    | stuck read skip still => simp [read, skip, still]
  | @read r s t e events skipped first more ih =>
    obtain ⟨bound, rfl⟩ : ∃ k, bound = k + 1 := ⟨bound - 1, by omega⟩
    have shorter := (Event.read_shorter first).2.2
    have rest := ih halts (log.push e) before (show s.rest.length < bound by omega)
    rw [Reading.within]
    simp only [first, rest]
    simp [Log.push]
  | skipped first skip ahead more ih =>
    obtain ⟨bound, rfl⟩ : ∃ k, bound = k + 1 := ⟨bound - 1, by omega⟩
    rw [Reading.within]
    simp only [first, skip, ahead, if_true, ih halts log _ (show _ < bound by omega)]
    simp

/-- **Reading to the end is to go the way of a tolerant reader.** -/
theorem toEnd (passes : Passes load r events skipped s) (halts : Halts load s fatal t) :
    (Reading.start r).toEnd load .skipBad = ⟨⟨events.toArray⟩, skipped, fatal, t⟩ := by
  refine (passes.within halts .empty [] (Nat.lt_succ_self _)).trans ?_
  simp [Log.empty]

end Passes

/-- There is always a way, and it ends. -/
theorem exists_passes (load : Loader) (r : Reader) : ∃ events skipped s fatal t,
    Passes load r events skipped s ∧ Halts load s fatal t := by
  induction size : r.rest.length using Nat.strongRecOn generalizing r with
  | ind n ih =>
    subst size
    cases read : Event.read load r with
    | ok found s =>
      cases found with
      | none => exact ⟨[], [], r, none, s, .here r, .ended read⟩
      | some e =>
        obtain ⟨events, skipped, t, fatal, u, passes, halts⟩ :=
          ih _ (Event.read_shorter read).2.2 s rfl
        exact ⟨e :: events, skipped, t, fatal, u, .read read passes, halts⟩
    | error error s =>
      cases skip : skipRecord s with
      | error error' s' => exact ⟨[], [], r, _, s', .here r, .broken read skip⟩
      | ok _ s' =>
        by_cases ahead : s'.rest.length < r.rest.length
        · obtain ⟨events, skipped, t, fatal, u, passes, halts⟩ := ih _ ahead s' rfl
          exact ⟨events, _, t, fatal, u, .skipped read skip ahead passes, halts⟩
        · exact ⟨[], [], r, _, s', .here r, .stuck read skip ahead⟩

/-- At an end marker a tolerant reader ends in peace, also if the marker does not count the records:
then it leaves the marker out as if it were a record. -/
theorem Reader.ends_at_marker {r : Reader} (isEnd : r.ending = .endOfInput)
    (inRecords : r.inRecords = true) {count : Nat} (countable : count < UInt64.size)
    (stands : r.rest = Wire.endMarker count) :
    ∃ skipped s t, Passes load r [] skipped s ∧ Halts load s none t := by
  have ended := startRecord_endMarker isEnd inRecords countable stands
  let behind : Reader := { r with rest := [10], inRecords := false }
  by_cases counted : count = r.records
  · rw [if_pos counted] at ended
    have read : Event.read load r = .ok none behind := by
      rw [Event.read_eq, bind_run, ended]
      rfl
    exact ⟨[], r, behind, .here r, .ended read⟩
  · rw [if_neg counted] at ended
    have read : Event.read load r = .error (.recordCountMismatch count r.records) behind := by
      rw [Event.read_eq, bind_run, ended]
    have skip := skipRecord_run (r := behind) isEnd
    have ahead : [10].length < r.rest.length := by
      rw [stands]
      simp [Wire.endMarker]
    exact ⟨_, _, _, .skipped read skip ahead (.here _), .ended (Event.read_outside load rfl)⟩

end Retrace
