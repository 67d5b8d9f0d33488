import Retrace.Proofs.Log.Exactness
import Retrace.Proofs.Log.ReadingOn

/-!
# What it means that there is no further record

A reader is asked for the next record and answers that there is none. That should mean that it has
taken the end marker, and that the marker counts the records; and it does, whatever was asked of the
reader before and whatever has failed (`Reader.end_is_marked`), but for one case. Looking for the
end marker takes the reader out of the records at once. If the marker is torn or wrong, that is an
error, and a reader that is asked again after this error answers that there is no further record.

A tolerant reader does ask again. It counts the end marker among the records that it left out, as
the last of them, and ends in peace.
-/

namespace Retrace

open Grammar

namespace Reader

/-! ## What is asked of a reader -/

/-- A piece of a record. -/
inductive Piece where
  | header
  | mark (c : Char)
  | key (k : Key)
  | keyed {α : Type} (k : Key) (s : Scalar α)
  | scalar {α : Type} (s : Scalar α)
  | text (k : Key)
  | sequenceStart (k : Key)
  | nullOrObject
  | bytes
  | value
  | keyedValue (k : Key)
  | values

/-- Takes a piece of a record. What it holds is of no interest here. -/
def Piece.read : Piece → ReadM Unit
  | header => (fun _ => ()) <$> recordHeader
  | mark c => expect c
  | key k => Reader.key k
  | keyed k s => (fun _ => ()) <$> Reader.keyed k s
  | scalar s => (fun _ => ()) <$> Reader.scalar s
  | text k => (fun _ => ()) <$> keyedText k
  | sequenceStart k => Reader.sequenceStart k
  | nullOrObject => (fun _ => ()) <$> Reader.nullOrObject
  | bytes => (fun _ => ()) <$> Reader.bytes
  | value => (fun _ => ()) <$> Reader.value
  | keyedValue k => (fun _ => ()) <$> Reader.keyedValue k
  | values => (fun _ => ()) <$> Reader.values

theorem Piece.steady (piece : Piece) : Steady piece.read piece.read := by
  cases piece with
  | header => exact .map _ recordHeader_steady
  | mark c => exact expect_steady c
  | key k => exact key_steady k
  | keyed k s => exact .map _ (keyed_steady k s)
  | scalar s => exact .map _ (scalar_steady s)
  | text k => exact .map _ (keyedText_steady k)
  | sequenceStart k => exact sequenceStart_steady k
  | nullOrObject => exact .map _ nullOrObject_steady
  | bytes => exact .map _ bytes_steady
  | value => exact .map _ value_steady
  | keyedValue k => exact .map _ (keyedValue_steady k)
  | values => exact .map _ values_steady

/-- What can be asked of a reader that has begun with a log. -/
inductive Request where
  | startRecord
  | skipRecord
  /-- To take a piece of a record, and the comma before it if it is not the first one. -/
  | read (first : Bool) (piece : Piece)

def Request.run : Request → ReadM Unit
  | startRecord => (fun _ => ()) <$> Reader.startRecord
  | skipRecord => Reader.skipRecord
  | read first piece => do
    if !first then expect ','
    piece.read

/-- The reader after requests, whatever came of them. -/
def after (r : Reader) : List Request → Reader
  | [] => r
  | request :: requests => (final (request.run r)).after requests

theorem after_append (r : Reader) (requests more : List Request) :
    r.after (requests ++ more) = (r.after requests).after more := by
  induction requests generalizing r with
  | nil => rfl
  | cons request requests ih => exact ih _

variable {α β : Type} {r s input : Reader} {w : Bytes}

theorem read_steady (first : Bool) (piece : Piece) :
    Steady (Request.read first piece).run (Request.read first piece).run := by
  cases first with
  | false => exact (expect_steady ',').bind fun _ => piece.steady
  | true => exact piece.steady

theorem final_skipRecord (r : Reader) : ∃ rest commaSkipped, rest <:+ r.rest ∧
    final (skipRecord r) = { r with rest, commaSkipped } := by
  have suffix := List.dropWhile_suffix (l := r.rest) (· ≠ 10)
  simp only [skipRecord, bind_run get, get_run, bind_run (set _), set_run]
  rw [bind_run]
  have stays := final_checkEnding { r with rest := r.rest.dropWhile (· ≠ 10) }
  cases stands : checkEnding { r with rest := r.rest.dropWhile (· ≠ 10) } with
  | ok _ s =>
    rw [stands] at stays
    obtain rfl : s = _ := stays
    exact ⟨_, _, suffix, rfl⟩
  | error e s =>
    rw [stands] at stays
    obtain rfl : s = _ := stays
    exact ⟨_, r.commaSkipped, suffix, rfl⟩

/-! ## The end marker -/

/-- What is taken is a word, in whatever way the input ends. -/
theorem Accepts.taken {follow : Bytes → Prop} {m : ReadM α} {L : α → Language UInt8}
    {a : α} (accepts : Accepts follow m L) (steady : Steady m m) (ran : m r = .ok a s) :
    ∃ w ∈ L a, r.rest = w ++ s.rest := by
  have beside : Beside [] r { r with ending := .endOfInput } :=
    ⟨(List.append_nil _).symm, rfl, rfl, rfl, Iff.rfl, Or.inl rfl⟩
  rcases steady.beside [] r _ beside with starved | alike
  · rw [ran] at starved
    exact starved.elim
  · rw [ran] at alike
    rcases alike.cases with ⟨_, _, _, t, same, ran', rfl, after⟩ | ⟨_, _, _, _, failed, _⟩
    · cases same
      obtain ⟨w, mem, rest, split, rfl⟩ := accepts.sound ran' rfl
      have same : rest = s.rest ++ [] := after.rest
      exact ⟨w, mem, by rw [split, same, List.append_nil]⟩
    · cases failed

theorem declared_steady : Steady declared declared :=
  (expect_steady ',').bind fun _ => (keyed_steady .endOfLog .u64).bind fun count =>
    (expect_steady '}').bind fun _ => .pure count

/-- From the end marker on the reader is not among the records, also if the marker is wrong. -/
theorem finishLog_onward (r : Reader) :
    Onward { r with inRecords := false } (final (finishLog r)) := by
  rw [finishLog_eq]
  refine final_bind (declared_steady.onward _) fun count s _ moved => ?_
  rw [bind_run, get_run]
  dsimp only
  split <;> exact moved

theorem finishLog_taken (finished : finishLog r = .ok () s) : ∃ count : UInt64,
    count.toNat = r.records ∧ ∃ w ∈ mark ',' * (Grammar.keyed .endOfLog .u64 count * mark '}'),
      r.rest = w ++ s.rest := by
  rw [finishLog_eq] at finished
  obtain ⟨count, t, taken, finished⟩ := ok_of_bind finished
  obtain ⟨w, mem, split⟩ := declared_accepts.taken declared_steady taken
  have moved := declared_steady.onward { r with inRecords := false }
  rw [taken] at moved
  obtain ⟨rest, -, rfl⟩ := moved.exists_rest
  by_cases same : count.toNat = r.records
  · obtain rfl : { r with rest, inRecords := false } = s := by simpa [same] using finished
    exact ⟨count, same, w, mem, split⟩
  · simp [same] at finished

/-- The reader has come past an end marker, somewhere in an input, that counts its records. -/
structure Ended (whole : Bytes) (r : Reader) : Prop where
  outside : r.inRecords = false
  marked : ∃ before marker behind, marker ∈ endMarker r.records ∧
    whole = before ++ marker ++ behind ++ r.rest

theorem Ended.onward {whole rest : Bytes} (h : Ended whole r) (suffix : rest <:+ r.rest)
    (commaSkipped : Bool) : Ended whole { r with rest, commaSkipped } := by
  obtain ⟨before, marker, behind, isMarker, split⟩ := h.marked
  obtain ⟨more, same⟩ := suffix
  refine ⟨h.outside, before, marker, behind ++ more, isMarker, ?_⟩
  rw [split, ← same]
  simp only [List.append_assoc]

theorem Ended.within {whole part : Bytes} (h : Ended part r) (suffix : part <:+ whole) :
    Ended whole r := by
  obtain ⟨before, marker, behind, isMarker, split⟩ := h.marked
  obtain ⟨more, rfl⟩ := suffix
  refine ⟨h.outside, more ++ before, marker, behind, isMarker, ?_⟩
  rw [split]
  simp only [List.append_assoc]

/-- There is an end marker before the reader, but it cannot be read, or does not count the records.
-/
def BadMarker (r : Reader) (failure : ReadFailure) : Prop :=
  r.Closing ∧ ∃ s, startRecord r = .error failure.error s ∧
    failure = ⟨failure.error, s.offset, s.records⟩

/-- What the reader meets at the closing bracket. -/
theorem startRecord_ends (closing : r.Closing) :
    (∃ s, startRecord r = .ok false s ∧ s.Ended r.rest) ∨
      ∃ e s, startRecord r = .error e s ∧ s.inRecords = false ∧ s.rest <:+ r.rest := by
  obtain ⟨more, stands, run⟩ := startRecord_of_closing closing
  have blanks := List.takeWhile_append_dropWhile (p := Bytes.isBlank) (l := r.rest)
  rw [stands] at blanks
  have moved := finishLog_onward { r with rest := more }
  rw [run, bind_run]
  cases finished : finishLog { r with rest := more } with
  | ok _ s =>
    obtain ⟨count, same, w, mem, split⟩ := finishLog_taken finished
    rw [finished] at moved
    obtain ⟨rest, -, rfl⟩ := moved.exists_rest
    refine Or.inl ⟨_, rfl, rfl, [], r.rest.takeWhile Bytes.isBlank ++ [93] ++ w, [], ?_, ?_⟩
    · refine ⟨count, same, ?_⟩
      simp only [mul_assoc]
      exact Language.append_mem_mul (Language.append_mem_mul (takeWhile_mem_blanks r.rest) rfl) mem
    · refine blanks.symm.trans ?_
      rw [show more = w ++ rest from split]
      simp
  | error e s =>
    rw [finished] at moved
    obtain ⟨rest, suffix, rfl⟩ := moved.exists_rest
    exact Or.inr ⟨e, _, rfl, rfl,
      suffix.trans ((List.suffix_cons 93 more).trans ⟨_, blanks⟩)⟩

/-! ## One request after the other -/

theorem final_map (m : ReadM α) (f : α → β) (r : Reader) : final ((f <$> m) r) = final (m r) := by
  rw [map_run]
  cases m r <;> rfl

theorem startRecord_suffix (r : Reader) : (final (startRecord r)).rest <:+ r.rest := by
  cases inRecords : r.inRecords with
  | false =>
    rw [startRecord_ended inRecords]
    exact List.suffix_rfl
  | true =>
    by_cases closing : r.Closing
    · rcases startRecord_ends closing with ⟨s, ran, ended⟩ | ⟨e, s, ran, -, suffix⟩
      · obtain ⟨before, marker, behind, -, split⟩ := ended.marked
        rw [ran]
        exact ⟨_, split.symm⟩
      · rw [ran]
        exact suffix
    · have opened := startRecord_opened inRecords closing
      generalize startRecord r = result at opened
      cases opened with
      | opened rest suffix | failed e rest suffix => exact suffix

theorem after_suffix (r : Reader) (requests : List Request) :
    (r.after requests).rest <:+ r.rest := by
  induction requests generalizing r with
  | nil => exact List.suffix_rfl
  | cons request requests ih =>
    refine (ih _).trans ?_
    cases request with
    | startRecord =>
      rw [Request.run, final_map]
      exact startRecord_suffix r
    | skipRecord =>
      obtain ⟨rest, commaSkipped, suffix, ran⟩ := final_skipRecord r
      rw [Request.run, ran]
      exact suffix
    | read first piece => exact ((read_steady first piece).onward r).rest

/-- Where a reader can be after requests. -/
inductive Standing (r : Reader) (requests : List Request) : Prop
  | among (inRecords : (r.after requests).inRecords = true)
  | ended (ended : (r.after requests).Ended r.rest)
  | failed (earlier later : List Request) (failure : ReadFailure)
    (split : requests = earlier ++ .startRecord :: later)
    (bad : (r.after earlier).BadMarker failure)

/-- A request leads from where a reader can be to where it can be. -/
theorem Standing.step {requests : List Request} (h : Standing r requests) (request : Request) :
    Standing r (requests ++ [request]) := by
  have behind : r.after (requests ++ [request]) = final (request.run (r.after requests)) :=
    after_append r requests [request]
  have suffix := r.after_suffix requests
  cases h with
  -- a bad end marker that was met once has been met, whatever is asked later
  | failed earlier later failure split bad =>
    exact .failed earlier (later ++ [request]) failure (by simp [split]) bad
  -- only a request for the next record can leave the records, and only at the closing bracket
  | among inRecords =>
    cases request with
    | read first piece =>
      obtain ⟨rest, -, same⟩ := ((read_steady first piece).onward (r.after requests)).exists_rest
      exact .among (by rw [behind, same]; exact inRecords)
    | skipRecord =>
      obtain ⟨rest, commaSkipped, -, same⟩ := final_skipRecord (r.after requests)
      exact .among (by rw [behind, Request.run, same]; exact inRecords)
    | startRecord =>
      rw [Request.run, final_map] at behind
      by_cases closing : (r.after requests).Closing
      · rcases startRecord_ends closing with ⟨s, ran, ended⟩ | ⟨e, s, ran, -, -⟩
        · rw [ran] at behind
          exact .ended (behind ▸ ended.within suffix)
        · exact .failed requests [] ⟨e, s.offset, s.records⟩ rfl ⟨closing, s, ran, rfl⟩
      · have opened := startRecord_opened inRecords closing
        refine .among ?_
        rw [behind]
        generalize startRecord (r.after requests) = result at opened
        cases opened with
        | opened | failed => exact inRecords
  -- out of the records no request begins another one
  | ended ended =>
    refine .ended ?_
    rw [behind]
    cases request with
    | read first piece =>
      obtain ⟨rest, suffix, same⟩ :=
        ((read_steady first piece).onward (r.after requests)).exists_rest
      rw [same]
      exact ended.onward suffix _
    | skipRecord =>
      obtain ⟨rest, commaSkipped, suffix, same⟩ := final_skipRecord (r.after requests)
      rw [Request.run, same]
      exact ended.onward suffix commaSkipped
    | startRecord =>
      rw [Request.run, final_map, startRecord_ended ended.outside]
      exact ended

theorem standing (inRecords : r.inRecords = true) (requests : List Request) :
    Standing r requests := by
  induction requests using List.reverseRecOn with
  | nil => exact .among inRecords
  | append_singleton requests request ih => exact ih.step request

/-- Among the records, only an end marker makes a reader say that there is no further record. -/
theorem ended_of_startRecord (inRecords : r.inRecords = true)
    (none : startRecord r = .ok false s) : s.Ended r.rest := by
  by_cases closing : r.Closing
  · rcases startRecord_ends closing with ⟨s', ran, ended⟩ | ⟨e, s', ran, -⟩
    · rw [ran] at none
      cases none
      exact ended
    · rw [ran] at none
      cases none
  · have opened := startRecord_opened inRecords closing
    rw [none] at opened
    cases opened

/-! ## Reading tolerantly -/

end Reader

namespace Passes

open Reader

variable {load : Loader} {r s : Reader} {events : List Event} {skipped : List SkippedRecord}

/-- Out of the records a tolerant reader goes nowhere. -/
theorem eq_here (passes : Passes load r events skipped s) (outside : r.inRecords = false) :
    skipped = [] ∧ s = r := by
  have none := Event.read_outside load outside
  cases passes with
  | here => exact ⟨rfl, rfl⟩
  | read first => cases none.symm.trans first
  | skipped first => cases none.symm.trans first

/-- A tolerant reader that has met a bad end marker has left it out, as the last record. -/
theorem among_or_bad (passes : Passes load r events skipped s) (inRecords : r.inRecords = true) :
    s.rest <:+ r.rest ∧ (s.inRecords = true ∨ ∃ last ∈ skipped.getLast?, ∃ t : Reader,
      t.rest <:+ r.rest ∧ t.BadMarker last.failure) := by
  induction passes with
  | here r => exact ⟨List.suffix_rfl, Or.inl inRecords⟩
  | read first more ih =>
    obtain ⟨_, others, _⟩ := Event.read_shorter first
    obtain ⟨rest, records, commaSkipped, suffix, -, same⟩ :=
      Event.final_read load inRecords others
    rw [first] at same
    obtain rfl := same
    obtain ⟨behind, rest⟩ := ih inRecords
    refine ⟨behind.trans suffix, rest.imp_right ?_⟩
    rintro ⟨last, isLast, t, further, bad⟩
    exact ⟨last, isLast, t, further.trans suffix, bad⟩
  | @skipped r s s' t error events skipped first skip ahead more ih =>
    obtain ⟨rest', commaSkipped', suffix', same'⟩ := final_skipRecord s
    rw [skip] at same'
    obtain rfl := same'
    -- at the bracket it is the end marker that failed, and nothing is read after it
    by_cases closing : r.Closing
    · have failed := Event.read_error_of_closing closing first
      rcases startRecord_ends closing with ⟨_, ran, _⟩ | ⟨_, _, ran, outside, suffix⟩
      · cases ran.symm.trans failed
      · cases ran.symm.trans failed
        obtain ⟨rfl, rfl⟩ := more.eq_here outside
        exact ⟨suffix'.trans suffix, Or.inr ⟨_, rfl, r, List.suffix_rfl, closing, s, failed, rfl⟩⟩
    · obtain ⟨rest, records, commaSkipped, suffix, -, same⟩ :=
        Event.final_read load inRecords closing
      rw [first] at same
      obtain rfl := same
      obtain ⟨behind, end_⟩ := ih inRecords
      refine ⟨behind.trans (suffix'.trans suffix), end_.imp_right ?_⟩
      rintro ⟨last, isLast, u, further, bad⟩
      refine ⟨last, ?_, u, further.trans (suffix'.trans suffix), bad⟩
      rw [List.getLast?_cons, Option.mem_def.1 isLast]
      rfl

end Passes

namespace Reader

theorem beginLog_begun {version : UInt32} {input r : Reader}
    (begun : beginLog input = .ok version r) : r.inRecords = true ∧ r.rest <:+ input.rest := by
  have steady : Steady versioned versioned := by
    refine (expect_steady '{').bind fun _ => (keyed_steady .version .u32).bind fun version =>
      .ite ?_ ?_
    · exact Steady.bind (.fail rfl) fun _ => (expect_steady ',').bind fun _ =>
        (sequenceStart_steady .actions).bind fun _ => .pure version
    · exact (expect_steady ',').bind fun _ => (sequenceStart_steady .actions).bind fun _ =>
        .pure version
  rw [beginLog_eq] at begun
  obtain ⟨version, s, taken, begun⟩ := ok_of_bind begun
  have moved := steady.onward input
  rw [taken] at moved
  cases begun
  exact ⟨rfl, moved.rest⟩

/-- **That there is no further record means that the end marker was verified**, or that it was met
    before and found bad. Take a reader that has begun with a log, over any input.

    Whatever is asked of it, in whatever order and with whatever outcome: when it answers that there
    is no further record, there is an end marker in what it has taken, and the marker declares just
    the records that were started; or the reader has failed at an end marker before.

    So it is for reading tolerantly: it ends in peace at such a marker, or else the last record that
    it left out is in truth an end marker that is torn or miscounts. -/
theorem end_is_marked {version : UInt32} {input r : Reader}
    (begun : beginLog input = .ok version r) :
    (∀ (requests : List Request) (s : Reader), startRecord (r.after requests) = .ok false s →
      s.Ended input.rest ∨ ∃ earlier later failure, requests = earlier ++ .startRecord :: later ∧
        (r.after earlier).BadMarker failure) ∧
    ∀ load : Loader, ((Reading.start r).toEnd load .skipBad).fatal = none →
      ((Reading.start r).toEnd load .skipBad).reader.Ended input.rest ∨
        ∃ last ∈ ((Reading.start r).toEnd load .skipBad).skipped.getLast?, ∃ t : Reader,
          t.rest <:+ input.rest ∧ t.BadMarker last.failure := by
  obtain ⟨inRecords, suffix⟩ := beginLog_begun begun
  constructor
  · intro requests s none
    cases standing inRecords requests with
    | among inRecords =>
      exact Or.inl ((ended_of_startRecord inRecords none).within
        ((r.after_suffix requests).trans suffix))
    | ended ended =>
      rw [startRecord_ended ended.outside] at none
      cases none
      exact Or.inl (ended.within suffix)
    | failed earlier later failure split bad => exact Or.inr ⟨earlier, later, failure, split, bad⟩
  · intro load none
    obtain ⟨events, skipped, s, fatal, t, passes, halts⟩ := exists_passes load r
    rw [passes.toEnd halts] at none ⊢
    obtain rfl : fatal = Option.none := none
    obtain ⟨behind, inRecords | ⟨last, isLast, u, further, bad⟩⟩ := passes.among_or_bad inRecords
    · cases halts with
      | ended read =>
        exact Or.inl ((ended_of_startRecord inRecords (Event.read_none read)).within
          (behind.trans suffix))
    · exact Or.inr ⟨last, isLast, u, further.trans suffix, bad⟩

/-- An end marker is there to be found: somewhere in the bytes there is its bracket, from where on
    finishing succeeds. -/
theorem finishLog_of_marked {count : Nat} {marker : Bytes} (before behind : Bytes)
    (isMarker : marker ∈ endMarker count) : ∃ i < (before ++ marker ++ behind).length,
      (before ++ marker ++ behind)[i]? = some 93 ∧ ∃ s,
        finishLog { ofBytes ((before ++ marker ++ behind).drop (i + 1)) with records := count } =
          .ok () s := by
  obtain ⟨declared, same, mem⟩ := isMarker
  simp only [mul_assoc] at mem
  obtain ⟨_, isBracket, v, isDeclared, rfl⟩ := Language.mem_mul.1 mem
  obtain ⟨blank, -, _, rfl, rfl⟩ := Language.mem_mul.1 isBracket
  have split : before ++ (blank ++ Bytes.ascii [']'] ++ v) ++ behind =
      (before ++ blank) ++ 93 :: (v ++ behind) := by
    simp [show Bytes.ascii [']'] = [93] from rfl]
  rw [split]
  refine ⟨(before ++ blank).length, by simp, by simp, ?_⟩
  have rest : ((before ++ blank) ++ 93 :: (v ++ behind)).drop ((before ++ blank).length + 1) =
      v ++ behind := by
    rw [List.drop_append]
    simp
  rw [rest]
  exact ⟨_, (finishLog_iff (r := { ofBytes (v ++ behind) with records := count }) rfl).2
    ⟨declared, same, v, isDeclared, behind, rfl, rfl⟩⟩

/-- The bytes of a log without records whose end marker declares some number of them. -/
def emptyDeclaring (count : Nat) : Bytes := Wire.logStart ++ Wire.endMarker count

theorem emptyDeclaring_begun (count : Nat) : ∃ r : Reader,
    beginLog (.ofBytes (emptyDeclaring count)) = .ok formatVersion r ∧
      r.Among ∧ r.records = 0 ∧ r.rest = Wire.endMarker count := by
  obtain ⟨r, begun, among, none⟩ := beginLog_run (Wire.endMarker count)
  exact ⟨_, begun, ⟨among.ending, among.inRecords, among.noneSkipped⟩, none, rfl⟩

/-- Where no record is declared and there is none, the marker is found. -/
theorem emptyDeclaring_ended : ∃ r s : Reader,
    beginLog (.ofBytes (emptyDeclaring 0)) = .ok formatVersion r ∧
      startRecord (r.after []) = .ok false s ∧ s.Ended (emptyDeclaring 0) := by
  obtain ⟨r, begun, among, none, stands⟩ := emptyDeclaring_begun 0
  have ended := startRecord_endMarker among.ending among.inRecords (by decide) stands
  rw [if_pos none.symm] at ended
  refine ⟨r, _, begun, ended, ?_⟩
  rcases (end_is_marked begun).1 [] _ ended with marked | ⟨earlier, _, _, split, -⟩
  · exact marked
  · cases earlier <;> cases split

/-- **The marker need not be right.** The end marker declares three records, and there are none.
    Asked for a record, the reader reports that; asked again, it answers that there is no further
    one, though no end marker in the log declares as many as were read. A tolerant reader asks
    again, and has nothing fatal to report. -/
theorem emptyDeclaring_passed_over : ∃ r s : Reader,
    beginLog (.ofBytes (emptyDeclaring 3)) = .ok formatVersion r ∧
      startRecord (r.after [.startRecord]) = .ok false s ∧ ¬ s.Ended (emptyDeclaring 3) ∧
      ((Reading.start r).toEnd (fun _ => .ok "") .skipBad).fatal = none := by
  obtain ⟨r, begun, among, fresh, stands⟩ := emptyDeclaring_begun 3
  let s : Reader := { r with rest := [10], inRecords := false }
  have failed : startRecord r = .error (.recordCountMismatch 3 r.records) s :=
    (startRecord_endMarker among.ending among.inRecords (by decide) stands).trans
      (if_neg (by simp [fresh]))
  have after_ : r.after [.startRecord] = s := by
    rw [after, after, Request.run, final_map, failed]
    rfl
  refine ⟨r, s, begun, ?_, ?_, ?_⟩
  · rw [after_]
    exact startRecord_ended rfl
  · intro ended
    obtain ⟨before, marker, behind, isMarker, split⟩ := ended.marked
    rw [show s.records = 0 from fresh] at isMarker
    obtain ⟨i, inside, bracket, t, finished⟩ :=
      finishLog_of_marked before (behind ++ [10]) isMarker
    rw [← List.append_assoc, show before ++ marker ++ behind ++ [10] = emptyDeclaring 3 from
      split.symm] at inside bracket finished
    have wrong : ∀ i < (emptyDeclaring 3).length, (emptyDeclaring 3)[i]? = some 93 →
        (match finishLog (ofBytes ((emptyDeclaring 3).drop (i + 1))) with
          | .ok _ _ => true
          | .error _ _ => false) = false := by
      decide +kernel
    have fails := wrong i inside bracket
    rw [show finishLog (ofBytes ((emptyDeclaring 3).drop (i + 1))) = .ok () t from finished] at fails
    cases fails
  · obtain ⟨_, _, _, passes, halts⟩ :=
      ends_at_marker among.ending among.inRecords (by decide) stands
    rw [passes.toEnd halts]

end Reader

end Retrace
