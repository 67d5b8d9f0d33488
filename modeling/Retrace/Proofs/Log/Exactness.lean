import Retrace.Log.Reading
import Retrace.Proofs.Wire.RecordAcceptance

/-!
# A log is read just from its renderings

`Log.read_eq_ok_iff` says what reading accepts: bytes that begin with a rendering of a log are read
as this log, and all others are refused.

The grammar has no counters, but the reader has: it counts the records, to know which of them has no
comma before it and to check the end marker. `Grammar.remaining` is what the reader still has to
find when it has counted so many, and an event is read just where a rendering of the event is taken
off the front of it (`Event.read_eq_some`, `Event.read_eq_none`). The whole log follows by induction
over the events, in one direction, and over the reader's bound in the other.
-/

namespace Retrace

open Grammar Reader

variable {load : Loader}

/-! ## The frame of a record -/

namespace Reader

variable {r r' : Reader} {w rest : Bytes}

/-- What a record opens with, when so many have come before it. -/
def opening (before : Nat) : Language UInt8 :=
  if before = 0 then mark '{' else mark ',' * mark '{'

theorem object_accepts : Accepts Anything (expect '{') fun _ => mark '{' :=
  expect_accepts (by decide) (by decide)

/-- Takes what a record opens with. -/
def opens (before : Nat) : ReadM Unit :=
  if before = 0 then expect '{' else do expect ','; expect '{'

theorem opens_accepts (before : Nat) : Accepts Anything (opens before) fun _ => opening before := by
  unfold opens opening
  split
  · exact object_accepts
  · exact comma_accepts.seq object_accepts

/-- What the reader stands before, behind any blanks, decides whether there is a record. -/
theorem startRecord_eq (among : r.Among) : startRecord r =
    match r.rest.dropWhile Bytes.isBlank with
    | [] => .error (.unexpectedEnd r.total) { r with rest := [] }
    | b :: more =>
      if b = 93 then (finishLog >>= fun _ => pure false) { r with rest := more }
      else
        (opens r.records >>= fun _ => modify (fun r => { r with records := r.records + 1 }) >>=
          fun _ => pure true) { r with rest := b :: more } := by
  obtain ⟨left, ending, total, records, inRecords, commaSkipped⟩ := r
  obtain ⟨rfl, rfl, rfl⟩ := among
  have drops := skipBlanks_drops (r := ⟨left, .endOfInput, total, records, true, false⟩) rfl
  have stands (rest : Bytes) : checkEnding ⟨rest, .endOfInput, total, records, true, false⟩ =
      .ok () ⟨rest, .endOfInput, total, records, true, false⟩ := checkEnding_run rfl
  simp only [startRecord, bind_run, get_run, Bool.not_true, Bool.false_eq_true, if_false, drops,
    peek?, stands, pure_run]
  cases left.dropWhile Bytes.isBlank with
  | nil => rfl
  | cons b more =>
    simp only [List.head?_cons, opens]
    split
    · simp only [bind_run, next, stands, get_run]
      rfl
    · cases records with
      | zero => rfl
      | succ n =>
        simp only [bind_run, get_run, Nat.succ_ne_zero, if_false, Nat.zero_lt_succ, and_self, if_true]
        cases comma : expect ',' ⟨b :: more, .endOfInput, total, n + 1, true, false⟩ with
        | error e s => rfl
        | ok u s =>
          obtain ⟨w, -, rest, -, rfl⟩ := comma_accepts.sound comma rfl
          rfl

/-- A record opens with something that is no closing bracket, behind any blanks. -/
theorem opening_shape {before : Nat} (mem : w ∈ opening before) : ∃ blank ∈ blanks, ∃ b more,
    w = blank ++ b :: more ∧ Bytes.isBlank b = false ∧ b ≠ 93 ∧ b :: more ∈ opening before := by
  unfold opening at mem ⊢
  split at mem
  case isTrue first =>
    obtain ⟨blank, isBlank, _, rfl, rfl⟩ := Language.mem_mul.1 mem
    rw [if_pos first]
    exact ⟨blank, isBlank, 123, [], rfl, by decide, by decide, mem_blanks_mul rfl⟩
  case isFalse more =>
    obtain ⟨_, isComma, v, isBrace, rfl⟩ := Language.mem_mul.1 mem
    obtain ⟨blank, isBlank, _, rfl, rfl⟩ := Language.mem_mul.1 isComma
    rw [if_neg more]
    refine ⟨blank, isBlank, 44, v, by simp [Bytes.ascii], by decide, by decide, ?_⟩
    exact Language.append_mem_mul (a := [44]) (mem_blanks_mul rfl) isBrace

theorem blanks_mul_opening (before : Nat) : blanks * opening before = opening before := by
  unfold opening
  split <;> simp only [mark, ← mul_assoc, blanks_mul_blanks]

theorem startRecord_true (among : r.Among) : startRecord r = .ok true r' ↔
    ∃ w ∈ opening r.records, ∃ rest,
      r.rest = w ++ rest ∧ r' = { r with rest, records := r.records + 1 } := by
  have split : r.rest = r.rest.takeWhile Bytes.isBlank ++ r.rest.dropWhile Bytes.isBlank :=
    List.takeWhile_append_dropWhile.symm
  rw [startRecord_eq among]
  constructor
  · intro ran
    -- the first byte that is not blank decides whether there is a record
    cases standing : r.rest.dropWhile Bytes.isBlank with
    | nil => simp [standing] at ran
    | cons b more =>
      simp only [standing] at ran
      split at ran
      · obtain ⟨_, _, -, ran⟩ := ok_of_bind ran
        simp at ran
      · obtain ⟨_, s, opened, ran⟩ := ok_of_bind ran
        obtain ⟨w, mem, rest, isWord, rfl⟩ := (opens_accepts r.records).sound opened among.ending
        obtain rfl : { r with rest, records := r.records + 1 } = r' := by simpa using ran
        -- the blanks that were skipped belong to the opening, which may begin with any
        refine ⟨r.rest.takeWhile Bytes.isBlank ++ w, ?_, rest, ?_, rfl⟩
        · rw [← blanks_mul_opening]
          exact Language.append_mem_mul (takeWhile_mem_blanks r.rest) mem
        · rw [List.append_assoc, ← isWord, ← standing]
          exact split
  · rintro ⟨w, mem, rest, isWord, rfl⟩
    obtain ⟨blank, isBlank, b, more, rfl, visible, other, isOpening⟩ := opening_shape mem
    have opened := (opens_accepts r.records).complete (a := ()) isOpening r rest among.ending
      trivial
    have standing : r.rest.dropWhile Bytes.isBlank = b :: (more ++ rest) := by
      rw [isWord, List.append_assoc, List.dropWhile_append_of_pos isBlank, List.cons_append,
        List.dropWhile_cons, visible]
      rfl
    rw [List.cons_append] at opened
    simp only [standing, other, if_false]
    rw [bind_run, opened]
    rfl

/-- Takes the number of records from an end marker, behind its bracket. -/
def declared : ReadM UInt64 := do
  expect ','
  let count ← keyed .endOfLog .u64
  expect '}'
  return count

theorem declared_accepts : Accepts Anything declared fun count =>
    mark ',' * (Grammar.keyed .endOfLog .u64 count * mark '}') :=
  comma_accepts.seq ((keyed_accepts .endOfLog .u64).closed brace_accepts (by decide))

theorem finishLog_eq (r : Reader) : finishLog r = (declared >>= fun count => get >>= fun r =>
    if count.toNat ≠ r.records then
      throw (.recordCountMismatch count.toNat r.records) else pure ())
    { r with inRecords := false } := by
  simp only [declared, bind_assoc, pure_bind]
  rfl

theorem finishLog_iff (isEnd : r.ending = .endOfInput) : finishLog r = .ok () r' ↔
    ∃ count : UInt64, count.toNat = r.records ∧
      ∃ w ∈ mark ',' * (Grammar.keyed .endOfLog .u64 count * mark '}'),
        ∃ rest, r.rest = w ++ rest ∧ r' = { r with rest, inRecords := false } := by
  rw [finishLog_eq]
  constructor
  · intro ran
    obtain ⟨count, s, taken, ran⟩ := ok_of_bind ran
    obtain ⟨w, mem, rest, isWord, rfl⟩ := declared_accepts.sound taken isEnd
    by_cases same : count.toNat = r.records
    · obtain rfl : { r with rest, inRecords := false } = r' := by simpa [same] using ran
      exact ⟨count, same, w, mem, rest, isWord, rfl⟩
    · simp [same] at ran
  · rintro ⟨count, same, w, mem, rest, isWord, rfl⟩
    have taken := declared_accepts.complete mem { r with inRecords := false } rest isEnd trivial
    rw [← isWord] at taken
    rw [bind_run, taken]
    simp [same]

theorem startRecord_false (among : r.Among) : startRecord r = .ok false r' ↔
    ∃ w ∈ endMarker r.records, ∃ rest,
      r.rest = w ++ rest ∧ r' = { r with rest, inRecords := false } := by
  have split : r.rest = r.rest.takeWhile Bytes.isBlank ++ r.rest.dropWhile Bytes.isBlank :=
    List.takeWhile_append_dropWhile.symm
  have bracket {blank : Bytes} (isBlank : blank ∈ blanks) : blank ++ [93] ∈ mark ']' :=
    Language.append_mem_mul isBlank rfl
  rw [startRecord_eq among]
  constructor
  · intro ran
    -- as for a record, but the byte must be the bracket
    cases standing : r.rest.dropWhile Bytes.isBlank with
    | nil => simp [standing] at ran
    | cons b more =>
      simp only [standing] at ran
      split at ran
      case isTrue isBracket =>
        subst isBracket
        obtain ⟨_, s, finished, ran⟩ := ok_of_bind ran
        obtain rfl : s = r' := by simpa using ran
        obtain ⟨count, same, w, mem, rest, rfl, rfl⟩ :=
          (finishLog_iff (r := { r with rest := more }) among.ending).1 finished
        refine ⟨r.rest.takeWhile Bytes.isBlank ++ [93] ++ w, ⟨count, same, ?_⟩, rest, ?_, rfl⟩
        · simp only [mul_assoc]
          exact Language.append_mem_mul (bracket (takeWhile_mem_blanks r.rest)) mem
        · rw [standing] at split
          simpa using split
      · obtain ⟨_, _, -, ran⟩ := ok_of_bind ran
        simp at ran
  · rintro ⟨w, ⟨count, same, mem⟩, rest, isWord, rfl⟩
    simp only [mul_assoc] at mem
    obtain ⟨_, isBracket, v, isDeclared, rfl⟩ := Language.mem_mul.1 mem
    obtain ⟨blank, isBlank, _, rfl, rfl⟩ := Language.mem_mul.1 isBracket
    have standing : r.rest.dropWhile Bytes.isBlank = 93 :: (v ++ rest) := by
      rw [isWord, List.append_assoc, List.append_assoc, List.dropWhile_append_of_pos isBlank]
      rfl
    have finished : finishLog { r with rest := v ++ rest } =
        .ok () { r with rest, inRecords := false } :=
      (finishLog_iff (r := { r with rest := v ++ rest }) among.ending).2
        ⟨count, same, v, isDeclared, rest, rfl, rfl⟩
    simp only [standing, if_true]
    rw [bind_run, finished]
    rfl

end Reader

/-! ## Events -/

namespace Event

variable {e : Event} {r r' : Reader}

/-- **A record is read just from its renderings.** -/
theorem read_eq_some (among : r.Among) : read load r = .ok (some e) r' ↔
    e.action.Stored load ∧ ∃ w ∈ opening r.records * e.inside, ∃ rest,
      r.rest = w ++ rest ∧ r' = { r with rest, records := r.records + 1 } := by
  constructor
  · intro ran
    rw [read_eq] at ran
    obtain ⟨found, s, started, ran⟩ := ok_of_bind ran
    cases found with
    | false => simp at ran
    | true =>
      obtain ⟨u, isOpening, behind, split, rfl⟩ := (startRecord_true among).1 started
      obtain ⟨v, mem, rest, split', rfl⟩ := inside_accepts.sound ran among.ending
      obtain ⟨_, ⟨⟨⟩, stored⟩, isInside⟩ := Language.mem_iSup.1 mem
      refine ⟨stored, u ++ v, Language.append_mem_mul isOpening isInside, rest, ?_, rfl⟩
      rw [split, show behind = v ++ rest from split', List.append_assoc]
  · rintro ⟨stored, w, mem, rest, isWord, rfl⟩
    obtain ⟨u, isOpening, v, isInside, rfl⟩ := Language.mem_mul.1 mem
    have started := (startRecord_true among).2
      ⟨u, isOpening, v ++ rest, isWord.trans (List.append_assoc u v rest), rfl⟩
    have isWord : v ∈ ⨆ d, provided (some e = some d ∧ d.action.Stored load) d.inside :=
      Language.mem_iSup.2 ⟨e, ⟨rfl, stored⟩, isInside⟩
    have taken := inside_accepts.complete isWord { r with records := r.records + 1 } rest
      among.ending trivial
    rw [read_eq, bind_run, started]
    exact taken

/-- **The end of the records is read just from the end marker**, with their number. -/
theorem read_eq_none (among : r.Among) : read load r = .ok none r' ↔
    ∃ w ∈ endMarker r.records, ∃ rest,
      r.rest = w ++ rest ∧ r' = { r with rest, inRecords := false } := by
  rw [← startRecord_false among]
  constructor
  · intro ran
    rw [read_eq] at ran
    obtain ⟨found, s, started, ran⟩ := ok_of_bind ran
    cases found with
    | false =>
      obtain rfl : s = r' := by simpa using ran
      exact started
    | true =>
      obtain ⟨u, -, behind, -, rfl⟩ := (startRecord_true among).1 started
      obtain ⟨v, mem, -⟩ := inside_accepts.sound ran among.ending
      obtain ⟨_, ⟨⟨⟩, -⟩, -⟩ := Language.mem_iSup.1 mem
  · intro started
    rw [read_eq, bind_run, started]
    rfl

end Event

/-! ## Logs -/

/-- The renderings of events that come after so many others, with the end marker behind them. -/
def Grammar.remaining (load : Loader) (before : Nat) (events : List Event) : Language UInt8 :=
  (if before = 0 then separated (Event.grammar load) events else more (Event.grammar load) events) *
    endMarker (before + events.length)

theorem Event.grammar_eq (e : Event) :
    e.grammar load = provided (e.action.Stored load) (mark '{' * e.inside) := by
  ext w
  simp only [Event.inside, ← mul_assoc]
  exact Iff.rfl

theorem Grammar.remaining_nil (before : Nat) : remaining load before [] = endMarker before := by
  cases before <;> simp [remaining, separated, more]

theorem Grammar.remaining_cons (before : Nat) (e : Event) (events : List Event) :
    remaining load before (e :: events) = provided (e.action.Stored load)
      (opening before * e.inside * remaining load (before + 1) events) := by
  have count : before + (events.length + 1) = before + 1 + events.length := by omega
  cases before with
  | zero =>
    simp only [remaining, opening, if_true, separated, List.length_cons, count, Event.grammar_eq,
      provided_mul, Nat.succ_ne_zero, if_false, mul_assoc]
  | succ n =>
    simp only [remaining, opening, Nat.succ_ne_zero, if_false, more_cons, List.length_cons, count,
      Event.grammar_eq, provided_mul, mul_provided, mul_assoc]

theorem Grammar.length_pos_of_opening {before : Nat} {w : Bytes} (mem : w ∈ opening before) :
    0 < w.length := by
  obtain ⟨blank, -, b, more, rfl, -⟩ := Reader.opening_shape mem
  simp only [List.length_append, List.length_cons]
  omega

namespace Reading

variable {r : Reader} {events : List Event} {w rest : Bytes}

/-- What events are rendered as, with the end marker behind them, is read as these events. -/
theorem within_of_rendered (among : r.Among) (mem : w ∈ remaining load r.records events)
    (isWord : r.rest = w ++ rest) (log : Log) {bound : Nat} (enough : r.rest.length < bound) :
    ∃ r', within load .strict bound ⟨log, [], none, r⟩ =
      ⟨⟨log.events ++ events⟩, [], none, r'⟩ := by
  -- each record takes some bytes, so the bound lasts until the end marker
  induction bound generalizing log r events w with
  | zero => exact absurd enough (Nat.not_lt_zero _)
  | succ bound ih =>
    cases events with
    | nil =>
      rw [remaining_nil] at mem
      have ended : Event.read load r = .ok none { r with rest, inRecords := false } :=
        (Event.read_eq_none among).2 ⟨w, mem, rest, isWord, rfl⟩
      rw [within]
      simp only [ended]
      exact ⟨_, rfl⟩
    | cons e events =>
      rw [remaining_cons] at mem
      obtain ⟨stored, mem⟩ := mem
      obtain ⟨u, isRecord, v, others, rfl⟩ := Language.mem_mul.1 mem
      have split : r.rest = u ++ (v ++ rest) := isWord.trans (List.append_assoc u v rest)
      have read := (Event.read_eq_some among).2 ⟨stored, u, isRecord, v ++ rest, split, rfl⟩
      obtain ⟨x, isOpening, y, -, rfl⟩ := Language.mem_mul.1 isRecord
      have taken := length_pos_of_opening isOpening
      have shorter : (v ++ rest).length < bound := by
        rw [split] at enough
        simp only [List.length_append] at enough ⊢
        omega
      obtain ⟨r', same⟩ := ih (r := { r with rest := v ++ rest, records := r.records + 1 })
        ⟨among.ending, among.inRecords, among.noneSkipped⟩ others rfl (log.push e) shorter
      rw [within]
      simp only [read, same]
      exact ⟨r', by simp [Log.push]⟩

/-- Events that were read up to the end marker were rendered by what was read. -/
theorem rendered_of_within (among : r.Among) (log : Log) {bound : Nat}
    (enough : r.rest.length < bound)
    (none_ : (within load .strict bound ⟨log, [], none, r⟩).fatal = none) :
    ∃ events, ∃ w ∈ remaining load r.records events, ∃ rest, r.rest = w ++ rest ∧
      (within load .strict bound ⟨log, [], none, r⟩).log = ⟨log.events ++ events⟩ := by
  induction bound generalizing log r with
  | zero => exact absurd enough (Nat.not_lt_zero _)
  | succ bound ih =>
    rw [within] at none_ ⊢
    cases read : Event.read load r with
    | error e s => simp [read] at none_
    | ok found s =>
      simp only [read] at none_ ⊢
      cases found with
      | none =>
        obtain ⟨w, mem, rest, isWord, rfl⟩ := (Event.read_eq_none among).1 read
        exact ⟨[], w, by rwa [remaining_nil], rest, isWord, by simp⟩
      | some e =>
        obtain ⟨stored, u, isRecord, behind, split, rfl⟩ := (Event.read_eq_some among).1 read
        obtain ⟨x, isOpening, y, isInside, rfl⟩ := Language.mem_mul.1 isRecord
        have taken := length_pos_of_opening isOpening
        have shorter : behind.length < bound := by
          rw [split] at enough
          simp only [List.length_append] at enough
          omega
        obtain ⟨events, w, mem, rest, isWord, same⟩ :=
          ih (r := { r with rest := behind, records := r.records + 1 })
            ⟨among.ending, among.inRecords, among.noneSkipped⟩ (log.push e) shorter none_
        refine ⟨e :: events, x ++ y ++ w, ?_, rest, ?_, ?_⟩
        · rw [remaining_cons]
          exact ⟨stored, Language.append_mem_mul isRecord mem⟩
        · rw [split, show behind = w ++ rest from isWord]
          simp
        · exact same.trans (by simp [Log.push])

end Reading

namespace Reader

/-- Takes the version that a log opens with, and the bracket before its records. -/
def versioned : ReadM UInt32 := do
  expect '{'
  let version ← keyed .version .u32
  if version ≠ formatVersion then throw (.unsupportedVersion version)
  expect ','
  sequenceStart .actions
  return version

theorem versioned_accepts : Accepts Anything versioned fun version =>
    provided (version = formatVersion) (mark '{' *
      (Grammar.keyed .version .u32 version * (mark ',' * (Grammar.key .actions * mark '[')))) := by
  have behind : Accepts Anything (keyed .version .u32 >>= fun version =>
      if ¬version = formatVersion then throw (.unsupportedVersion version) >>= fun _ : Unit => do
        expect ','
        sequenceStart .actions
        return version
      else do
        expect ','
        sequenceStart .actions
        return version) fun version => provided (version = formatVersion)
          (Grammar.keyed .version .u32 version * (mark ',' * (Grammar.key .actions * mark '['))) := by
    apply (keyed_accepts .version .u32).bindStop fun version => .onlyIf fun _ =>
      comma_accepts.seq ((sequenceStart_accepts .actions).seq (.pure version))
    · exact fun _ _ => (breaks_mark (by decide)).mul.provided
    · intro version w
      simp only [mul_provided, mul_one, mem_provided]
      constructor
      · rintro ⟨rfl, mem⟩
        exact ⟨_, rfl, rfl, mem⟩
      · rintro ⟨_, rfl, rfl, mem⟩
        exact ⟨rfl, mem⟩
  exact (object_accepts.seq behind).congr fun version => by rw [mul_provided]

theorem beginLog_eq : beginLog = versioned >>= fun version =>
    modify (fun r => { r with inRecords := true }) >>= fun _ => pure version := by
  simp only [beginLog, versioned, bind_assoc]
  congr; funext _; congr; funext version
  split <;> simp

/-- What a log opens with is taken just from its renderings. -/
theorem beginLog_iff {r r' : Reader} {n : UInt32} (isEnd : r.ending = .endOfInput) :
    beginLog r = .ok n r' ↔ n = formatVersion ∧
      ∃ w ∈ mark '{' * Grammar.keyed .version .u32 formatVersion * mark ',' *
        (Grammar.key .actions * mark '['), ∃ rest,
        r.rest = w ++ rest ∧ r' = { r with rest, inRecords := true } := by
  rw [beginLog_eq]
  constructor
  · intro ran
    obtain ⟨version, s, taken, ran⟩ := ok_of_bind ran
    obtain ⟨w, ⟨isVersion, mem⟩, rest, isWord, rfl⟩ := versioned_accepts.sound taken isEnd
    obtain ⟨rfl, rfl⟩ : version = n ∧ { r with rest, inRecords := true } = r' := by
      simpa using ran
    refine ⟨isVersion, w, ?_, rest, isWord, rfl⟩
    simpa only [isVersion, mul_assoc] using mem
  · rintro ⟨rfl, w, mem, rest, isWord, rfl⟩
    simp only [mul_assoc] at mem
    have taken := versioned_accepts.complete ⟨rfl, mem⟩ r rest isEnd trivial
    rw [← isWord] at taken
    rw [bind_run, taken]
    rfl

end Reader

namespace Log

theorem grammar_eq (log : Log) : log.grammar load =
    mark '{' * Grammar.keyed .version .u32 formatVersion * mark ',' *
      (Grammar.key .actions * mark '[') * remaining load 0 log.events.toList := by
  simp only [grammar, remaining, if_true, Nat.zero_add, mul_assoc, size, Array.length_toList]

/-- **A log is read just from its renderings**, with anything behind them. -/
theorem read_eq_ok_iff (load : Loader) (bytes : Bytes) (log : Log) :
    read load (.ofBytes bytes) = .ok log ↔ ∃ w ∈ log.grammar load, w <+: bytes := by
  rw [grammar_eq]
  constructor
  · intro ran
    unfold read readTolerant at ran
    cases begun : beginLog (.ofBytes bytes) with
    | error e s => simp [begun] at ran
    | ok n s =>
      obtain ⟨rfl, u, isStart, behind, split, rfl⟩ := (beginLog_iff rfl).1 begun
      let s : Reader := { Reader.ofBytes bytes with rest := behind, inRecords := true }
      have among : s.Among := ⟨rfl, rfl, rfl⟩
      have end_ : ((Reading.start s).toEnd load .strict).fatal = none ∧
          ((Reading.start s).toEnd load .strict).log = log := by
        simp only [begun] at ran
        split at ran
        · cases ran
        · rename_i none_
          exact ⟨none_, Except.ok.inj ran⟩
      obtain ⟨events, v, mem, rest, isWord, same⟩ :=
        Reading.rendered_of_within among .empty (Nat.lt_succ_self _) end_.1
      have same : log = ⟨(Log.empty.events ++ events)⟩ := end_.2.symm.trans same
      have all : log.events.toList = events := by
        rw [same]
        simp [Log.empty]
      rw [all]
      refine ⟨u ++ v, Language.append_mem_mul isStart mem, rest, ?_⟩
      rw [List.append_assoc, ← isWord]
      exact split.symm
  · rintro ⟨w, mem, rest, rfl⟩
    obtain ⟨u, isStart, v, isRest, rfl⟩ := Language.mem_mul.1 mem
    let s : Reader := { Reader.ofBytes (u ++ v ++ rest) with rest := v ++ rest, inRecords := true }
    have begun : beginLog (.ofBytes (u ++ v ++ rest)) = .ok formatVersion s :=
      (beginLog_iff rfl).2 ⟨rfl, u, isStart, v ++ rest, List.append_assoc u v rest, rfl⟩
    have among : s.Among := ⟨rfl, rfl, rfl⟩
    obtain ⟨r', within_⟩ := Reading.within_of_rendered among isRest rfl .empty
      (Nat.lt_succ_self s.rest.length)
    have run : (Reading.start s).toEnd load .strict =
        ⟨⟨Log.empty.events ++ log.events.toList⟩, [], none, r'⟩ := within_
    have all : (⟨Log.empty.events ++ log.events.toList⟩ : Log) = log := by
      simp [Log.empty]
    unfold read readTolerant
    simp only [begun, run, all]

/-! An empty log in another hand than the writer's. -/

example : read (fun _ => .ok "") (.ofBytes (Bytes.utf8
    " \x7b\"\\u0074tlog\" :+01,\"actions\":[ ], \"endOfLog\":000\x7d")) = .ok .empty := by
  decide +kernel

end Log
end Retrace
