import Retrace.Proofs.Log.Lines
import Retrace.Proofs.Wire.Astray

/-!
# Running over into the next record

A record that breaks off for want of input does so on a line of its own. In a log the reader runs
over into the next record, and fails there, behind the time's key at the latest
(`Event.read_overruns`). To leave out the line that it is on then costs the next record, at most:
the reader goes on at the end of its own line or of the next one (`Overrun.passes`).

The one odd case is that nothing but the comma was taken. The reader stands at the newline then,
does not know that it has had the comma, and refuses the next record for want of one.
-/

namespace Retrace

open Reader

variable {load : Loader} {more : Bytes}

/-! ## Failing in the next record -/

namespace Reader

variable {r s : Reader} {c : Char}

/-- The reader has failed, having run over into the next record. -/
structure Overrun (more : Bytes) (s : Reader) : Prop where
  ending : s.ending = .endOfInput
  inRecords : s.inRecords = true
  some_ : 0 < s.records
  place : Behind more s

/-- Before bytes that end in a brace, no other byte is missed for want of input, and none but the
    brace is the last. -/
theorem expect_braced (other : c ≠ '}') (some_ : r.rest ≠ []) (braced : Braced r.rest) :
    (∃ e s, expect c r = .error e s ∧ e.wantsMore = false) ∨
      ∃ rest, rest ≠ [] ∧ Braced rest ∧ expect c r = .ok () { r with rest } := by
  obtain ⟨b, rest, stands⟩ := braced.visible some_
  have suffix : b :: rest <:+ r.rest := stands ▸ List.dropWhile_suffix _
  rw [expect_here stands]
  split
  · exact Or.inl ⟨_, _, rfl, rfl⟩
  · rename_i same
    refine Or.inr ⟨rest, ?_, braced.suffix ((List.suffix_cons b rest).trans suffix), rfl⟩
    rintro rfl
    obtain rfl : b = 125 := braced.suffix suffix b rfl
    exact other (Char.toNat_inj.1 (not_not.1 same).symm)

theorem openBrace_fed (some_ : r.rest ≠ []) (braced : Braced r.rest) : ¬ Starved (openBrace r) := by
  simp only [openBrace, bind_run, modify_run]
  rcases expect_braced (c := '{') (r := { r with commaSkipped := false }) (by decide) some_ braced
    with ⟨e, s, ran, fed⟩ | ⟨rest, -, -, ran⟩
  · rw [ran]
    exact fun starved => by cases fed.symm.trans starved
  · rw [ran]
    exact id

theorem openRecord_fed (some_ : r.rest ≠ []) (braced : Braced r.rest) :
    ¬ Starved (openRecord r) := by
  simp only [openRecord, bind_run get, get_run]
  split
  · rw [bind_run]
    rcases expect_braced (c := ',') (by decide) some_ braced with
      ⟨e, s, ran, fed⟩ | ⟨rest, more_, braced', ran⟩
    · rw [ran]
      exact fun starved => by cases fed.symm.trans starved
    · rw [ran]
      exact openBrace_fed (r := { r with rest }) more_ braced'
  · exact openBrace_fed some_ braced

end Reader

namespace Event

variable {r s : Reader}

/-- The fields of a record are taken or refused without more input. -/
theorem ofFields_fed {kind : Kind} {fields : kind.Fields} {error : LogError}
    (failed : Action.ofFields load kind fields = .error error) : error.wantsMore = false := by
  cases kind with
  | codeParse =>
    obtain ⟨document, loadFlags, body, directory, file, uri, length, ⟨⟩⟩ := fields
    simp only [Action.ofFields, Action.loadScript] at failed
    split at failed
    · cases failed
      rfl
    · split at failed
      · cases failed
      · cases failed
        rfl
  | _ => cases failed

theorem interior_strands : Strands more False (interior load) (interior load) := by
  have brace : Drifts more False (expect '}') := mark_drifts (by decide) (by decide) (by decide)
  refine recordHeader_strands.bind recordHeader_steady (fun header => ?_) nofun
  refine (Layout.strands header.kind.later).bind header.kind.layout.steady (fun fields => ?_)
    fun _ fields => ?_
  · cases held : Action.ofFields load header.kind fields with
    | error e => exact .fail (ofFields_fed held)
    | ok action =>
      exact (mark_strands (by decide)).bind (expect_steady '}') (fun _ => .pure _) nofun
  · cases Action.ofFields load header.kind fields with
    | error e => exact .throw e
    | ok action => exact brace.bind nofun

theorem interior_overruns (brink : Brink more r s) (inRecords : s.inRecords = true)
    (some_ : 0 < s.records) (starved : Starved (interior load r)) :
    ∃ error t, interior load s = .error error t ∧ Overrun more t := by
  have lost := interior_strands r s brink starved
  obtain ⟨rest, -, same⟩ := ((interior_steady load).onward s).exists_rest
  cases ran : interior load s with
  | ok found t =>
    rw [ran] at lost
    exact lost.1.elim
  | error error t =>
    rw [ran] at lost same
    obtain rfl := same
    exact ⟨error, _, rfl, brink.beside.ending, inRecords, some_, lost⟩

/-- **A record that breaks off runs over into the next one**, and fails there. -/
theorem read_overruns (brink : Brink more r s) (inRecords : r.inRecords = true)
    (others : ¬ r.Closing) (some_ : r.rest ≠ []) (starved : Starved (read load r)) :
    ∃ error t, read load s = .error error t ∧ Overrun more t := by
  obtain ⟨b, rest, stands⟩ := brink.braced.visible some_
  have other : b ≠ 93 := by
    rintro rfl
    exact others ⟨inRecords, by rw [stands]; rfl⟩
  have suffix : b :: rest <:+ r.rest := stands ▸ List.dropWhile_suffix _
  have moved := brink.moved (.of_suffix suffix) (brink.beside.moved suffix)
  have opened := openRecord_opened { r with rest := b :: rest }
  have fed := openRecord_fed (r := { r with rest := b :: rest }) (List.cons_ne_nil b rest)
    moved.braced
  rw [read_eq, bind_run, startRecord_open inRecords stands other] at starved
  rw [read_eq, bind_run,
    startRecord_open (brink.beside.inRecords.trans inRecords) (brink.beside.stands stands) other]
  rcases openRecord_agrees moved.beside with short | alike
  · exact absurd short fed
  rcases alike.cases with ⟨found, r', _, s', ran, ran', rfl, after⟩ |
    ⟨e, r', e', s', ran, ran', ⟨full, _⟩, -⟩
  · rw [ran] at opened starved
    cases opened with
    | opened rest' suffix' =>
      rw [show openRecord { s with rest := b :: (rest ++ (crossing ++ more)) } = _ from ran']
      exact interior_overruns ⟨after, brink.ending, moved.braced.suffix suffix'⟩
        (after.inRecords.trans inRecords) (after.started.2 (Nat.succ_pos _)) starved
  · rw [ran] at starved
    cases full.symm.trans starved

/-- A record is refused for want of the comma before it. -/
theorem read_uncommaed (load : Loader) {rest : Bytes} (inRecords : r.inRecords = true)
    (some_ : 0 < r.records) (noneSkipped : r.commaSkipped = false)
    (stands : r.rest.dropWhile Bytes.isBlank = 123 :: rest) :
    ∃ error, read load r = .error error { r with rest } := by
  let brace : Reader := { r with rest := 123 :: rest }
  have wanted : 0 < brace.records ∧ brace.commaSkipped = false := ⟨some_, noneSkipped⟩
  have refused : expect ',' brace = .error (.unexpectedByte ',' 123 brace.offset) { r with rest } :=
    expect_here (r := brace) rfl
  have opened : openRecord brace =
      .error (.unexpectedByte ',' 123 brace.offset) { r with rest } := by
    simp only [openRecord, bind_run get, get_run, wanted, and_self, if_true]
    rw [bind_run, refused]
  have started : startRecord r = _ :=
    (startRecord_open inRecords stands (by decide)).trans opened
  exact ⟨_, by rw [read_eq, bind_run, started]⟩

end Event

/-! ## Going on behind it -/

/-- The bytes are a record, with the comma before it, and then what is behind its line. -/
def NextRecord (tail behind : Bytes) : Prop :=
  ∃ line, tail = crossing ++ (line ++ behind) ∧ OneLine line ∧ EndsLine behind

namespace Reader.Overrun

variable {c s : Reader} {line behind : Bytes} {error : LogError}

/-- Beyond the newline, leaving the record out gets to the end of the next line. -/
theorem leaves {n : Nat} (place : s.rest = crossing.drop (n + 2) ++ (line ++ behind))
    (ending : s.ending = .endOfInput) (inRecords : s.inRecords = true) (some_ : 0 < s.records)
    (oneLine : OneLine line) (ends : EndsLine behind) : ∃ t, skipRecord s = .ok () t ∧
      t.At behind ∧ t.records = s.records ∧ t.rest.length ≤ behind.length := by
  have record : OneLine (crossing.drop 2) := by
    rw [crossing_eq]
    decide
  have left : OneLine (crossing.drop (n + 2) ++ line) := by
    rw [Nat.add_comm, ← List.drop_drop]
    exact (record.suffix (List.drop_suffix n _)).append oneLine
  exact skipRecord_at ending inRecords some_ (place.trans (List.append_assoc ..).symm) left ends

/-- At the newline, the comma before the next record having been taken, that record is left out. -/
theorem passes_newline (load : Loader) (place : s.rest = crossing.drop 1 ++ (line ++ behind))
    (ending : s.ending = .endOfInput) (inRecords : s.inRecords = true) (some_ : 0 < s.records)
    (noneSkipped : s.commaSkipped = false) (oneLine : OneLine line) (ends : EndsLine behind) :
    ∃ skipped t, Passes load s [] skipped t ∧ 0 < t.records ∧ t.At behind := by
  have stands : s.rest.dropWhile Bytes.isBlank = 123 :: (crossing.drop 3 ++ (line ++ behind)) := by
    rw [place, crossing_eq]
    rfl
  obtain ⟨error, refused⟩ := Event.read_uncommaed load inRecords some_ noneSkipped stands
  obtain ⟨t, skip, at_, count, short⟩ := leaves (n := 1) (s := { s with
    rest := crossing.drop 3 ++ (line ++ behind) }) rfl ending inRecords some_ oneLine ends
  have ahead : t.rest.length < s.rest.length := by
    rw [place, crossing_eq]
    simp only [List.drop_succ_cons, List.drop_zero, List.length_append, List.length_cons]
    omega
  exact ⟨_, t, .skipped refused skip ahead (.here t), count ▸ some_, at_⟩

/-- **A record that runs over costs the next one, at most.** -/
theorem passes (failed : Event.read load c = .error error s) (overrun : Overrun (line ++ behind) s)
    (oneLine : OneLine line) (ends : EndsLine behind)
    (longer : (crossing ++ (line ++ behind)).length < c.rest.length) :
    ∃ skipped t, Passes load c [] skipped t ∧ 0 < t.records ∧
      (t.At (crossing ++ (line ++ behind)) ∨ t.At behind) := by
  obtain ⟨ending, inRecords, some_, n, place⟩ := overrun
  rcases n with _ | _ | n
  · have comma : EndsLine (crossing ++ (line ++ behind)) := by
      rw [crossing_eq]
      exact .comma _
    have here : s.rest = [] ++ (crossing ++ (line ++ behind)) := place
    obtain ⟨t, skip, at_, count, short⟩ :=
      skipRecord_at ending inRecords some_ here List.not_mem_nil comma
    exact ⟨_, t, .skipped failed skip (short.trans_lt longer) (.here t), count ▸ some_, Or.inl at_⟩
  · let newline : Reader := { s with
      rest := crossing.drop 1 ++ (line ++ behind), commaSkipped := false }
    have skip : skipRecord s = .ok () newline := by
      rw [skipRecord_run ending, place, crossing_eq]
      rfl
    have ahead : (crossing.drop 1 ++ (line ++ behind)).length < c.rest.length := by
      refine Nat.lt_trans ?_ longer
      rw [crossing_eq]
      exact Nat.lt_succ_self _
    obtain ⟨skipped, t, passes, count, at_⟩ :=
      passes_newline (s := newline) load rfl ending inRecords some_ rfl oneLine ends
    exact ⟨_, t, .skipped failed skip ahead passes, count, Or.inr at_⟩
  · obtain ⟨t, skip, at_, count, short⟩ := leaves place ending inRecords some_ oneLine ends
    have shorter : behind.length < (crossing ++ (line ++ behind)).length := by
      rw [crossing_eq]
      simp only [List.length_append, List.length_cons]
      omega
    exact ⟨_, t, .skipped failed skip (short.trans_lt (shorter.trans longer)) (.here t),
      count ▸ some_, Or.inr at_⟩

end Reader.Overrun

end Retrace
