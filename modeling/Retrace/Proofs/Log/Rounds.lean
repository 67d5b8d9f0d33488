import Retrace.Proofs.Log.Closing
import Retrace.Proofs.Wire.Sequences

/-!
# Reading comes to an end

A tolerant reader goes from record to record until something stops it, and what it reads may be
anything. A record that cannot be read need not have taken anything; leaving it out goes up to the
newline and not beyond it, where the next record cannot be read either; and an end marker that is
wrong leads out of the records in the middle of a failure. What bounds the reader is that it counts
as getting ahead only what takes a byte: a record that was read has taken its brace, and one that
was left out is given up for good if nothing is gone. So there is at most one round for each byte,
and one in which the reader stops (`Passes.consumes`). The bound that `Reading.toEnd` is given is
larger than that and is never what stops it.

Within a record it is the sequences that could go on for long, as they declare how long they are.
But an element takes a byte at least (`Reader.Consumes`), so that taking elements fails before there
are more of them than bytes (`Reader.Attempt.few`).
-/

namespace Retrace

namespace Reader

variable {α β : Type} {element : ReadM α} {r s t : Reader} {list : List α}

/-! ## Steps that take something -/

/-- A step that succeeds has taken a byte at least. -/
def Consumes (m : ReadM α) : Prop := ∀ r a s, m r = .ok a s → s.rest.length < r.rest.length

namespace Consumes

variable {m : ReadM α} {f : α → ReadM β}

theorem bind (first : Consumes m) (next : ∀ a, Steady (f a) (f a)) : Consumes (m >>= f) := by
  intro r b t ran
  obtain ⟨a, s, taken, ran⟩ := ok_of_bind ran
  have moved := (next a).onward s
  rw [ran] at moved
  exact moved.rest.length_le.trans_lt (first r a s taken)

theorem behind (first : ∀ r, Onward r (final (m r))) (next : ∀ a, Consumes (f a)) :
    Consumes (m >>= f) := by
  intro r b t ran
  obtain ⟨a, s, taken, ran⟩ := ok_of_bind ran
  have moved := first r
  rw [taken] at moved
  exact (next a s b t ran).trans_le moved.rest.length_le

theorem noting {f : Reader → ReadM α} (h : ∀ start, Consumes (f start)) : Consumes (get >>= f) :=
  fun r a s ran => h r r a s ran

theorem expect (c : Char) : Consumes (expect c) := fun _ _ _ taken => expect_shorter taken

theorem tokenHere : Consumes tokenHere := by
  intro r text s ran
  simp only [Reader.tokenHere, bind_run get, get_run, bind_run (set _), set_run] at ran
  obtain ⟨_, t, ends, ran⟩ := ok_of_bind ran
  have stays := final_checkEnding { r with rest := r.rest.dropWhile Bytes.isToken }
  rw [ends] at stays
  obtain rfl : t = _ := stays
  by_cases none : r.rest.takeWhile Bytes.isToken = []
  · simp only [if_pos none, bind_run, get_run] at ran
    cases left : r.rest.dropWhile Bytes.isToken <;> simp [left] at ran
  · rw [if_neg none] at ran
    cases ran
    have some_ := List.length_pos_iff.2 none
    have split := congrArg List.length
      (List.takeWhile_append_dropWhile (p := Bytes.isToken) (l := r.rest))
    rw [List.length_append] at split
    dsimp only
    omega

theorem token : Consumes token := .behind skipBlanks_onward fun _ => .tokenHere

theorem scalar (s : Scalar α) : Consumes (scalar s) := by
  refine .noting fun _ => Consumes.token.bind fun text => ?_
  cases s.ofChars? text with
  | some a => exact .pure a
  | none => exact .fail rfl

theorem value : Consumes value := (Consumes.expect '{').bind fun _ => valueHere_steady

theorem delimited (each : Consumes element) (first : Bool) :
    Consumes (delimited first element) := by
  cases first with
  | true => exact each
  | false => exact .behind (expect_steady ',').onward fun _ => each

end Consumes

/-! ## Elements one after the other -/

/-- Elements are taken one after the other, with commas between them. -/
inductive Gathers (element : ReadM α) : Bool → Reader → List α → Reader → Prop
  | here (first : Bool) (r : Reader) : Gathers element first r [] r
  | more {first : Bool} {r s t : Reader} {a : α} {list : List α}
    (taken : delimited first element r = .ok a s) (others : Gathers element false s list t) :
    Gathers element first r (a :: list) t

theorem Gathers.consumes (each : Consumes element) {first : Bool}
    (gathers : Gathers element first r list s) :
    list.length + s.rest.length ≤ r.rest.length := by
  induction gathers with
  | here => exact (Nat.zero_add _).le
  | more taken others ih =>
    have shorter := each.delimited _ _ _ _ taken
    rw [List.length_cons]
    omega

theorem elements_succ (element : ReadM α) (done : List α) (count : Nat) :
    elements element done (count + 1) =
      delimited done.isEmpty element >>= fun a => elements element (a :: done) count := by
  cases done with
  | nil => rfl
  | cons b done => simp [elements, delimited]

/-- Elements are taken until all are there, or until taking one fails. -/
theorem elements_gathers (element : ReadM α) (count : Nat) (done : List α) (r : Reader) : ∃ list s,
    Gathers element done.isEmpty r list s ∧
      (list.length = count ∧ elements element done count r = .ok (done.reverse ++ list) s ∨
        list.length < count ∧ ∃ e t,
          delimited (done.isEmpty && list.isEmpty) element s = .error e t ∧
            elements element done count r = .error e t) := by
  -- what is done already only decides about the comma, and is put in front at the end
  induction count generalizing done r with
  | zero =>
    refine ⟨[], r, .here _ r, Or.inl ⟨rfl, ?_⟩⟩
    rw [List.append_nil]
    rfl
  | succ count ih =>
    rw [elements_succ, bind_run]
    cases taken : delimited done.isEmpty element r with
    | error e t =>
      rw [← Bool.and_true done.isEmpty] at taken
      exact ⟨[], r, .here _ r, Or.inr ⟨Nat.succ_pos _, e, t, taken, rfl⟩⟩
    | ok a s =>
      obtain ⟨list, t, gathers, outcome⟩ := ih (a :: done) s
      refine ⟨a :: list, t, .more taken gathers, ?_⟩
      rcases outcome with ⟨all, ran⟩ | ⟨few, e, u, failed, ran⟩
      · exact Or.inl ⟨congrArg Nat.succ all, by simpa using ran⟩
      · have later : (done.isEmpty && (a :: list).isEmpty) = false := Bool.and_false _
        rw [later]
        exact Or.inr ⟨Nat.succ_lt_succ few, e, u, failed, ran⟩

/-- Takes what a sequence opens with, and answers the length that it declares. -/
def sequenceHead (k : Key) : ReadM UInt32 := do
  let count ← length
  expect ','
  sequenceStart k
  return count

theorem sequence_eq (k : Key) (element : ReadM α) :
    sequence k element = sequenceHead k >>= fun count =>
      elements element [] count.toNat >>= fun list => expect ']' >>= fun _ => pure list := by
  simp only [sequence, sequenceHead, bind_assoc, pure_bind]

theorem sequenceHead_steady (k : Key) : Steady (sequenceHead k) (sequenceHead k) :=
  length_steady.bind fun count => (expect_steady ',').bind fun _ =>
    (sequenceStart_steady k).bind fun _ => .pure count

/-- An attempt at a sequence: the elements that it takes, and what comes of it. -/
inductive Attempt (k : Key) (element : ReadM α) (r : Reader) :
    List α → EStateM.Result LogError Reader (List α) → Prop
  | unopened {e : LogError} {s : Reader} (head : sequenceHead k r = .error e s) :
    Attempt k element r [] (.error e s)
  | broken {count : UInt32} {list : List α} {e : LogError} {s t u : Reader}
    (head : sequenceHead k r = .ok count s) (gathers : Gathers element true s list t)
    (few : list.length < count.toNat) (failed : delimited list.isEmpty element t = .error e u) :
    Attempt k element r list (.error e u)
  | gathered {count : UInt32} {list : List α} {s t : Reader}
    (head : sequenceHead k r = .ok count s) (gathers : Gathers element true s list t)
    (all : list.length = count.toNat) :
    Attempt k element r list ((expect ']' >>= fun _ => pure list) t)

theorem sequence_attempt (k : Key) (element : ReadM α) (r : Reader) :
    ∃ list, Attempt k element r list (sequence k element r) := by
  cases head : sequenceHead k r with
  | error e s =>
    have failed : sequence k element r = .error e s := by rw [sequence_eq, bind_run, head]
    exact ⟨[], failed ▸ .unopened head⟩
  | ok count s =>
    have opened : sequence k element r = (elements element [] count.toNat >>= fun list =>
        expect ']' >>= fun _ => pure list) s := by rw [sequence_eq, bind_run, head]
    obtain ⟨list, t, gathers, outcome⟩ := elements_gathers element count.toNat [] s
    refine ⟨list, ?_⟩
    rw [opened, bind_run]
    rcases outcome with ⟨all, ran⟩ | ⟨few, e, u, failed, ran⟩
    · rw [ran]
      exact .gathered head gathers all
    · rw [ran]
      exact .broken head gathers few failed

/-- No more elements are taken than there are bytes. -/
theorem Attempt.few {k : Key} {result : EStateM.Result LogError Reader (List α)}
    (each : Consumes element) (attempt : Attempt k element r list result) :
    list.length ≤ r.rest.length := by
  have bound {count : UInt32} {s t : Reader} (head : sequenceHead k r = .ok count s)
      (gathers : Gathers element true s list t) : list.length ≤ r.rest.length := by
    have moved := (sequenceHead_steady k).onward r
    rw [head] at moved
    have behind : s.rest.length ≤ r.rest.length := moved.rest.length_le
    have taken := gathers.consumes each
    omega
  cases attempt with
  | unopened => exact Nat.zero_le _
  | broken head gathers | gathered head gathers => exact bound head gathers

end Reader

open Reader

/-! ## Records one after the other -/

variable {load : Loader} {r s : Reader}

theorem Event.read_suffix {result : EStateM.Result LogError Reader (Option Event)}
    (ran : read load r = result) : (final result).rest <:+ r.rest := by
  rw [← ran, read_eq]
  refine final_bind (P := fun s => s.rest <:+ r.rest) (startRecord_suffix r)
    fun found s _ moved => ?_
  cases found with
  | false => exact moved
  | true => exact ((interior_steady load).onward s).rest.trans moved

/-- **A round in which a tolerant reader does not stop takes a byte at least.** -/
theorem Passes.consumes {events : List Event} {skipped : List SkippedRecord}
    (passes : Passes load r events skipped s) :
    s.rest <:+ r.rest ∧ events.length + skipped.length + s.rest.length ≤ r.rest.length := by
  induction passes with
  | here r => exact ⟨List.suffix_rfl, by simp⟩
  | @read r s t e events skipped first more ih =>
    have shorter := (Event.read_shorter first).2.2
    refine ⟨ih.1.trans (Event.read_suffix first), ?_⟩
    rw [List.length_cons]
    omega
  | @skipped r s s' t error events skipped first skip ahead more ih =>
    obtain ⟨rest, commaSkipped, further, same⟩ := final_skipRecord s
    rw [skip] at same
    obtain rfl := same
    refine ⟨ih.1.trans (further.trans (Event.read_suffix first)), ?_⟩
    rw [List.length_cons]
    omega

/-- **Reading comes to an end**, whatever bytes a log is made of, wherever they cannot be fetched
    any more, and whatever the store of sources answers.

    A tolerant reader that has begun with a log goes round by round, and stops. A round before that
    reads an event or leaves a record out, and takes a byte at least, from whatever reader it sets
    out; so there are no more of them than the log has bytes. And however long a sequence of values
    or of bytes declares to be, no more elements are taken than there are bytes. -/
theorem Log.reading_ends (load : Loader) {version : UInt32} {input r : Reader}
    (begun : beginLog input = .ok version r) :
    (∃ events skipped s fatal t, Passes load r events skipped s ∧ Halts load s fatal t ∧
      readTolerant load .skipBad input = .ok ⟨⟨events.toArray⟩, skipped, fatal, t⟩ ∧
      events.length + skipped.length ≤ input.rest.length) ∧
    (∀ s events skipped t, Passes load s events skipped t → t.rest <:+ s.rest ∧
      events.length + skipped.length + t.rest.length ≤ s.rest.length) ∧
    ∀ s : Reader,
      (∃ list, Attempt .values value s list (values s) ∧ list.length ≤ s.rest.length) ∧
      ∃ list, Attempt .bytes (scalar .u8) s list (bytes s) ∧ list.length ≤ s.rest.length := by
  refine ⟨?_, fun s events skipped t passes => passes.consumes, fun s => ⟨?_, ?_⟩⟩
  · obtain ⟨events, skipped, s, fatal, t, passes, halts⟩ := exists_passes load r
    refine ⟨events, skipped, s, fatal, t, passes, halts, ?_, ?_⟩
    · simp only [readTolerant, begun, passes.toEnd halts]
    · have bound := passes.consumes.2
      have further := (beginLog_begun begun).2.length_le
      omega
  · obtain ⟨list, attempt⟩ := sequence_attempt .values value s
    exact ⟨list, attempt, attempt.few .value⟩
  · obtain ⟨list, attempt⟩ := sequence_attempt .bytes (scalar .u8) s
    exact ⟨list, attempt, attempt.few (.scalar .u8)⟩

/-- A log whose first record is nonsense, and which cannot be fetched beyond the second brace. -/
def damagedInput : Reader :=
  let bytes := Wire.logStart ++ Bytes.ascii "\n\x7bnonsense,\n\x7b\x7d".toList
  failingAfter (bytes.length - 1) bytes

/-- A tolerant reader comes to the fault within as many rounds as there are bytes before it. -/
theorem damagedInput_ends : ∃ version r, beginLog damagedInput = .ok version r ∧
    ∃ events skipped s fatal t, Passes (fun _ => .ok "") r events skipped s ∧
      Halts (fun _ => .ok "") s fatal t ∧
      Log.readTolerant (fun _ => .ok "") .skipBad damagedInput =
        .ok ⟨⟨events.toArray⟩, skipped, fatal, t⟩ ∧
      events.length + skipped.length ≤ damagedInput.rest.length := by
  have reads : (Log.readTolerant (fun _ => .ok "") .skipBad damagedInput).isOk = true := by
    decide +kernel
  cases begun : beginLog damagedInput with
  | error e s =>
    rw [Log.readTolerant, begun] at reads
    cases reads
  | ok version r =>
    exact ⟨version, r, rfl, (Log.reading_ends (fun _ => .ok "") begun).1⟩

end Retrace
