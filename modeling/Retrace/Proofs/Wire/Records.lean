import Retrace.Proofs.Wire.Fields
import Retrace.Wire.Record

/-!
# Records are read back

Reading the record of an event gives the event again (`Event.read_record`), but for two things. All
NaNs are read as the one that there is a word for. And a script is read with the text that the store
has under its key, if that is as long as the script's own; otherwise the record is refused
(`Action.reread`).
-/

namespace Retrace

namespace Action

/-- Each length that is declared in the action's record fits into 32 bits. -/
def Short : Action → Prop
  | allocateArrayBuffer bytes => bytes.length < UInt32.size
  | constructCall _ args => args.length < UInt32.size
  | callBegin call => call.args.length < UInt32.size
  | codeParse s => s.text.utf8ByteSize < UInt32.size
  | _ => True

instance : (a : Action) → Decidable a.Short
  | allocateArrayBuffer bytes => inferInstanceAs (Decidable (bytes.length < UInt32.size))
  | constructCall _ args => inferInstanceAs (Decidable (args.length < UInt32.size))
  | callBegin call => inferInstanceAs (Decidable (call.args.length < UInt32.size))
  | codeParse s => inferInstanceAs (Decidable (s.text.utf8ByteSize < UInt32.size))
  | convertToObject .. | createSymbol .. | allocateObject .. | allocateArray .. | allocateFunction ..
  | getAndClearException | getProperty .. | getIndex .. | getOwnPropertyInfo ..
  | getOwnPropertiesInfo .. | defineProperty .. | deleteProperty .. | setPrototype ..
  | setProperty .. | setIndex .. | getTypedArrayInfo .. | callbackOp .. | callEnd .. => isTrue trivial

/-- The action that is read where one was written, by a reader that loads texts from a store. -/
def reread (load : Loader) : Action → Except LogError Action
  | codeParse s => loadScript load s (UInt32.ofNat s.text.utf8ByteSize)
  | a => .ok (a.mapDouble Double.readBack)

theorem ofFields_readBack (load : Loader) (a : Action) :
    ofFields load a.kind (a.kind.layout.readBack a.fields) = a.reread load := by
  cases a <;> rfl

end Action

/-! ## The frame of a record -/

namespace Reader

theorem recordHeader_takes (time : Time) (context : Context) (kind : Kind) :
    Takes Stops recordHeader (Wire.recordHeader time context kind) ⟨time, context, kind⟩ := by
  have ticks : Takes Stops (keyed .eventTime .i64) (Wire.keyed .eventTime .i64 time.ticks)
      time.ticks := keyed_takes .eventTime .i64 trivial
  have id : Takes Stops (keyed .ctxTag .u64) (Wire.keyed .ctxTag .u64 context.id) context.id :=
    keyed_takes .ctxTag .u64 trivial
  have number : Takes Stops (keyed .actionKind .u32) (Wire.keyed .actionKind .u32 kind.number)
      kind.number := keyed_takes .actionKind .u32 trivial
  have split : Wire.recordHeader time context kind = Wire.keyed .eventTime .i64 time.ticks ++
      44 :: (Wire.keyed .ctxTag .u64 context.id ++
        44 :: Wire.keyed .actionKind .u32 kind.number) := by
    simp [Wire.recordHeader]
  rw [split]
  apply ticks.bindStop _ (by decide)
  apply comma_takes.byte
  apply id.bindStop _ (by decide)
  apply Takes.noting
  intro start
  apply comma_takes.byte
  apply number.last
  rw [Kind.ofNumber?_number]
  exact .pure _

/-- Where a reader stands between records, with nothing left to make up for. -/
structure Among (r : Reader) : Prop where
  ending : r.ending = .endOfInput
  inRecords : r.inRecords = true
  noneSkipped : r.commaSkipped = false

theorem startRecord_run {r : Reader} (among : r.Among) (rest : Bytes) :
    startRecord { r with rest := Wire.recordStart (r.records = 0) ++ rest } =
      .ok true { r with rest, records := r.records + 1 } := by
  obtain ⟨left, ending, total, records, inRecords, commaSkipped⟩ := r
  obtain ⟨rfl, rfl, rfl⟩ := among
  cases records with
  | zero => rfl
  | succ n => rfl

end Reader

/-! ## Events -/

namespace Event

/-- Reads what an event's record holds behind its opening brace. -/
def interior (load : Loader) : ReadM (Option Event) := do
  let header ← Reader.recordHeader
  let fields ← header.kind.layout.read
  match Action.ofFields load header.kind fields with
  | .error e => throw e
  | .ok action =>
    Reader.expect '}'
    return some ⟨header.time, header.context, action⟩

theorem read_eq (load : Loader) : read load = Reader.startRecord >>= fun found =>
    if found then interior load else pure none := by
  unfold read
  congr
  funext found
  cases found <;> rfl

/-- The bytes of an event's record. -/
def record (first : Bool) (e : Event) : Bytes :=
  Wire.recordStart first ++ Wire.recordHeader e.time e.context e.kind ++
    (e.kind.layout.written e.action.fields ++ Wire.recordEnd)

variable {e : Event} {r : Reader} {load : Loader} {action : Action} {error : LogError}

/-- A record that was written is read up to its closing brace. -/
theorem record_steps (writable : e.kind.layout.Writable e.action.fields) (among : r.Among)
    (rest : Bytes) : ∃ started headed,
      Reader.startRecord { r with rest := e.record (r.records = 0) ++ rest } =
        .ok true { r with rest := started, records := r.records + 1 } ∧
      Reader.recordHeader { r with rest := started, records := r.records + 1 } =
        .ok ⟨e.time, e.context, e.kind⟩ { r with rest := headed, records := r.records + 1 } ∧
      e.kind.layout.read { r with rest := headed, records := r.records + 1 } =
        .ok (e.kind.layout.readBack e.action.fields)
          { r with rest := 125 :: rest, records := r.records + 1 } := by
  have stops : Reader.Stops (125 :: rest) := .cons (by decide)
  have header := Reader.recordHeader_takes e.time e.context e.kind
    { r with records := r.records + 1 } (e.kind.layout.written e.action.fields ++ 125 :: rest)
    among.ending (Layout.stops_written _ _ stops)
  have fields := e.kind.layout.takes writable { r with records := r.records + 1 } (125 :: rest)
    among.ending stops
  have start := Reader.startRecord_run among
    (Wire.recordHeader e.time e.context e.kind ++
      (e.kind.layout.written e.action.fields ++ 125 :: rest))
  refine ⟨_, _, ?_, header, fields⟩
  rw [← start]
  simp [record, Wire.recordEnd]

/-- **The record of an event is read as the event**, with what is read of its action. -/
theorem read_record (writable : e.kind.layout.Writable e.action.fields) (among : r.Among)
    (given : e.action.reread load = .ok action) (rest : Bytes) :
    read load { r with rest := e.record (r.records = 0) ++ rest } =
      .ok (some { e with action }) { r with rest, records := r.records + 1 } := by
  obtain ⟨started, headed, start, header, fields⟩ := record_steps writable among rest
  have held : Action.ofFields load e.kind (e.kind.layout.readBack e.action.fields) = .ok action :=
    (Action.ofFields_readBack load e.action).trans given
  have close := Reader.brace_takes { r with records := r.records + 1 } rest among.ending trivial
  simp only [List.cons_append, List.nil_append] at close
  rw [read_eq, bind_run, start]
  simp only [interior, if_true, bind_run, header, fields, held, close]
  rfl

/-- **A record whose text cannot be had is refused.** -/
theorem read_refused (writable : e.kind.layout.Writable e.action.fields) (among : r.Among)
    (refused : e.action.reread load = .error error) (rest : Bytes) :
    ∃ r', read load { r with rest := e.record (r.records = 0) ++ rest } = .error error r' := by
  obtain ⟨started, headed, start, header, fields⟩ := record_steps writable among rest
  have held : Action.ofFields load e.kind (e.kind.layout.readBack e.action.fields) =
      .error error := (Action.ofFields_readBack load e.action).trans refused
  refine ⟨{ r with rest := 125 :: rest, records := r.records + 1 }, ?_⟩
  rw [read_eq, bind_run, start]
  simp only [interior, if_true, bind_run, header, fields, held]
  rfl

end Event
end Retrace
