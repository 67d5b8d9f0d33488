import Retrace.Proofs.Log.Delivery
import Retrace.Proofs.Runs

/-!
# A writer that counts for itself

What is done to write a log (`Log.outputs`) is planned with all events at hand: which of them is the
first, and how many there are. A `Writer` is told one event at a time. It counts the records that it
has started, puts no comma in front of a record while there is none, and closes the log with the
number it has come to.

Both deliver the same text, also where the room gives out in the middle or an action cannot be
written, and then with the same error (`Writer.log_alongside`). A store that takes every text has no
part in this.
-/

namespace Retrace
namespace Writer

/-! ## Writing event by event -/

/-- What is done with one piece of a record. Texts that go to the store are none of the writer's. -/
def perform : Output → EStateM LogError Writer Unit
  | .text bytes => put bytes
  | .script .. => return ()
  | .refusal error => throw error

/-- Writes an event as the next record. -/
def record (e : Event) : EStateM LogError Writer Unit := do
  startRecord
  put (Wire.recordHeader e.time e.context e.kind)
  e.action.outputs.forM perform
  put Wire.recordEnd

/-- Writes a log from its opening to its end marker. -/
def log (log : Log) : EStateM LogError Writer Unit := do
  put Wire.logStart
  log.events.toList.forM record
  endLog

/-! ## Beside a delivery -/

/-- The writer has delivered the same, and has started so many records. -/
structure Beside (count : Nat) (w : Writer) (d : Delivery MemoryStore) : Prop where
  sink : w.sink = d.sink
  records : w.records = count

/-- Writing came to the same end: the writer is beside the delivery, or both failed alike with the
same text delivered. How many records a writer that failed has started does not matter. -/
def Alongside (count : Nat) : EStateM.Result LogError Writer Unit →
    EStateM.Result LogError (Delivery MemoryStore) Unit → Prop
  | .ok () w, .ok () d => Beside count w d
  | .error e w, .error f d => e = f ∧ w.sink = d.sink
  | _, _ => False

section

variable {count next : Nat} {w : Writer} {d : Delivery MemoryStore}

theorem Alongside.bind {m rest : EStateM LogError Writer Unit}
    {m' rest' : EStateM LogError (Delivery MemoryStore) Unit} (first : Alongside count (m w) (m' d))
    (further : ∀ w d, Beside count w d → Alongside next (rest w) (rest' d)) :
    Alongside next ((do m; rest) w) ((do m'; rest') d) := by
  rw [bind_run, bind_run]
  cases run : m w with
  | ok _ w =>
    cases run' : m' d with
    | ok _ d => rw [run, run'] at first; exact further w d first
    | error => rw [run, run'] at first; exact first.elim
  | error =>
    cases run' : m' d with
    | ok => rw [run, run'] at first; exact first.elim
    | error => rw [run, run'] at first; exact first

/-- What is planned for two parts of a record, or of a log, is done for one after the other. -/
theorem Alongside.append {m rest : EStateM LogError Writer Unit} {planned more : List Output}
    (first : Alongside count (m w) (planned.forM Output.perform d))
    (further : ∀ w d, Beside count w d → Alongside next (rest w) (more.forM Output.perform d)) :
    Alongside next ((do m; rest) w) ((planned ++ more).forM Output.perform d) := by
  have split : (planned ++ more).forM Output.perform =
      (do planned.forM Output.perform; more.forM Output.perform :
        EStateM LogError (Delivery MemoryStore) Unit) := List.forM_append
  rw [split]
  exact first.bind further

theorem put_alongside (beside : Beside count w d) (bytes : Bytes) :
    Alongside count (put bytes w) (Delivery.put bytes d) := by
  unfold put Delivery.put
  rw [beside.sink]
  cases Sink.put bytes d.sink with
  | ok _ sink => exact ⟨rfl, beside.records⟩
  | error e sink => exact ⟨rfl, rfl⟩

/-- A single text may be what is left to do. -/
theorem last_alongside (beside : Beside count w d) (bytes : Bytes) :
    Alongside count (put bytes w) ([Output.text bytes].forM Output.perform d) := by
  have alone : [Output.text bytes].forM Output.perform =
      (Delivery.put bytes : EStateM LogError (Delivery MemoryStore) Unit) := bind_pure_unit
  rw [alone]
  exact put_alongside beside bytes

theorem perform_alongside (beside : Beside count w d) (o : Output) :
    Alongside count (perform o w) (o.perform d) := by
  cases o with
  | text bytes => exact put_alongside beside bytes
  | script key content => exact ⟨beside.sink, beside.records⟩
  | refusal error => exact ⟨rfl, beside.sink⟩

theorem forM_alongside (beside : Beside count w d) (outputs : List Output) :
    Alongside count (outputs.forM perform w) (outputs.forM Output.perform d) := by
  induction outputs generalizing w d with
  | nil => exact beside
  | cons o outputs ih => exact (perform_alongside beside o).bind fun _ _ => ih

/-- The count tells whether the record is the first, and goes up behind its opening. -/
theorem startRecord_alongside (beside : Beside count w d) :
    Alongside (count + 1) (startRecord w) (Delivery.put (Wire.recordStart (count = 0)) d) := by
  have opens : startRecord w = (do
      put (Wire.recordStart (count = 0))
      modify fun w : Writer => { w with records := w.records + 1 }) w := by
    rw [← beside.records]
    rfl
  have ends : Delivery.put (Wire.recordStart (count = 0)) d = (do
      Delivery.put (Wire.recordStart (count = 0))
      return ()) d := by
    rw [bind_pure_unit]
  rw [opens, ends]
  exact (put_alongside beside _).bind fun _ _ beside =>
    ⟨beside.sink, congrArg (· + 1) beside.records⟩

theorem record_alongside (beside : Beside count w d) (e : Event) :
    Alongside (count + 1) (record e w) ((e.outputs (count = 0)).forM Output.perform d) := by
  refine (startRecord_alongside beside).bind fun w d beside => ?_
  refine (put_alongside beside _).bind fun w d beside => ?_
  refine (forM_alongside beside _).append fun w d beside => ?_
  exact last_alongside beside _

theorem records_alongside (beside : Beside count w d) (events : List Event) :
    Alongside (count + events.length) (events.forM record w)
      ((Wire.outputs count events).forM Output.perform d) := by
  induction events generalizing count w d with
  | nil => exact beside
  | cons e events ih =>
    rw [Wire.outputs, List.length_cons, Nat.add_comm _ 1, ← Nat.add_assoc]
    exact (record_alongside beside e).append fun _ _ => ih

/-- **A writer that counts for itself delivers what is planned for the whole log**, and nothing
else, whatever room there is. If it comes to the end, it has started as many records as there are
events. -/
theorem log_alongside (beside : Beside 0 w d) (log : Log) :
    Alongside log.size (Writer.log log w) (log.write d) := by
  unfold Log.write
  rw [Log.outputs_eq]
  refine (put_alongside beside _).bind fun w d beside => ?_
  have all := records_alongside beside log.events.toList
  rw [Nat.zero_add] at all
  refine all.append fun w d beside => ?_
  have closes : endLog w = put (Wire.endMarker log.size) w := congrArg
    (fun count => put (Wire.endMarker count) w) beside.records
  rw [closes]
  exact last_alongside beside _

end

end Writer
end Retrace
