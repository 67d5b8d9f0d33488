import Retrace.Wire.Framing

/-!
# Writing a log token by token

A `Sink` takes bytes until its room is used up. Bytes that do not fit are delivered as far as they
do, and then writing fails; so what has been delivered is at all times an initial piece of what was
to be written. A `Writer` is a sink that counts the records started on it.
-/

namespace Retrace

/-- Where bytes are delivered to. -/
structure Sink where
  /-- What has been delivered, last byte first, so that adding bytes takes no longer than there are
  bytes to add. -/
  backward : Bytes
  /-- How many more bytes there is room for; `none` if there is always room. -/
  room : Option Nat
deriving DecidableEq, Repr

namespace Sink

/-- A sink that has taken nothing. -/
def withRoom (room : Option Nat) : Sink := ⟨[], room⟩

/-- What has been delivered, in order. -/
def delivered (sink : Sink) : Bytes := sink.backward.reverse

/-- Delivers bytes for which there is room. -/
def add (sink : Sink) (bytes : Bytes) : Sink :=
  { sink with backward := bytes.reverseAux sink.backward }

@[simp] theorem delivered_withRoom (room : Option Nat) : (withRoom room).delivered = [] := rfl

@[simp] theorem delivered_add (sink : Sink) (bytes : Bytes) :
    (sink.add bytes).delivered = sink.delivered ++ bytes := by
  simp [add, delivered, List.reverseAux_eq]

/-- Delivers bytes, as many as there is room for. -/
def put (bytes : Bytes) : EStateM LogError Sink Unit := fun sink =>
  match sink.room with
  | none => .ok () (sink.add bytes)
  | some room =>
    let next := { sink.add (bytes.take room) with room := some (room - bytes.length) }
    if bytes.length ≤ room then .ok () next else .error (.transport .full) next

end Sink

/-- A sink with a count of the records on it. -/
structure Writer where
  sink : Sink
  /-- How many records have been started. -/
  records : Nat
deriving DecidableEq, Repr

namespace Writer

/-- Delivers bytes that are not the opening of a record. -/
def put (bytes : Bytes) : EStateM LogError Writer Unit := fun w =>
  match Sink.put bytes w.sink with
  | .ok () sink => .ok () { w with sink }
  | .error e sink => .error e { w with sink }

/-- Opens a record, which counts once it is opened. -/
def startRecord : EStateM LogError Writer Unit := do
  put (Wire.recordStart ((← get).records = 0))
  modify fun w => { w with records := w.records + 1 }

/-- Closes the log with the number of records that were started. -/
def endLog : EStateM LogError Writer Unit := do
  put (Wire.endMarker (← get).records)

end Writer
end Retrace
