import Retrace.Replay.Session

/-!
# Replaying one event

To replay an event is to enter its context, read what the operation was given through the tags of
the session, let the engine do it, and tag the reference that comes of it. A value is read before
the next one is, and all of them before anything is done; so an event that names an unknown tag
leaves the engine as it was.
-/

namespace Retrace
namespace Session

variable {ρ η σ : Type} [DecidableEq η] [Engine ρ η σ]

omit [DecidableEq η] in
/-- Whether the replay of a request gives a tag to the reference in its result. A replay has to give
tags where the recording gave them, and nowhere else. -/
def tagsResult : Request η → Bool
  | .toObject .. => true
  | .createSymbol .. => false
  | .createObject .. => true
  | .createArray .. => true
  | .createArrayBuffer .. => true
  | .createFunction .. => true
  | .getProperty .. => true
  | .getIndex .. => true
  | .ownPropertyDescriptor .. => true
  | .ownPropertyKeys .. => true
  | .defineProperty .. => false
  | .deleteProperty .. => true
  | .setPrototype .. => false
  | .setProperty .. => false
  | .setIndex .. => false
  | .typedArrayBuffer _ wanted => wanted
  | .loadScript .. => true

/-- Lets the engine answer a request. -/
def answer (time : Time) (request : Request η) : SessionM ρ η σ Unit := do
  let value ← operate (Engine.perform request) (.executionFailure time request.kind)
  if tagsResult request then track value

/-- Gives out what was thrown last, which is the operation's result. -/
def takeException : SessionM ρ η σ Unit := do
  if let some thrown := (← get).pending then
    modify fun s => { s with pending := none }
    track thrown.value

/-- Constructs an object. What is thrown is kept until it is taken. -/
def construct (time : Time) (function : Tag) (args : List Recorded) : SessionM ρ η σ Unit := do
  let (callee, args) ← callOf time function args
  let outcome ← invoke (Engine.construct callee args)
  let _ ← settle outcome

/-- Schedules or cancels a callback, and notes where this was. -/
def applyCallback (position : Nat) (time : Time) (op : CallbackOp) : SessionM ρ η σ Unit := do
  let s ← get
  let place : CallbackPlace := ⟨s.stack.root, time, Engine.lastStatement? s.engine⟩
  set { s with
    callbacks := s.callbacks.apply time op
    notes := s.notes.addPlace position place }

/-- Replays an event, which stands at a position of the log. -/
def execute (position : Nat) (e : Event) : SessionM ρ η σ Unit := do
  enter e.time e.context
  match e.action.request? (← get).tags with
  | some (.ok request) => answer e.time request
  | some (.error error) => throw (.ofRequest e.time e.kind error)
  | none =>
    match e.action with
    | .getAndClearException => takeException
    | .constructCall function args => construct e.time function args
    | .callbackOp op => applyCallback position e.time op
    | .callBegin call => beginCall e.time call
    | .callEnd call => endCall position e.time call
    | _ => pure ()

end Session
end Retrace
