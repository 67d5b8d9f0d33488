import Retrace.Replay.CallStack
import Retrace.Replay.Callbacks

/-!
# Sessions

A `Session` is all that one replay changes: the engine, the tags of its references, the open calls,
the pending callbacks, the exception that was thrown last and not taken yet. A `Checkpoint` is what
of it has to come back to go on after a root call as if the call had just been replayed.

While a log is replayed, some things become known about its events. They are kept as `Notes`, beside
the log and by position, each at most once; a session that replays the same log again takes them
over.
-/

namespace Retrace

/-- What can be chosen about a replay. -/
structure Settings where
  /-- Restore a checkpoint of a root call, if there is one, and do not replay the call. -/
  fastForward : Bool := true
  /-- Take a checkpoint after every root call. -/
  takeCheckpoints : Bool := false
  /-- Fail if a call ends in an exception and its recording did not, or the other way round. -/
  verifyExceptions : Bool := false
  /-- How many calls may be open at a time. -/
  maxDepth : Nat := 256
deriving DecidableEq, Repr

/-- The state of a session after a root call. -/
structure Checkpoint (η σ : Type) where
  snapshot : σ
  tags : TagTable η
  callbacks : Callbacks
  pending : Option (Thrown η)
  resumeAfter : Time
deriving DecidableEq, Repr

/-- Where replay was when a callback was scheduled or cancelled. -/
structure CallbackPlace where
  /-- The last root call begun by then. -/
  root : Option Time
  time : Time
  statement : Option Statement
deriving DecidableEq, Repr

/-! ## Notes -/

/-- What replay has found out about the events of a log, by their positions. -/
structure Notes (η σ : Type) where
  /-- The state after a root call, at its begin. -/
  checkpoints : OrderedMap Nat (Checkpoint η σ)
  /-- The last statement of a root call, at its end. -/
  statements : OrderedMap Nat Statement
  /-- Where replay was when a callback was scheduled or cancelled, at the operation. -/
  places : OrderedMap Nat CallbackPlace
deriving DecidableEq, Repr

namespace Notes

variable {η σ : Type}

/-- Nothing is known yet. -/
def empty : Notes η σ := ⟨.empty, .empty, .empty⟩

/-- Writes something down, unless there is something already. -/
def once {α : Type} (known : OrderedMap Nat α) (position : Nat) (a : α) : OrderedMap Nat α :=
  if known.contains position then known else known.insert position a

/-- Notes the state after the root call that begins at a position. -/
def addCheckpoint (notes : Notes η σ) (position : Nat) (c : Checkpoint η σ) : Notes η σ :=
  { notes with checkpoints := once notes.checkpoints position c }

/-- Notes the last statement of the root call that ends at a position. -/
def addStatement (notes : Notes η σ) (position : Nat) (s : Statement) : Notes η σ :=
  { notes with statements := once notes.statements position s }

/-- Notes where replay was at the operation on a callback at a position. -/
def addPlace (notes : Notes η σ) (position : Nat) (place : CallbackPlace) : Notes η σ :=
  { notes with places := once notes.places position place }

end Notes

/-! ## Sessions -/

/-- All that one replay changes. -/
structure Session (ρ η σ : Type) where
  engine : ρ
  settings : Settings
  tags : TagTable η
  stack : CallStack η
  callbacks : Callbacks
  /-- What was thrown last and has not been taken. -/
  pending : Option (Thrown η)
  /-- The context that the engine is known to be in. -/
  context : Option Context
  notes : Notes η σ
deriving DecidableEq, Repr

/-- Steps of a session. One that fails leaves what it has changed until then. -/
abbrev SessionM (ρ η σ : Type) := EStateM ReplayError (Session ρ η σ)

namespace Session

variable {ρ η σ : Type}

/-- A session in which nothing has been replayed, over a log about which something may be known. -/
def start (engine : ρ) (settings : Settings) (notes : Notes η σ) : Session ρ η σ :=
  ⟨engine, settings, .empty, .empty, .empty, none, none, notes⟩

variable [Engine ρ η σ]

/-- Lets the engine do something that may fail. -/
def operate {α : Type} (m : EStateM Fault ρ α) (failure : Fault → ReplayError) :
    SessionM ρ η σ α := fun s =>
  match m s.engine with
  | .ok a engine => .ok a { s with engine }
  | .error fault engine => .error (failure fault) { s with engine }

/-- Lets the engine make a call. -/
def invoke (m : StateM ρ (Outcome η)) : SessionM ρ η σ (Outcome η) := fun s =>
  let (outcome, engine) := m s.engine
  .ok outcome { s with engine }

/-- Puts the engine into a context, unless it is there. -/
def enter (time : Time) (context : Context) : SessionM ρ η σ Unit := do
  if (← get).context ≠ some context then
    operate (Engine.enter context) (.unknownContext time context)
    modify fun s => { s with context := some context }

/-- Tags the reference in a value, if there is one and it has no tag. -/
def track [DecidableEq η] (value : Value η) : SessionM ρ η σ Unit :=
  modify fun s => { s with tags := s.tags.trackValue value }

/-- Something that the tags of the session say, in the replay of an event. -/
def named {α : Type} (time : Time) (find : TagTable η → Except NamingError α) :
    SessionM ρ η σ α := do
  match find (← get).tags with
  | .ok a => return a
  | .error e => throw (.ofNaming time e)

/-- The function and the arguments of a call, read through the tags; the function first. -/
def callOf (time : Time) (function : Tag) (args : List Recorded) :
    SessionM ρ η σ (η × List (Value η)) := do
  let callee ← named time fun tags => tags.resolve function
  let args ← named time fun tags => args.mapM (Value.decode tags)
  return (callee, args)

/-! ## Calls -/

/-- Opens a call. The engine is called when the call ends. -/
def beginCall (time : Time) (call : CallBegin) : SessionM ρ η σ Unit := do
  let s ← get
  let actual := s.stack.depth
  if call.depth.toNat ≠ actual then throw (.depthMismatch time call.depth actual)
  if s.settings.maxDepth ≤ actual then throw (.callDepthExceeded time s.settings.maxDepth)
  -- the root call counts as started, and its callback as run, also if the function is not known
  if call.depth = 0 then
    modify fun s => { s with
      stack := s.stack.startRoot time call.callback
      callbacks := (s.callbacks.onRootCall call.callback).2 }
  let (callee, args) ← callOf time call.function call.args
  let frame : Frame η := ⟨time, call.depth, call.function, call.callback, callee, args⟩
  modify fun s => { s with stack := s.stack.push frame }

/-- Takes the innermost open call from the stack, as the end of a call at a time does. -/
def popCall (time : Time) (call : CallEnd) : SessionM ρ η σ (Frame η) := fun s =>
  match CallStack.popMatching time call.begun call.depth s.stack with
  | .ok frame stack => .ok frame { s with stack }
  | .error e stack => .error e { s with stack }

/-- Does with the outcome of a call what replay does; answers whether something was thrown. -/
def settle [DecidableEq η] (outcome : Outcome η) : SessionM ρ η σ Bool := do
  match outcome with
  | .ok value => track value; return false
  | .error thrown =>
    modify fun s => { s with pending := some thrown }
    return true

/-- Makes the call that ends at a position. If it is a root call and was recorded to end in an
exception, this is reported once everything else is done. -/
def endCall [DecidableEq η] (position : Nat) (time : Time) (call : CallEnd) :
    SessionM ρ η σ Unit := do
  let frame ← popCall time call
  let outcome ← invoke (Engine.call frame.callee frame.args)
  let replayed ← settle outcome
  if call.depth = 0 then
    if let some statement := Engine.lastStatement? (← get).engine then
      modify fun s => { s with notes := s.notes.addStatement position statement }
  if call.raised ≠ replayed ∧ (← get).settings.verifyExceptions then
    throw (.exceptionDivergence time call.raised replayed)
  if call.depth = 0 ∧ call.raised then
    throw (.uncaughtException frame.begun time call.terminatingException)

/-! ## Checkpoints -/

/-- The checkpoint to go on from after a time, if the engine gives a snapshot. -/
def checkpoint? (s : Session ρ η σ) (resumeAfter : Time) : Option (Checkpoint η σ) :=
  (Engine.capture? s.engine).map fun snapshot =>
    ⟨snapshot, s.tags, s.callbacks, s.pending, resumeAfter⟩

/-- Goes back to a checkpoint. No call is open then, and no context is known to be current. -/
def restore (c : Checkpoint η σ) : EStateM Fault (Session ρ η σ) Unit := fun s =>
  match Engine.restore c.snapshot s.engine with
  | .ok () engine => .ok () { s with
      engine
      tags := c.tags
      callbacks := c.callbacks
      pending := c.pending
      stack := s.stack.clearFrames
      context := none }
  | .error fault engine => .error fault { s with engine }

end Session
end Retrace
