import Retrace.Log.Basic
import Retrace.Replay.Execution

/-!
# Going through a log

A `Playback` replays a log event by event, in order, as far as it is asked to. Where a root call has
a checkpoint that does not lie beyond where it is asked to go, it may restore the checkpoint and
pass the call by.

Once it has met an error after which it cannot go on, every later request fails, and changes
nothing.
-/

namespace Retrace

/-- Where a playback is between two requests. -/
inductive Phase where
  | idle
  | inCall
  | faulted
deriving DecidableEq, Repr

/-- What one step has done. -/
inductive Step where
  | executed (time : Time) (kind : Kind)
  /-- A root call was passed by. -/
  | fastForwarded (begun ended : Time)
deriving DecidableEq, Repr

/-- A session, and how far it has come in its log. -/
structure Playback (ρ η σ : Type) where
  log : Log
  session : Session ρ η σ
  /-- The position of the next event. -/
  position : Nat
  phase : Phase
  /-- The time of the last event that was replayed or passed by. -/
  last : Option Time
  /-- Whether the playback was asked from outside to stop. -/
  stopped : Bool
deriving DecidableEq, Repr

/-- Steps of a playback. One that fails leaves it where it has come to. -/
abbrev PlaybackM (ρ η σ : Type) := EStateM ReplayError (Playback ρ η σ)

namespace Playback

variable {ρ η σ : Type}

/-- A playback at the start of a log. -/
def start (log : Log) (session : Session ρ η σ) : Playback ρ η σ :=
  ⟨log, session, 0, .idle, none, false⟩

/-- The event that is replayed next. -/
def next? (p : Playback ρ η σ) : Option Event := p.log.get? p.position

/-- Fails for good. -/
def fault {α : Type} (error : ReplayError) : PlaybackM ρ η σ α := do
  modify fun p => { p with phase := .faulted }
  throw error

/-- Says whether a call is open, for whoever asks between two requests. -/
def settle : PlaybackM ρ η σ Unit :=
  modify fun p => { p with phase := if p.session.stack.isEmpty then .idle else .inCall }

/-! ## Checkpoints -/

/-- The call that begins at a time, with its position. -/
def callBegin? (p : Playback ρ η σ) (begun : Time) : Option (Nat × CallBegin) := do
  let position ← p.log.positionOf? begun
  let e ← p.log.get? position
  let call ← e.callBegin?
  return (position, call)

/-- Notes a checkpoint at the begin of a call; answers whether there was none yet. -/
def attach (begun : Time) (c : Checkpoint η σ) : StateM (Playback ρ η σ) Bool := fun p =>
  match p.callBegin? begun with
  | none => (false, p)
  | some (position, _) =>
    (!p.session.notes.checkpoints.contains position,
      { p with session := { p.session with notes := p.session.notes.addCheckpoint position c } })

variable [Engine ρ η σ]

/-- The playback with a checkpoint noted for the root call that has just ended with `e`, if it is
set to take checkpoints. -/
def withCheckpoint (p : Playback ρ η σ) (e : Event) : Playback ρ η σ :=
  match e.callEnd? with
  | some call =>
    if call.depth = 0 ∧ p.session.settings.takeCheckpoints then
      match p.session.checkpoint? e.time with
      | some c => (attach call.begun c p).2
      | none => p
    else p
  | none => p

/-- The checkpoint after the root call that begins with the next event `e`, with the position and
the event of the call's end, if it may be restored on the way to `target`. -/
def shortcut? (p : Playback ρ η σ) (e : Event) (target : Time) :
    Option (CallBegin × Checkpoint η σ × Nat × Event × CallEnd) := do
  let call ← e.callBegin?
  let c ← p.session.notes.checkpoints.get? p.position
  let (endPosition, ending) ← p.log.matchingEnd? e.time
  let callEnd ← ending.callEnd?
  if p.session.settings.fastForward ∧ call.depth = 0 ∧ ending.time ≤ target ∧
      c.resumeAfter = ending.time then
    return (call, c, endPosition, ending, callEnd)
  else none

/-- Passes a root call by. -/
def fastForward (e : Event) (call : CallBegin) (c : Checkpoint η σ) (endPosition : Nat)
    (ending : Event) (callEnd : CallEnd) : PlaybackM ρ η σ Step := do
  let p ← get
  match Session.restore c p.session with
  | .error failure session =>
    set { p with session }
    fault (.executionFailure e.time .callBegin failure)
  | .ok () session =>
    let stack := (session.stack.startRoot e.time call.callback).recordMatch e.time ending.time
    -- the stack is as if the call had begun and ended here
    set { p with
      session := { session with stack }
      position := endPosition + 1
      phase := .idle
      last := some ending.time }
    if callEnd.raised then
      throw (.uncaughtException e.time ending.time callEnd.terminatingException)
    return .fastForwarded e.time ending.time

/-! ## Steps -/

variable [DecidableEq η]

/-- Replays the next event `e`. Also when that fails, the playback has come past the event. -/
def play (e : Event) : PlaybackM ρ η σ Step := do
  let p ← get
  let (result, session) := match Session.execute p.position e p.session with
    | .ok () session => (none, session)
    | .error error session => (some error, session)
  let past : Playback ρ η σ :=
    { p with session, position := p.position + 1, last := some e.time }
  match result with
  | none =>
    set (past.withCheckpoint e)
    settle
    return .executed e.time e.kind
  -- the call has ended as it did when it was recorded, so this is a place to come back to, too
  | some (.uncaughtException root ended terminating) =>
    set (past.withCheckpoint e)
    settle
    throw (.uncaughtException root ended terminating)
  | some error =>
    set past
    if error.isTerminal then fault error
    settle
    throw error

/-- Goes on by one event, or past a root call if its checkpoint does not lie beyond `target`. There
is no step at the end of the log. -/
def advance (target : Option Time) : PlaybackM ρ η σ (Option Step) := do
  let p ← get
  if p.phase = .faulted then throw .faulted
  if p.stopped then throw (.aborted (p.next?.map Event.time))
  match p.next? with
  | none =>
    match p.session.stack.outermost? with
    | some frame => fault (.truncatedLog frame.begun)
    | none => return none
  | some e =>
    if let some previous := p.last then
      if e.time ≤ previous then fault (.outOfOrder previous e.time)
    match target.bind (p.shortcut? e) with
    | some (call, c, endPosition, ending, callEnd) =>
      some <$> fastForward e call c endPosition ending callEnd
    | none => some <$> play e

/-- Replays one event. -/
def step : PlaybackM ρ η σ (Option Step) := advance none

/-- Replays one event, or passes a root call by that does not lie beyond `target`. -/
def stepToward (target : Time) : PlaybackM ρ η σ (Option Step) := advance (some target)

/-- As many steps as it takes to go through a log: between two restorations no event is replayed
twice, and a checkpoint that is restored twice would be restored for ever. -/
def enoughSteps (p : Playback ρ η σ) : Nat := (p.log.size + 1) * (p.log.size + 1)

/-- Goes on to the end of the log in at most so many steps. -/
def runWithin (target : Time) : Nat → PlaybackM ρ η σ Unit
  | 0 => return ()
  | steps + 1 => do
    if (← advance (some target)).isSome then runWithin target steps

/-- Goes on to the end of the log. It stops at every error; after one that is not terminal it can be
asked to go on. -/
def run : PlaybackM ρ η σ Unit := do
  let p ← get
  runWithin (p.log.lastTime?.getD ⟨0⟩) p.enoughSteps

/-- Goes on, in at most so many steps, until the next event lies beyond `target`. -/
def runUntilWithin (target : Time) : Nat → PlaybackM ρ η σ Unit
  | 0 => return ()
  | steps + 1 => do
    if (← get).next?.any fun e => target < e.time then return ()
    if (← advance (some target)).isSome then runUntilWithin target steps

/-- Goes on until the next event lies beyond `target`. -/
def runUntil (target : Time) : PlaybackM ρ η σ Unit := do
  runUntilWithin target (← get).enoughSteps

end Playback
end Retrace
