import Retrace.Log.Basic
import Retrace.Engine.Basic

/-!
# Recording

A `Recorder` builds a log while a host works with an engine. The host reports every operation after
it is done, with what came of it. The recorder gives the event its time, writes what the operation
was given with the tags known so far, and then tags the reference that came of it: inputs before
outputs, which is the order of replay.

A report that cannot be recorded changes nothing, and recording can go on after it.
-/

namespace Retrace

/-- Why something could not be recorded. -/
inductive RecordError where
  /-- A reference was reported that has no tag. -/
  | untaggedValue (kind : Kind)
  /-- An event does not follow the one before it. -/
  | outOfOrder (previous time : Time)
  /-- An end was reported for a call that is not the innermost open one. -/
  | callMismatch (named : Time) (innermost : Option Time)
  /-- There is no time left. -/
  | clockExhausted
  /-- The engine did not say what came of an operation. -/
  | failure (kind : Kind) (fault : Fault)
deriving DecidableEq, Repr

/-- The error as it is shown. -/
def RecordError.message : RecordError → String
  | untaggedValue kind => s!"untagged {kind} value passed to the recorder"
  | outOfOrder previous time => s!"action at time {time} does not follow time {previous}"
  | callMismatch named innermost =>
    s!"call end names begin {named}, innermost open call began at " ++ Time.describe innermost
  | clockExhausted => "event clock exhausted"
  | failure kind fault => s!"recording {kind} failed: " ++ fault.message

/-- A recording in the making. -/
structure Recorder (η : Type) where
  /-- Whether the begin of a call keeps the function's name. -/
  keepsNames : Bool
  /-- The time of the next event; there is none once the clock has run out. -/
  next : Option Time
  /-- The time of the last event. -/
  last : Option Time
  /-- The tags given so far. -/
  tags : TagTable η
  /-- When the calls began that have not ended, innermost first. -/
  openCalls : List Time
  /-- The events recorded so far. -/
  log : Log
deriving DecidableEq, Repr

/-- Steps of a recorder. One that fails leaves what it has changed until then. -/
abbrev RecordM (η : Type) := EStateM RecordError (Recorder η)

namespace Recorder

variable {η : Type} [DecidableEq η]

/-- A recorder that has been told nothing. -/
def start (keepsNames : Bool) : Recorder η :=
  ⟨keepsNames, some .first, none, .empty, [], .empty⟩

/-! ## Events -/

/-- Puts an event at the end of the log; the clock goes on from its time. -/
def commit (e : Event) : RecordM η Time := do
  modify fun r => { r with log := r.log.push e, last := some e.time, next := e.time.next? }
  return e.time

/-- Records an action at the next time. -/
def act (context : Context) (action : Action) : RecordM η Time := do
  match (← get).next with
  | some time => commit ⟨time, context, action⟩
  | none => throw .clockExhausted

/-- Tags the reference in a value, if there is one and it has no tag. -/
def track (value : Value η) : RecordM η Unit :=
  modify fun r => { r with tags := r.tags.trackValue value }

/-- Fails unless the call that began at a time is the innermost open one. -/
def checkInnermost (begun : Time) : RecordM η Unit := do
  let innermost := (← get).openCalls.head?
  if innermost ≠ some begun then throw (.callMismatch begun innermost)

/-- Why a value of an operation could not be written. -/
def encodingError (kind : Kind) : NamingError → RecordError
  | .untagged => .untaggedValue kind
  | other => .failure kind ⟨other.message⟩

/-- What an operation of a kind was given, with the tags known so far. -/
def encoded {α : Type} (kind : Kind) (encode : TagTable η → Except NamingError α) :
    RecordM η α := do
  match encode (← get).tags with
  | .ok a => return a
  | .error e => throw (encodingError kind e)

/-- The tag of a function that is called or scheduled. -/
def functionTag (kind : Kind) (function : η) : RecordM η Tag :=
  encoded kind fun tags => match tags.tagOf? function with
    | some tag => .ok tag
    | none => .error .untagged

/-- The arguments of a call as they are written. -/
def arguments (kind : Kind) (args : List (Value η)) : RecordM η (List Recorded) :=
  encoded kind fun tags => args.mapM (Value.encode tags)

/-! ## What a host reports -/

omit [DecidableEq η] in
/-- Whether the report of a request gives a tag to the reference in its result. Symbols get none,
and neither does a buffer that the host is not interested in; what else gets none has no reference
for a result. -/
def tagsResult : Request η → Bool
  | .toObject .. => true
  | .createSymbol .. => false
  | .createObject .. => true
  | .createArray .. => true
  | .createArrayBuffer .. => true
  | .createFunction .. => true
  | .getProperty .. => true
  | .getIndex .. => true
  | .ownPropertyDescriptor .. => true
  | .ownPropertyKeys .. => true
  | .defineProperty .. => false
  | .deleteProperty .. => true
  | .setPrototype .. => false
  | .setProperty .. => false
  | .setIndex .. => false
  | .typedArrayBuffer _ wanted => wanted
  | .loadScript .. => true

/-- Records a request that the engine has answered. -/
def request (context : Context) (request : Request η) (result : Value η) : RecordM η Time := do
  let action ← encoded request.kind request.encode
  let time ← act context action
  if tagsResult request then track result
  return time

/-- Records that the host took the pending exception, if there was one. -/
def takeException (context : Context) (exception : Except Fault (Option (Value η))) :
    RecordM η Time := do
  match exception with
  | .error fault => throw (.failure .getAndClearException fault)
  | .ok found =>
    let time ← act context .getAndClearException
    track (found.getD .null)
    return time

/-- Records a construction. What it threw is left to a later report of the exception. -/
def construct (context : Context) (function : η) (args : List (Value η)) (outcome : Outcome η) :
    RecordM η Time := do
  let tag ← functionTag .constructCall function
  let args ← arguments .constructCall args
  let time ← act context (.constructCall tag args)
  track (returned outcome)
  return time

/-- Records that the callback `current` scheduled the callback `id`, or cancelled it. -/
def callback (context : Context) (cancels repeating : Bool) (current : CallbackId) (function : η)
    (id : CallbackId) : RecordM η Time := do
  let tag ← functionTag .callbackOp function
  act context (.callbackOp ⟨cancels, repeating, current, tag, id⟩)

/-- Records the begin of a call, within the calls that are open. -/
def beginCall (context : Context) (function : η) (args : List (Value η)) (callback : CallbackId)
    (wallTime : Double) (name : Option String) : RecordM η Time := do
  let tag ← functionTag .callBegin function
  let args ← arguments .callBegin args
  let r ← get
  let depth := UInt32.ofNat r.openCalls.length
  let diagnostics := if r.keepsNames then name else none
  let time ← act context (.callBegin ⟨depth, callback, tag, wallTime, diagnostics, args⟩)
  modify fun r => { r with openCalls := time :: r.openCalls }
  return time

/-- Records the end of the innermost open call, which began at `begun`. -/
def endCall (context : Context) (begun : Time) (outcome : Outcome η) (wallTime : Double) :
    RecordM η Time := do
  checkInnermost begun
  let depth := UInt32.ofNat ((← get).openCalls.length - 1)
  let (script, terminating) := match outcome with
    | .ok _ => (false, false)
    | .error thrown => (!thrown.terminating, thrown.terminating)
  let time ← act context (.callEnd ⟨begun, depth, script, terminating, wallTime⟩)
  modify fun r => { r with openCalls := r.openCalls.tail }
  track (returned outcome)
  return time

/-- Records an event that has its time already, which has to be later than all before it. -/
def append (e : Event) : RecordM η Time := do
  if let some previous := (← get).last then
    if e.time ≤ previous then throw (.outOfOrder previous e.time)
  match e.action with
  | .callBegin _ => modify fun r => { r with openCalls := e.time :: r.openCalls }
  | .callEnd call =>
    checkInnermost call.begun
    modify fun r => { r with openCalls := r.openCalls.tail }
  | _ => pure ()
  commit e

end Recorder
end Retrace
