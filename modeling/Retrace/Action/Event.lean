import Retrace.Value
import Retrace.Action.Kind

/-!
# Events

An event is one recorded operation: the time at which it happened, the context it applied to and an
`Action`, which holds what the operation was given. Results are not recorded; replaying the
operation produces them again.

What replay learns about an event (a checkpoint, the last statement, the place of a callback) is not
part of it: it is kept beside the log, under the event's position. So two events are equal exactly
when they record the same thing.
-/

namespace Retrace

/-- Scheduling a host callback, or cancelling it. -/
structure CallbackOp where
  cancels : Bool
  /-- Whether the callback is to run again and again. -/
  repeating : Bool
  /-- The host callback that was running when the operation was asked for. -/
  current : CallbackId
  /-- What the callback calls. -/
  function : Tag
  /-- The callback that is scheduled or cancelled. -/
  callback : CallbackId
deriving DecidableEq, Repr

/-- A script that was parsed and loaded, with its text. -/
structure Script where
  document : DocumentId
  loadFlags : UInt32
  body : BodyId
  /-- The directory, the document and the `uri` together say which source this is. -/
  directory : String
  file : String
  uri : String
  /-- The text itself. No record holds it; a store keeps it under the script's key. -/
  text : String
deriving DecidableEq, Repr

/-- The start of a call into an existing function. -/
structure CallBegin where
  /-- How many calls enclose this one; a root call has depth 0. -/
  depth : UInt32
  /-- The host callback that drives the call, if one does. It matters for root calls only. -/
  callback : CallbackId
  function : Tag
  /-- The host's clock at the call, in milliseconds. -/
  wallTime : Double
  /-- The function's name, where the recorder was asked to keep it. -/
  diagnostics : Option String
  args : List Recorded
deriving DecidableEq, Repr

/-- The end of the call that began at `begun`. -/
structure CallEnd where
  begun : Time
  /-- How many calls enclose the one that ends. -/
  depth : UInt32
  /-- Whether the call ended in an exception of a script. -/
  scriptException : Bool
  /-- Whether the call ended in an exception that ends all scripts. -/
  terminatingException : Bool
  /-- The host's clock at the end, in milliseconds. -/
  wallTime : Double
deriving DecidableEq, Repr

/-- Whether the call ended in an exception, of whatever sort. -/
def CallEnd.raised (e : CallEnd) : Bool := e.scriptException || e.terminatingException

/-- What was done, with what it was given. The references among the values are tags, so that an
action means the same in every run. -/
inductive Action where
  | convertToObject (value : Recorded)
  | createSymbol (description : Recorded)
  | allocateObject (regular : Bool)
  | allocateArray (length : UInt32)
  | allocateArrayBuffer (bytes : List UInt8)
  | allocateFunction (name : Option Recorded)
  | getAndClearException
  | getProperty (property : PropertyId) (object : Recorded)
  | getIndex (index object : Recorded)
  | getOwnPropertyInfo (property : PropertyId) (object : Recorded)
  | getOwnPropertiesInfo (names : Bool) (object : Recorded)
  | defineProperty (object : Recorded) (property : PropertyId) (descriptor : Recorded)
  | deleteProperty (object : Recorded) (property : PropertyId) (strict : Bool)
  | setPrototype (object prototype : Recorded)
  | setProperty (object : Recorded) (property : PropertyId) (value : Recorded) (strict : Bool)
  | setIndex (object index value : Recorded)
  | getTypedArrayInfo (returnsBuffer : Bool) (object : Recorded)
  | constructCall (function : Tag) (args : List Recorded)
  | callbackOp (op : CallbackOp)
  | codeParse (script : Script)
  | callBegin (call : CallBegin)
  | callEnd (call : CallEnd)
deriving DecidableEq, Repr

namespace Action

/-- The kind of an operation, which decides how its record is laid out. -/
def kind : Action → Kind
  | convertToObject .. => .convertToObject
  | createSymbol .. => .createSymbol
  | allocateObject .. => .allocateObject
  | allocateArray .. => .allocateArray
  | allocateArrayBuffer .. => .allocateArrayBuffer
  | allocateFunction .. => .allocateFunction
  | getAndClearException => .getAndClearException
  | getProperty .. => .getProperty
  | getIndex .. => .getIndex
  | getOwnPropertyInfo .. => .getOwnPropertyInfo
  | getOwnPropertiesInfo .. => .getOwnPropertiesInfo
  | defineProperty .. => .defineProperty
  | deleteProperty .. => .deleteProperty
  | setPrototype .. => .setPrototype
  | setProperty .. => .setProperty
  | setIndex .. => .setIndex
  | getTypedArrayInfo .. => .getTypedArrayInfo
  | constructCall .. => .constructCall
  | callbackOp .. => .callbackOp
  | codeParse .. => .codeParse
  | callBegin .. => .callBegin
  | callEnd .. => .callEnd

/-- The recorded values among what the operation was given. -/
def values : Action → List Recorded
  | convertToObject v | createSymbol v | allocateFunction (some v) | getProperty _ v
  | getOwnPropertyInfo _ v | getOwnPropertiesInfo _ v | deleteProperty v _ _
  | getTypedArrayInfo _ v => [v]
  | getIndex v w | defineProperty v _ w | setPrototype v w | setProperty v _ w _ => [v, w]
  | setIndex v w u => [v, w, u]
  | constructCall _ vs => vs
  | callBegin call => call.args
  | _ => []

/-- How many bytes the operation's buffers and texts take. -/
def payloadBytes (a : Action) : Nat :=
  -- what the operation holds beside its recorded values
  let own := match a with
    | allocateArrayBuffer bytes => bytes.length
    | codeParse s => s.text.utf8ByteSize + s.directory.utf8ByteSize + s.file.utf8ByteSize +
        s.uri.utf8ByteSize
    | callBegin call => (call.diagnostics.map String.utf8ByteSize).getD 0
    | _ => 0
  a.values.foldr (fun v n => v.payloadBytes + n) own

/-- Replaces every double among what the operation was given. -/
def mapDouble (f : Double → Double) : Action → Action
  | convertToObject v => convertToObject (v.mapDouble f)
  | createSymbol v => createSymbol (v.mapDouble f)
  | allocateFunction name => allocateFunction (name.map (Value.mapDouble f))
  | getProperty p v => getProperty p (v.mapDouble f)
  | getIndex i v => getIndex (i.mapDouble f) (v.mapDouble f)
  | getOwnPropertyInfo p v => getOwnPropertyInfo p (v.mapDouble f)
  | getOwnPropertiesInfo n v => getOwnPropertiesInfo n (v.mapDouble f)
  | defineProperty v p d => defineProperty (v.mapDouble f) p (d.mapDouble f)
  | deleteProperty v p s => deleteProperty (v.mapDouble f) p s
  | setPrototype v p => setPrototype (v.mapDouble f) (p.mapDouble f)
  | setProperty v p w s => setProperty (v.mapDouble f) p (w.mapDouble f) s
  | setIndex v i w => setIndex (v.mapDouble f) (i.mapDouble f) (w.mapDouble f)
  | getTypedArrayInfo b v => getTypedArrayInfo b (v.mapDouble f)
  | constructCall t vs => constructCall t (vs.map (Value.mapDouble f))
  | callBegin c => callBegin
      { c with wallTime := f c.wallTime, args := c.args.map (Value.mapDouble f) }
  | callEnd c => callEnd { c with wallTime := f c.wallTime }
  | a => a

end Action

/-- One recorded operation. -/
structure Event where
  time : Time
  context : Context
  action : Action
deriving DecidableEq, Repr

namespace Event

/-- The kind of the operation that was recorded. -/
def kind (e : Event) : Kind := e.action.kind

/-- The call that the event begins, if it begins one. -/
def callBegin? (e : Event) : Option CallBegin :=
  match e.action with
  | .callBegin call => some call
  | _ => none

/-- The call that the event ends, if it ends one. -/
def callEnd? (e : Event) : Option CallEnd :=
  match e.action with
  | .callEnd call => some call
  | _ => none

/-- Whether the event begins a call that no other call encloses. -/
def beginsRoot (e : Event) : Bool := e.callBegin?.any fun call => call.depth = 0

/-- Whether the event ends a call that no other call encloses. -/
def endsRoot (e : Event) : Bool := e.callEnd?.any fun call => call.depth = 0

/-- Replaces every double of the event. -/
def mapDouble (f : Double → Double) (e : Event) : Event :=
  { e with action := e.action.mapDouble f }

/-- Equality under which doubles compare as numbers: the zeros agree, and an event that holds a NaN
equals none, not even itself. -/
def same (e e' : Event) : Bool :=
  let plain (x : Double) : Double := if x.isZero then ⟨0⟩ else x
  let number (x : Double) : Double := if x.isNaN then ⟨0⟩ else x
  e.mapDouble plain = e'.mapDouble plain && e.mapDouble number = e

end Event
end Retrace
