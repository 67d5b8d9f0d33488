import Retrace.Action.Event
import Retrace.Wire.Framing

/-!
# Events as records

`Action.fields` gives what an action's record holds; `Action.ofFields` gives the action back. The
two differ for one kind only. A record of a parsed script holds the length of the text and not the
text, which a store of sources keeps under the script's key; reading such a record loads the text
and compares lengths.

Writing an event is a list of `Output`s, because it may speak to the store between two pieces of
text: the store gets a script's text after the record's header is written and before the rest.
`Action.outputs` says for each kind what is written. It does not go by the layout of the kind, by
which records are read; that the two agree is shown where records are read back.
-/

namespace Retrace

/-- How a text is loaded from a store. -/
abbrev Loader := SourceKey → Except SourceError String

/-- The key under which a store keeps a script's text. -/
def Script.key (s : Script) : SourceKey := ⟨s.directory, s.document.sourceName, s.uri⟩

namespace Action

/-- What an action's record holds, laid out for its kind. -/
def fields : (a : Action) → a.kind.Fields
  | convertToObject v => (v, ())
  | createSymbol v => (v, ())
  | allocateObject regular => (regular, ())
  | allocateArray length => ((), length, ())
  | allocateArrayBuffer bytes => (bytes, ())
  | allocateFunction name => (name, ())
  | getAndClearException => ()
  | getProperty p v => (p.id, v, ())
  | getIndex i v => (i, v, ())
  | getOwnPropertyInfo p v => (p.id, v, ())
  | getOwnPropertiesInfo names v => (names, v, ())
  | defineProperty v p d => (v, p.id, d, ())
  | deleteProperty v p strict => (v, p.id, strict, ())
  | setPrototype v p => (v, p, ())
  | setProperty v p w strict => (v, p.id, w, strict, ())
  | setIndex v i w => (v, i, w, ())
  | getTypedArrayInfo buffer v => (buffer, v, ())
  | constructCall f args => (f.id, args, ())
  | callbackOp op => (op.cancels, op.repeating, op.current.id, op.function.id, op.callback.id, ())
  | codeParse s => (s.document.id, s.loadFlags, s.body.id, s.directory, s.file, s.uri,
      UInt32.ofNat s.text.utf8ByteSize, ())
  | callBegin c => (c.depth, c.callback.id, c.function.id, c.wallTime, c.diagnostics, c.args, ())
  | callEnd c => (c.begun.ticks, c.depth, c.scriptException, c.terminatingException, c.wallTime, ())

/-- The script of a record, with its text as the store has it. -/
def loadScript (load : Loader) (s : Script) (length : UInt32) : Except LogError Action :=
  match load s.key with
  | .error e => .error (.source e)
  | .ok text =>
    if text.utf8ByteSize = length.toNat then .ok (codeParse { s with text })
    else .error (.source (.lengthMismatch s.uri length text.utf8ByteSize))

/-- The action whose record holds the given fields. -/
def ofFields (load : Loader) : (k : Kind) → k.Fields → Except LogError Action
  | .convertToObject, (v, ()) => .ok (convertToObject v)
  | .createSymbol, (v, ()) => .ok (createSymbol v)
  | .allocateObject, (regular, ()) => .ok (allocateObject regular)
  | .allocateArray, ((), length, ()) => .ok (allocateArray length)
  | .allocateArrayBuffer, (bytes, ()) => .ok (allocateArrayBuffer bytes)
  | .allocateFunction, (name, ()) => .ok (allocateFunction name)
  | .getAndClearException, () => .ok getAndClearException
  | .getProperty, (p, v, ()) => .ok (getProperty ⟨p⟩ v)
  | .getIndex, (i, v, ()) => .ok (getIndex i v)
  | .getOwnPropertyInfo, (p, v, ()) => .ok (getOwnPropertyInfo ⟨p⟩ v)
  | .getOwnPropertiesInfo, (names, v, ()) => .ok (getOwnPropertiesInfo names v)
  | .defineProperty, (v, p, d, ()) => .ok (defineProperty v ⟨p⟩ d)
  | .deleteProperty, (v, p, strict, ()) => .ok (deleteProperty v ⟨p⟩ strict)
  | .setPrototype, (v, p, ()) => .ok (setPrototype v p)
  | .setProperty, (v, p, w, strict, ()) => .ok (setProperty v ⟨p⟩ w strict)
  | .setIndex, (v, i, w, ()) => .ok (setIndex v i w)
  | .getTypedArrayInfo, (buffer, v, ()) => .ok (getTypedArrayInfo buffer v)
  | .constructCall, (f, args, ()) => .ok (constructCall ⟨f⟩ args)
  | .callbackOp, (cancels, repeating, current, function, callback, ()) =>
    .ok (callbackOp ⟨cancels, repeating, ⟨current⟩, ⟨function⟩, ⟨callback⟩⟩)
  | .codeParse, (document, loadFlags, body, directory, file, uri, length, ()) =>
    loadScript load ⟨⟨document⟩, loadFlags, ⟨body⟩, directory, file, uri, ""⟩ length
  | .callBegin, (depth, callback, function, wallTime, diagnostics, args, ()) =>
    .ok (callBegin ⟨depth, ⟨callback⟩, ⟨function⟩, wallTime, diagnostics, args⟩)
  | .callEnd, (begun, depth, script, terminating, wallTime, ()) =>
    .ok (callEnd ⟨⟨begun⟩, depth, script, terminating, wallTime⟩)

end Action

/-! ## Writing -/

/-- What writing consists of. It stops at the first of these that fails. -/
inductive Output where
  | text (bytes : Bytes)
  /-- Hands a script's text to the store. -/
  | script (key : SourceKey) (text : String)
  /-- Writing stops here. -/
  | refusal (error : LogError)
deriving DecidableEq, Repr

namespace Output

/-- A field of a record, with the comma in front of it. -/
def field (bytes : Bytes) : Output := .text (44 :: bytes)

/-- Something that is done only if a size can be declared, in 32 bits. -/
def ifShort (size : Nat) (problem : Nat → FieldProblem) (o : Output) : Output :=
  if UInt32.size ≤ size then .refusal (.invalidField (problem size) 0) else o

end Output

/-- What is done to write an action's record behind the header, field by field. A list of values or
bytes that is too long stops the writing where its length would stand. A script's text is handed to
the store before any field is written. -/
def Action.outputs : Action → List Output
  | convertToObject value => [.field (Wire.keyedValue .entry value)]
  | createSymbol description => [.field (Wire.keyedValue .entry description)]
  | allocateObject regular => [.field (Wire.keyed .boolVal .bool regular)]
  | allocateArray length =>
    [.field (Wire.keyed .typeId .u32 arrayTypeId), .field (Wire.keyed .u32Val .u32 length)]
  | allocateArrayBuffer bytes =>
    [.ifShort bytes.length .bufferTooLong (.field (Wire.bytes bytes))]
  | allocateFunction name =>
    .field (Wire.keyed .boolVal .bool name.isSome) ::
      name.toList.map fun name => .field (Wire.keyedValue .entry name)
  | getAndClearException => []
  | getProperty property object | getOwnPropertyInfo property object =>
    [.field (Wire.keyed .propertyId .u32 property.id), .field (Wire.keyedValue .entry object)]
  | getIndex index object =>
    [.field (Wire.keyedValue .index index), .field (Wire.keyedValue .entry object)]
  | getOwnPropertiesInfo names object =>
    [.field (Wire.keyed .boolVal .bool names), .field (Wire.keyedValue .entry object)]
  | defineProperty object property descriptor =>
    [.field (Wire.keyedValue .entry object), .field (Wire.keyed .propertyId .u32 property.id),
      .field (Wire.keyedValue .entry descriptor)]
  | deleteProperty object property strict =>
    [.field (Wire.keyedValue .entry object), .field (Wire.keyed .propertyId .u32 property.id),
      .field (Wire.keyed .boolVal .bool strict)]
  | setPrototype object prototype =>
    [.field (Wire.keyedValue .entry object), .field (Wire.keyedValue .argRetVal prototype)]
  | setProperty object property value strict =>
    [.field (Wire.keyedValue .entry object), .field (Wire.keyed .propertyId .u32 property.id),
      .field (Wire.keyedValue .argRetVal value), .field (Wire.keyed .boolVal .bool strict)]
  | setIndex object index value =>
    [.field (Wire.keyedValue .entry object), .field (Wire.keyedValue .index index),
      .field (Wire.keyedValue .argRetVal value)]
  | getTypedArrayInfo buffer object =>
    [.field (Wire.keyed .boolVal .bool buffer), .field (Wire.keyedValue .entry object)]
  | constructCall function args =>
    [.field (Wire.keyed .logTag .u64 function.id),
      .ifShort args.length .tooManyValues (.field (Wire.values args))]
  | callbackOp op =>
    [.field (Wire.keyed .boolVal .bool op.cancels), .field (Wire.keyed .boolVal .bool op.repeating),
      .field (Wire.keyed .hostCallbackId .i64 op.current.id),
      .field (Wire.keyed .logTag .u64 op.function.id),
      .field (Wire.keyed .newCallbackId .i64 op.callback.id)]
  | codeParse s =>
    [.ifShort s.text.utf8ByteSize .textTooLong (.script s.key s.text),
      .field (Wire.keyed .documentId .u64 s.document.id),
      .field (Wire.keyed .loadFlag .u32 s.loadFlags),
      .field (Wire.keyed .bodyCounterId .u64 s.body.id),
      .field (Wire.keyedText .logDir s.directory), .field (Wire.keyedText .src s.file),
      .field (Wire.keyedText .uri s.uri),
      .field (Wire.length (UInt32.ofNat s.text.utf8ByteSize))]
  | callBegin call =>
    [.field (Wire.keyed .rootNestingDepth .u32 call.depth),
      .field (Wire.keyed .hostCallbackId .i64 call.callback.id),
      .field (Wire.keyed .logTag .u64 call.function.id),
      .field (Wire.keyed .beginTime .f64 call.wallTime), .field (Wire.diagnostics call.diagnostics),
      .ifShort call.args.length .tooManyValues (.field (Wire.values call.args))]
  | callEnd call =>
    [.field (Wire.keyed .matchingCallBegin .i64 call.begun.ticks),
      .field (Wire.keyed .rootNestingDepth .u32 call.depth),
      .field (Wire.keyed .boolVal .bool call.scriptException),
      .field (Wire.keyed .boolVal .bool call.terminatingException),
      .field (Wire.keyed .endTime .f64 call.wallTime)]

namespace Event

/-- What is done to write an event as a record, which is the first of its log or not. -/
def outputs (first : Bool) (e : Event) : List Output :=
  .text (Wire.recordStart first) :: .text (Wire.recordHeader e.time e.context e.kind) ::
    e.action.outputs ++ [.text Wire.recordEnd]

/-- Reads the next event. There is none once the end marker has been taken. -/
def read (load : Loader) : ReadM (Option Event) := do
  if !(← Reader.startRecord) then return none
  let header ← Reader.recordHeader
  let fields ← header.kind.layout.read
  match Action.ofFields load header.kind fields with
  | .error e => throw e
  | .ok action =>
    Reader.expect '}'
    return some ⟨header.time, header.context, action⟩

end Event
end Retrace
