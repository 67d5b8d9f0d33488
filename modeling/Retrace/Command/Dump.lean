import Retrace.Action.Event
import Retrace.Json

/-!
# Events for people

An event is shown as a line, or as JSON data with everything that it holds.
-/

namespace Retrace

/-! ## As JSON -/

namespace Json

/-- A natural number. -/
def nat (n : Nat) : Json := .int n

/-- An object with one member, which names what its data is. -/
def tagged (name : String) (data : Json) : Json := .obj [(name, data)]

/-- A recorded value under the name of its case. The case without data is a name alone. -/
def ofValue : Recorded → Json
  | .null => .str "Null"
  | .bool b => tagged "Bool" (.bool b)
  | .i32 n => tagged "I32" (.int n.toInt)
  | .u32 n => tagged "U32" (nat n.toNat)
  | .i64 n => tagged "I64" (.int n.toInt)
  | .u64 n => tagged "U64" (nat n.toNat)
  | .f64 x => tagged "F64" (.double x)
  | .str s => tagged "Str" (.str s)
  | .ref tag => tagged "Tagged" (nat tag.id.toNat)

/-- Recorded values, in order. -/
def ofValues (values : List Recorded) : Json := .arr (values.map ofValue)

/-- What may be absent, `null` if it is. -/
def ofOption {α : Type} (data : α → Json) : Option α → Json
  | some a => data a
  | none => .null

end Json

/-- What an operation was given, by the names under which it is shown. A script is shown with its
text. -/
def Action.members : Action → List (String × Json)
  | convertToObject value => [("value", .ofValue value)]
  | createSymbol description => [("description", .ofValue description)]
  | allocateObject regular => [("regular", .bool regular)]
  | allocateArray length => [("length", .nat length.toNat)]
  | allocateArrayBuffer bytes => [("bytes", .arr (bytes.map fun b => .nat b.toNat))]
  | allocateFunction name => [("name", .ofOption .ofValue name)]
  | getAndClearException => []
  | getProperty property object =>
    [("property", .nat property.id.toNat), ("object", .ofValue object)]
  | getIndex index object => [("index", .ofValue index), ("object", .ofValue object)]
  | getOwnPropertyInfo property object =>
    [("property", .nat property.id.toNat), ("object", .ofValue object)]
  | getOwnPropertiesInfo names object => [("names", .bool names), ("object", .ofValue object)]
  | defineProperty object property descriptor =>
    [("object", .ofValue object), ("property", .nat property.id.toNat),
      ("descriptor", .ofValue descriptor)]
  | deleteProperty object property strict =>
    [("object", .ofValue object), ("property", .nat property.id.toNat), ("strict", .bool strict)]
  | setPrototype object prototype =>
    [("object", .ofValue object), ("prototype", .ofValue prototype)]
  | setProperty object property value strict =>
    [("object", .ofValue object), ("property", .nat property.id.toNat),
      ("value", .ofValue value), ("strict", .bool strict)]
  | setIndex object index value =>
    [("object", .ofValue object), ("index", .ofValue index), ("value", .ofValue value)]
  | getTypedArrayInfo buffer object =>
    [("returns_buffer", .bool buffer), ("object", .ofValue object)]
  | constructCall function args =>
    [("function", .nat function.id.toNat), ("args", .ofValues args)]
  | callbackOp op =>
    [("is_cancel", .bool op.cancels), ("is_repeating", .bool op.repeating),
      ("current_callback", .int op.current.id.toInt), ("function", .nat op.function.id.toNat),
      ("callback_id", .int op.callback.id.toInt)]
  | codeParse s =>
    [("document_id", .nat s.document.id.toNat), ("load_flags", .nat s.loadFlags.toNat),
      ("body_counter_id", .nat s.body.id.toNat), ("source_dir", .str s.directory),
      ("source_file", .str s.file), ("uri", .str s.uri), ("source", .str s.text)]
  | callBegin call =>
    [("depth", .nat call.depth.toNat), ("host_callback_id", .int call.callback.id.toInt),
      ("function", .nat call.function.id.toNat), ("begin_wall_time", .double call.wallTime),
      ("diagnostics", .ofOption (fun name => .tagged "name" (.str name)) call.diagnostics),
      ("args", .ofValues call.args)]
  | callEnd call =>
    [("matching_begin", .int call.begun.ticks.toInt), ("depth", .nat call.depth.toNat),
      ("has_script_exception", .bool call.scriptException),
      ("has_terminating_exception", .bool call.terminatingException),
      ("end_wall_time", .double call.wallTime)]

namespace Event

/-- An event with everything that it holds. -/
def json (e : Event) : Json :=
  .obj [("time", .int e.time.ticks.toInt), ("ctx", .nat e.context.id.toNat),
    ("payload", .obj (("kind", .str e.kind.name) :: e.action.members))]

/-! ## As a line -/

/-- What a line says of an event beside its time, context and kind. Most kinds are enough to go by;
the lines of calls, scripts and callbacks say more. -/
def detail (e : Event) : String :=
  match e.action with
  | .callBegin call =>
    let depth := call.depth.toNat
    let count := call.args.length
    s!" depth={depth} function={call.function} callback={call.callback} args={count}"
  | .callEnd call =>
    let depth := call.depth.toNat
    s!" begin={call.begun} depth={depth} exception={call.scriptException} " ++
      s!"terminating={call.terminatingException}"
  | .codeParse s =>
    let length := s.text.utf8ByteSize
    s!" doc={s.document} uri={s.uri} length={length}"
  | .callbackOp op =>
    let verb := if op.cancels then "cancel" else "schedule"
    s!" {verb} id={op.callback} function={op.function}"
  | _ => ""

/-- An event on a line, its time at the right of eight columns. -/
def line (e : Event) : String :=
  let time := toString e.time
  let margin := String.ofList (List.replicate (8 - time.length) ' ')
  s!"{margin}{time} ctx={e.context} {e.kind}{e.detail}"

end Event
end Retrace
