import Retrace.Action.Kind
import Retrace.Wire.Reader

/-!
# Fields and how records lay them out

A record is a list of fields in an order that its kind fixes. A `Field` is one of the shapes that a
field can have; it says how a value is written (`Field.written`) and how it is read (`Field.read`).
A `Layout` is a list of fields, and what a record holds under it is a tuple of what the fields hold.
Every field of a record has a comma in front of it, the header having come before.

So the format of all kinds of records is data, and what is shown of a field holds of every record.
Records are read by their layouts. What writes them (`Action.outputs`) knows nothing of layouts, and
has to write what the layout of the kind says.
-/

namespace Retrace

/-- The number by which a record says that an array is an array. -/
def arrayTypeId : UInt32 := 28

/-! ## Writing -/

namespace Wire

/-- Parts with commas between them. -/
def separated (parts : List Bytes) : Bytes := (parts.intersperse [44]).flatten

/-- A scalar under its key. -/
def keyed {α : Type} (k : Key) (s : Scalar α) (a : α) : Bytes := k.written ++ s.written a

/-- A text under its key. -/
def keyedText (k : Key) (s : String) : Bytes := k.written ++ Quoted.written s

/-- The key of a sequence, and the bracket that opens it. -/
def sequenceStart (k : Key) : Bytes := k.written ++ [91]

/-- A length, of the sequence that follows or of a text that a store keeps. -/
def length (n : UInt32) : Bytes := keyed .length .u32 n

/-- A sequence behind its length. -/
def sequence {α : Type} (k : Key) (element : α → Bytes) (list : List α) : Bytes :=
  length (UInt32.ofNat list.length) ++ 44 :: sequenceStart k ++
    separated (list.map element) ++ [93]

/-- The bytes of a buffer, behind their number. -/
def bytes (list : List UInt8) : Bytes := sequence .bytes Scalar.u8.written list

/-- The one field of a value's object: the case, and what it holds. -/
def valueCase : Recorded → Bytes
  | .null => Key.nullVal.written ++ [110, 117, 108, 108]
  | .bool b => keyed .boolVal .bool b
  | .i32 n => keyed .i32Val .i32 n
  | .u32 n => keyed .u32Val .u32 n
  | .i64 n => keyed .i64Val .i64 n
  | .u64 n => keyed .u64Val .u64 n
  | .f64 x => keyed .doubleVal .f64 x
  | .str s => keyedText .stringVal s
  | .ref tag => keyed .tagVal .u64 tag.id

/-- A value, as an object with one field. -/
def value (v : Recorded) : Bytes := 123 :: valueCase v ++ [125]

/-- A value under its key. -/
def keyedValue (k : Key) (v : Recorded) : Bytes := k.written ++ value v

/-- The values of a call, behind their number. -/
def values (list : List Recorded) : Bytes := sequence .values value list

/-- The name of a function, which is there only if it was kept. -/
def diagnostics : Option String → Bytes
  | none => Key.diag.written ++ [110, 117, 108, 108]
  | some s => Key.diag.written ++ 123 :: keyedText .name s ++ [125]

end Wire

/-! ## Fields -/

/-- The shapes of fields, each over the type of what it holds. -/
inductive Field : Type → Type 1 where
  | scalar {α : Type} (k : Key) (s : Scalar α) : Field α
  | text (k : Key) : Field String
  | value (k : Key) : Field Recorded
  /-- A constant: the type of the only arrays there are. -/
  | arrayType : Field Unit
  /-- Whether there is a value, and the value if there is. -/
  | optionalValue : Field (Option Recorded)
  | bytes : Field (List UInt8)
  | values : Field (List Recorded)
  /-- `null`, or an object that holds a name. -/
  | diagnostics : Field (Option String)

namespace Field

/-- The bytes of a field, without the comma in front of it. -/
def written {α : Type} : Field α → α → Bytes
  | scalar k s, a => Wire.keyed k s a
  | text k, s => Wire.keyedText k s
  | value k, v => Wire.keyedValue k v
  | arrayType, () => Wire.keyed .typeId .u32 arrayTypeId
  | optionalValue, none => Wire.keyed .boolVal .bool false
  | optionalValue, some v => Wire.keyed .boolVal .bool true ++ 44 :: Wire.keyedValue .entry v
  | bytes, list => Wire.bytes list
  | values, list => Wire.values list
  | diagnostics, name => Wire.diagnostics name

/-- Reads a field with the comma in front of it. -/
def read {α : Type} : Field α → ReadM α
  | scalar k s => do Reader.expect ','; Reader.keyed k s
  | text k => do Reader.expect ','; Reader.keyedText k
  | value k => do Reader.expect ','; Reader.keyedValue k
  | arrayType => do
    let start ← get
    Reader.expect ','
    let id ← Reader.keyed .typeId .u32
    if id ≠ arrayTypeId then throw (.invalidField (.foreignArrayType id) start.offset)
  | optionalValue => do
    Reader.expect ','
    if ← Reader.keyed .boolVal .bool then
      Reader.expect ','
      some <$> Reader.keyedValue .entry
    else return none
  | bytes => do Reader.expect ','; Reader.bytes
  | values => do Reader.expect ','; Reader.values
  | diagnostics => do
    Reader.expect ','
    Reader.key .diag
    if ← Reader.nullOrObject then return none
    else
      let s ← Reader.keyedText .name
      Reader.expect '}'
      return some s

end Field

/-! ## Layouts -/

/-- A list of fields, over the tuple of what they hold. -/
inductive Layout : Type → Type 1 where
  | done : Layout Unit
  | field {α β : Type} (f : Field α) (rest : Layout β) : Layout (α × β)

namespace Layout

/-- The fields one after the other, each with a comma in front of it. -/
def written {α : Type} : Layout α → α → Bytes
  | done, () => []
  | field f rest, (a, b) => 44 :: f.written a ++ rest.written b

/-- Reads the fields one after the other. -/
def read {α : Type} : Layout α → ReadM α
  | done => return ()
  | field f rest => do
    let a ← f.read
    let b ← rest.read
    return (a, b)

end Layout

/-! ## The layouts of the kinds -/

/-- The layout of a kind's records, with the type of what they hold. -/
def Kind.form : Kind → (α : Type) × Layout α
  | .convertToObject | .createSymbol => ⟨_, .field (.value .entry) .done⟩
  | .allocateObject => ⟨_, .field (.scalar .boolVal .bool) .done⟩
  | .allocateArray => ⟨_, .field .arrayType <| .field (.scalar .u32Val .u32) .done⟩
  | .allocateArrayBuffer => ⟨_, .field .bytes .done⟩
  | .allocateFunction => ⟨_, .field .optionalValue .done⟩
  | .getAndClearException => ⟨_, .done⟩
  | .getProperty | .getOwnPropertyInfo =>
    ⟨_, .field (.scalar .propertyId .u32) <| .field (.value .entry) .done⟩
  | .getIndex => ⟨_, .field (.value .index) <| .field (.value .entry) .done⟩
  | .getOwnPropertiesInfo | .getTypedArrayInfo =>
    ⟨_, .field (.scalar .boolVal .bool) <| .field (.value .entry) .done⟩
  | .defineProperty =>
    ⟨_, .field (.value .entry) <| .field (.scalar .propertyId .u32) <|
      .field (.value .entry) .done⟩
  | .deleteProperty =>
    ⟨_, .field (.value .entry) <| .field (.scalar .propertyId .u32) <|
      .field (.scalar .boolVal .bool) .done⟩
  | .setPrototype => ⟨_, .field (.value .entry) <| .field (.value .argRetVal) .done⟩
  | .setProperty =>
    ⟨_, .field (.value .entry) <| .field (.scalar .propertyId .u32) <|
      .field (.value .argRetVal) <| .field (.scalar .boolVal .bool) .done⟩
  | .setIndex =>
    ⟨_, .field (.value .entry) <| .field (.value .index) <| .field (.value .argRetVal) .done⟩
  | .constructCall => ⟨_, .field (.scalar .logTag .u64) <| .field .values .done⟩
  | .callbackOp =>
    ⟨_, .field (.scalar .boolVal .bool) <| .field (.scalar .boolVal .bool) <|
      .field (.scalar .hostCallbackId .i64) <| .field (.scalar .logTag .u64) <|
      .field (.scalar .newCallbackId .i64) .done⟩
  | .codeParse =>
    ⟨_, .field (.scalar .documentId .u64) <| .field (.scalar .loadFlag .u32) <|
      .field (.scalar .bodyCounterId .u64) <| .field (.text .logDir) <| .field (.text .src) <|
      .field (.text .uri) <| .field (.scalar .length .u32) .done⟩
  | .callBegin =>
    ⟨_, .field (.scalar .rootNestingDepth .u32) <| .field (.scalar .hostCallbackId .i64) <|
      .field (.scalar .logTag .u64) <| .field (.scalar .beginTime .f64) <|
      .field .diagnostics <| .field .values .done⟩
  | .callEnd =>
    ⟨_, .field (.scalar .matchingCallBegin .i64) <| .field (.scalar .rootNestingDepth .u32) <|
      .field (.scalar .boolVal .bool) <| .field (.scalar .boolVal .bool) <|
      .field (.scalar .endTime .f64) .done⟩

/-- What the records of a kind hold. -/
abbrev Kind.Fields (k : Kind) : Type := k.form.1

/-- How the records of a kind are laid out. -/
def Kind.layout (k : Kind) : Layout k.Fields := k.form.2

end Retrace
