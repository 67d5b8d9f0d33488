import Retrace.Value
import Retrace.Wire.Error
import Retrace.Wire.Key
import Retrace.Wire.Quoted
import Retrace.Wire.Scalar

/-!
# Reading a log token by token

A `Reader` is what is left of the input. The input is a list of bytes and the way in which it stops:
at its end, or because fetching more fails. How far reading has come is the length that is gone, so
every step of reading is a statement about `rest` alone.

A reading step keeps the reader it has come to also when it fails: the offset at which a record was
given up decides where the next one is looked for.

Blanks may stand before every token. The offset in an error about a scalar is where the scalar was
looked for, before any blanks.
-/

namespace Retrace

/-- What comes after the last byte of an input. -/
inductive Ending where
  | endOfInput
  | fault (fault : TransportFault)
deriving DecidableEq, Repr

/-- What is left of an input, and where among the records reading stands. -/
structure Reader where
  rest : Bytes
  ending : Ending
  /-- The number of bytes in the whole input. -/
  total : Nat
  /-- How many records have been started. -/
  records : Nat
  /-- Whether the reader stands among the records. -/
  inRecords : Bool
  /-- Whether the comma before the next record has been skipped already. -/
  commaSkipped : Bool
deriving DecidableEq, Repr

/-- Steps of reading. One that fails leaves the reader where it has come to. -/
abbrev ReadM := EStateM LogError Reader

namespace Reader

/-- A reader at the start of an input that ends. -/
def ofBytes (bytes : Bytes) : Reader := ⟨bytes, .endOfInput, bytes.length, 0, false, false⟩

/-- A reader of an input from which no more than `limit` bytes can be fetched. -/
def failingAfter (limit : Nat) (bytes : Bytes) : Reader :=
  if limit ≤ bytes.length then
    { ofBytes (bytes.take limit) with ending := .fault .failure }
  else ofBytes bytes

/-- A reader that cannot fetch anything. -/
def broken (fault : TransportFault) : Reader := { ofBytes [] with ending := .fault fault }

/-- How far reading has come. -/
def offset (r : Reader) : Nat := r.total - r.rest.length

/-! ## Bytes -/

/-- Fails if the input is used up because no more of it can be fetched. -/
def checkEnding : ReadM Unit := fun r =>
  match r.rest, r.ending with
  | [], .fault fault => .error (.transport fault) r
  | _, _ => .ok () r

/-- The next byte, left in place; there is none at the end of the input. -/
def peek? : ReadM (Option UInt8) := do
  checkEnding
  return (← get).rest.head?

/-- Takes the next byte. -/
def next : ReadM UInt8 := do
  checkEnding
  let r ← get
  match r.rest with
  | [] => throw (.unexpectedEnd r.offset)
  | b :: rest => set { r with rest }; return b

/-- Takes all blanks that come next. -/
def skipBlanks : ReadM Unit := do
  modify fun r => { r with rest := r.rest.dropWhile Bytes.isBlank }
  checkEnding

/-- Takes the byte that has to come next, with any blanks before it. -/
def expect (expected : Char) : ReadM Unit := do
  skipBlanks
  let start ← get
  let found ← next
  if found.toNat ≠ expected.toNat then
    throw (.unexpectedByte expected found start.offset)

/-! ## Tokens -/

/-- Takes the longest run of token bytes, which must not be empty. -/
def token : ReadM (List Char) := do
  skipBlanks
  let start ← get
  let bytes := start.rest.takeWhile Bytes.isToken
  set { start with rest := start.rest.dropWhile Bytes.isToken }
  checkEnding
  if bytes = [] then
    match (← get).rest with
    | [] => throw (.unexpectedEnd start.offset)
    | b :: _ => throw (.unexpectedByte '0' b start.offset)
  return Bytes.latin bytes

/-- Takes a text in quotes. Where it cannot be read, what was looked at is gone all the same. -/
def quoted : ReadM String := do
  expect '"'
  let start ← get
  match Quoted.scan [] start.rest with
  | .closed content rest =>
    set { start with rest }
    match Bytes.ofUtf8? content with
    | some s => return s
    | none => throw (.invalidText start.offset)
  | .malformed rest =>
    set { start with rest }
    throw (.invalidText start.offset)
  | .unfinished =>
    set { start with rest := [] }
    checkEnding
    throw (.unexpectedEnd start.total)

/-- Takes an unquoted value. -/
def scalar {α : Type} (s : Scalar α) : ReadM α := do
  let start ← get
  let text ← token
  match s.ofChars? text with
  | some a => return a
  | none => throw (.invalidScalar s.name (String.ofList text) start.offset)

/-- Takes the word `null`, which was looked for at `start`. -/
def null (start : Reader) : ReadM Unit := do
  let text ← token
  if text ≠ ['n', 'u', 'l', 'l'] then
    throw (.invalidScalar "null" (String.ofList text) start.offset)

/-- Takes the key that has to come next, and the colon behind it. -/
def key (k : Key) : ReadM Unit := do
  skipBlanks
  let start ← get
  let found ← quoted
  if found ≠ k.text then throw (.keyMismatch k.text found start.offset)
  expect ':'

/-- Takes a key, and a scalar behind it. -/
def keyed {α : Type} (k : Key) (s : Scalar α) : ReadM α := do
  key k
  scalar s

/-- Takes a key, and a text behind it. -/
def keyedText (k : Key) : ReadM String := do
  key k
  quoted

/-- Takes the key of a sequence and the bracket that opens it. -/
def sequenceStart (k : Key) : ReadM Unit := do
  key k
  expect '['

/-- Takes the length that is declared before a sequence. -/
def length : ReadM UInt32 := keyed .length .u32

/-- Takes `null`, or else the brace that opens an object; answers whether it was `null`. -/
def nullOrObject : ReadM Bool := do
  skipBlanks
  let start ← get
  match start.rest with
  | [] => throw (.unexpectedEnd start.offset)
  | b :: rest =>
    if b = 110 then
      null start
      return true
    else if b = 123 then
      set { start with rest }
      return false
    else throw (.unexpectedByte '{' b start.offset)

/-! ## Sequences and values -/

/-- Takes `count` elements with commas between them, after those that are there in reverse. -/
def elements {α : Type} (element : ReadM α) (done : List α) : Nat → ReadM (List α)
  | 0 => return done.reverse
  | count + 1 => do
    if !done.isEmpty then expect ','
    let a ← element
    elements element (a :: done) count

/-- Takes a sequence behind its declared length: the elements, as many as declared, in brackets. -/
def sequence {α : Type} (k : Key) (element : ReadM α) : ReadM (List α) := do
  let count ← length
  expect ','
  sequenceStart k
  let list ← elements element [] count.toNat
  expect ']'
  return list

/-- Takes the bytes of a buffer. -/
def bytes : ReadM (List UInt8) := sequence .bytes (scalar .u8)

/-- Takes what the case of a value that is named `case` holds; the case was looked for at `start`.
-/
def valueCase (start : Reader) (case : String) : ReadM Recorded :=
  if case = Key.nullVal.text then do null start; return .null
  else if case = Key.boolVal.text then Value.bool <$> scalar .bool
  else if case = Key.i32Val.text then Value.i32 <$> scalar .i32
  else if case = Key.u32Val.text then Value.u32 <$> scalar .u32
  else if case = Key.i64Val.text then Value.i64 <$> scalar .i64
  else if case = Key.u64Val.text then Value.u64 <$> scalar .u64
  else if case = Key.doubleVal.text then Value.f64 <$> scalar .f64
  else if case = Key.stringVal.text then Value.str <$> quoted
  else if case = Key.tagVal.text then (fun n => Value.ref ⟨n⟩) <$> scalar .u64
  else throw (.unknownValueCase case start.offset)

/-- Takes a value: an object with the one field that names its case. -/
def value : ReadM Recorded := do
  expect '{'
  skipBlanks
  let start ← get
  let case ← quoted
  expect ':'
  let v ← valueCase start case
  expect '}'
  return v

/-- Takes a key, and a value behind it. -/
def keyedValue (k : Key) : ReadM Recorded := do
  key k
  value

/-- Takes the values of a call. -/
def values : ReadM (List Recorded) := sequence .values value

end Reader
end Retrace
