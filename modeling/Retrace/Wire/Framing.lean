import Retrace.Wire.Layout

/-!
# The frame around the records

A log opens with its version, holds its records each on a line of its own with commas between them,
and closes with an end marker that says how many records there are. A log that is cut short has no
end marker, and so is told from one that is whole.

`Reader.startRecord` stands before the next record, or finds that there is none and checks the end
marker. `Reader.skipRecord` gives a record up and goes on to the end of the line, which no well
written record contains; if the line ended in a comma, the comma before the next record is gone.
-/

namespace Retrace

/-- The only version of the format that there is. -/
def formatVersion : UInt32 := 1

/-- What every record opens with. -/
structure RecordHeader where
  time : Time
  context : Context
  kind : Kind
deriving DecidableEq, Repr

/-! ## Writing -/

namespace Wire

/-- What a log opens with. -/
def logStart : Bytes :=
  123 :: keyed .version .u32 formatVersion ++ 44 :: sequenceStart .actions

/-- What a record opens with: the comma behind the record before it, and a new line. -/
def recordStart (first : Bool) : Bytes := (if first then [] else [44]) ++ [10, 123]

/-- What a record closes with. -/
def recordEnd : Bytes := [125]

/-- The first three fields of a record, which all kinds have. -/
def recordHeader (time : Time) (context : Context) (kind : Kind) : Bytes :=
  keyed .eventTime .i64 time.ticks ++ 44 :: keyed .ctxTag .u64 context.id ++
    44 :: keyed .actionKind .u32 kind.number

/-- What a log of `count` records closes with. -/
def endMarker (count : Nat) : Bytes :=
  [10, 93, 44] ++ keyed .endOfLog .u64 (UInt64.ofNat count) ++ [125, 10]

end Wire

/-! ## Reading -/

namespace Reader

/-- Takes what a log opens with, up to its first record. -/
def beginLog : ReadM UInt32 := do
  expect '{'
  let version ← keyed .version .u32
  if version ≠ formatVersion then throw (.unsupportedVersion version)
  expect ','
  sequenceStart .actions
  modify fun r => { r with inRecords := true }
  return version

/-- Takes the end marker and checks its count. From here on there are no more records. -/
def finishLog : ReadM Unit := do
  modify fun r => { r with inRecords := false }
  expect ','
  let declared ← keyed .endOfLog .u64
  expect '}'
  let r ← get
  if declared.toNat ≠ r.records then
    throw (.recordCountMismatch declared.toNat r.records)

/-- Takes what the next record opens with. Answers whether there is a record; if there is none, the
end marker has been taken. -/
def startRecord : ReadM Bool := do
  if !(← get).inRecords then return false
  skipBlanks
  match ← peek? with
  | none => throw (.unexpectedEnd (← get).offset)
  | some b =>
    if b = 93 then
      let _ ← next
      finishLog
      return false
    else
      let r ← get
      if 0 < r.records ∧ r.commaSkipped = false then expect ','
      modify fun r => { r with commaSkipped := false }
      expect '{'
      modify fun r => { r with records := r.records + 1 }
      return true

/-- Takes the header of a record, which must name a kind. -/
def recordHeader : ReadM RecordHeader := do
  let time ← keyed .eventTime .i64
  expect ','
  let context ← keyed .ctxTag .u64
  let start ← get
  expect ','
  let number ← keyed .actionKind .u32
  match Kind.ofNumber? number with
  | some kind => return ⟨⟨time⟩, ⟨context⟩, kind⟩
  | none => throw (.unknownKind number start.offset)

/-- Gives up the current record: goes on to the end of the line, which is left in place. The record
still counts. -/
def skipRecord : ReadM Unit := do
  let r ← get
  let line := r.rest.takeWhile (· ≠ 10)
  set { r with rest := r.rest.dropWhile (· ≠ 10) }
  checkEnding
  modify fun r => { r with commaSkipped :=
    (line.filter fun b => !Bytes.isBlank b).getLast? = some 44 }

end Reader
end Retrace
