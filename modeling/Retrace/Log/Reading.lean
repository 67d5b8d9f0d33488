import Retrace.Log.Basic
import Retrace.Wire.Record

/-!
# Reading a whole log

A log is read event by event until its end marker. What happens at a record that cannot be read is
up to the reader's `Tolerance`: either reading stops there, or the record is left out and reading
goes on at the end of its line. Leaving a record out has to get reading ahead; where it does not,
the damage is not in a record but around it, and reading stops after all.
-/

namespace Retrace

/-- What to do about a record that cannot be read. -/
inductive Tolerance where
  | strict
  | skipBad
deriving DecidableEq, Repr

/-- Where and why a record could not be read. -/
structure ReadFailure where
  error : LogError
  /-- How far reading had come. -/
  offset : Nat
  /-- How many records had been started. -/
  records : Nat
deriving DecidableEq, Repr

/-- A record that was left out, and where reading went on. -/
structure SkippedRecord where
  failure : ReadFailure
  resumedAt : Nat
deriving DecidableEq, Repr

/-- What has come of reading so far. -/
structure Reading where
  log : Log
  /-- The records that were left out, in order. -/
  skipped : List SkippedRecord
  /-- Why reading stopped, if not at the end marker. -/
  fatal : Option ReadFailure
  reader : Reader
deriving DecidableEq, Repr

namespace Reading

/-- Nothing has been read yet. -/
def start (reader : Reader) : Reading := ⟨.empty, [], none, reader⟩

/-- Reads on to the end marker, but no more than so many records. -/
def within (load : Loader) (tolerance : Tolerance) : Nat → Reading → Reading
  | 0, r => r
  | bound + 1, r =>
    match Event.read load r.reader with
    | .ok none reader => { r with reader }
    | .ok (some e) reader => within load tolerance bound { r with log := r.log.push e, reader }
    | .error error reader =>
      let failure : ReadFailure := ⟨error, reader.offset, reader.records⟩
      match tolerance with
      | .strict => { r with fatal := some failure, reader }
      | .skipBad =>
        match Reader.skipRecord reader with
        | .error _ reader => { r with fatal := some failure, reader }
        | .ok () reader =>
          -- a line that takes no byte would be given up again and again
          if reader.rest.length < r.reader.rest.length then
            within load tolerance bound
              { r with skipped := r.skipped ++ [⟨failure, reader.offset⟩], reader }
          else { r with fatal := some failure, reader }

/-- Reads on to the end marker. A record that was read is at least a brace, and one that is left
out has to be as much; so there are no more records than bytes. -/
def toEnd (load : Loader) (tolerance : Tolerance) (r : Reading) : Reading :=
  within load tolerance (r.reader.rest.length + 1) r

end Reading

namespace Log

/-- Reads a log from its start: its version, and then its records. It is an error of its own kind if
what the log opens with cannot be read. -/
def readTolerant (load : Loader) (tolerance : Tolerance) (reader : Reader) :
    Except ReadFailure Reading :=
  match Reader.beginLog reader with
  | .ok _ reader => .ok ((Reading.start reader).toEnd load tolerance)
  | .error error reader => .error ⟨error, reader.offset, reader.records⟩

/-- Reads a log of which every record has to be in order. -/
def read (load : Loader) (reader : Reader) : Except LogError Log :=
  match readTolerant load .strict reader with
  | .error failure => .error failure.error
  | .ok reading =>
    match reading.fatal with
    | some failure => .error failure.error
    | none => .ok reading.log

end Log
end Retrace
