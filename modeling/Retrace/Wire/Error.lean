import Retrace.Source.Key
import Retrace.Wire.Bytes

/-!
# What can go wrong with a log

A `LogError` says why a log could not be read or written. Nothing is repaired silently: a byte that
the format does not call for is an error, with the offset at which it stands.
-/

namespace Retrace

/-- Why bytes could not be fetched or delivered. -/
inductive TransportFault where
  /-- Reading broke off. -/
  | failure
  /-- There is no room for more output. -/
  | full
  | file (fault : FileFault)
deriving DecidableEq, Repr

/-- The fault as it is shown. -/
def TransportFault.message : TransportFault → String
  | failure => "transport failure"
  | full => "transport full"
  | file fault => fault.message

/-- A field that is well written but holds what its kind of record may not hold. -/
inductive FieldProblem where
  | foreignArrayType (id : UInt32)
  | bufferTooLong (size : Nat)
  | tooManyValues (count : Nat)
  | textTooLong (size : Nat)
deriving DecidableEq, Repr

/-- The field that a problem is about. -/
def FieldProblem.field : FieldProblem → String
  | foreignArrayType _ => "typeId"
  | bufferTooLong _ => "bytes"
  | tooManyValues _ => "values"
  | textTooLong _ => "src"

/-- What is wrong with the field. -/
def FieldProblem.reason : FieldProblem → String
  | foreignArrayType id => s!"unsupported array type id {id.toNat}"
  | bufferTooLong size => s!"buffer of {size} bytes exceeds u32 length"
  | tooManyValues count => s!"{count} values exceed u32 length"
  | textTooLong size => s!"source of {size} bytes exceeds u32 length"

/-- Why a log could not be read or written. -/
inductive LogError where
  | transport (fault : TransportFault)
  | unexpectedEnd (offset : Nat)
  | unexpectedByte (expected : Char) (found : UInt8) (offset : Nat)
  | keyMismatch (expected : String) (found : String) (offset : Nat)
  | invalidScalar (expected : String) (text : String) (offset : Nat)
  /-- A quoted text with an unknown escape, or one that is no UTF-8. -/
  | invalidText (offset : Nat)
  | unknownKind (number : UInt32) (offset : Nat)
  | unknownValueCase (found : String) (offset : Nat)
  | unsupportedVersion (found : UInt32)
  | recordCountMismatch (declared read : Nat)
  | invalidField (problem : FieldProblem) (offset : Nat)
  | source (error : SourceError)
deriving DecidableEq, Repr

/-- The error as it is shown. -/
def LogError.message : LogError → String
  | transport fault => "I/O error: " ++ fault.message
  | unexpectedEnd offset => s!"unexpected end of log at offset {offset}"
  | unexpectedByte expected found offset =>
    let shown := Char.ofUInt8 found
    s!"expected '{expected}' at offset {offset}, found '{shown}'"
  | keyMismatch expected found offset =>
    s!"expected key \"{expected}\" at offset {offset}, found \"{found}\""
  | invalidScalar expected text offset => s!"invalid {expected} value \"{text}\" at offset {offset}"
  | invalidText offset => s!"malformed string at offset {offset}"
  | unknownKind number offset => s!"unknown action kind {number.toNat} at offset {offset}"
  | unknownValueCase found offset => s!"unknown value case \"{found}\" at offset {offset}"
  | unsupportedVersion found => s!"unsupported log format version {found.toNat}"
  | recordCountMismatch declared read =>
    s!"end marker declares {declared} records but {read} were read"
  | invalidField problem offset =>
    s!"invalid field \"{problem.field}\" at offset {offset}: " ++ problem.reason
  | source error => error.message

end Retrace
