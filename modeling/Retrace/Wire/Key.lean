import Retrace.Wire.Bytes

/-!
# Field keys

Every field of a record is written with its key before it. The keys are a closed set, and a reader
always knows which one has to come next.
-/

namespace Retrace

/-- The keys of the log format: of the log itself, of a record's header, of its fields, and of the
cases of a value. -/
inductive Key where
  | version
  | actions
  | endOfLog
  | eventTime
  | ctxTag
  | actionKind
  | entry
  | index
  | argRetVal
  | propertyId
  | logTag
  | length
  | values
  | bytes
  | typeId
  | rootNestingDepth
  | hostCallbackId
  | newCallbackId
  | beginTime
  | endTime
  | matchingCallBegin
  | documentId
  | loadFlag
  | bodyCounterId
  | logDir
  | src
  | uri
  | diag
  | name
  | nullVal
  | boolVal
  | i32Val
  | u32Val
  | i64Val
  | u64Val
  | doubleVal
  | stringVal
  | tagVal
deriving DecidableEq, Repr

namespace Key

/-- All keys there are. -/
def all : List Key :=
  [version, actions, endOfLog, eventTime, ctxTag, actionKind, entry, index, argRetVal, propertyId,
    logTag, length, values, bytes, typeId, rootNestingDepth, hostCallbackId, newCallbackId,
    beginTime, endTime, matchingCallBegin, documentId, loadFlag, bodyCounterId, logDir, src, uri,
    diag, name, nullVal, boolVal, i32Val, u32Val, i64Val, u64Val, doubleVal, stringVal, tagVal]

/-- How a key is spelled. -/
def text : Key → String
  | version => "ttlog"
  | actions => "actions"
  | endOfLog => "endOfLog"
  | eventTime => "eventTime"
  | ctxTag => "ctxTag"
  | actionKind => "actionKind"
  | entry => "entry"
  | index => "index"
  | argRetVal => "argRetVal"
  | propertyId => "propertyId"
  | logTag => "logTag"
  | length => "length"
  | values => "values"
  | bytes => "bytes"
  | typeId => "typeId"
  | rootNestingDepth => "rootNestingDepth"
  | hostCallbackId => "hostCallbackId"
  | newCallbackId => "newCallbackId"
  | beginTime => "beginTime"
  | endTime => "endTime"
  | matchingCallBegin => "matchingCallBegin"
  | documentId => "documentId"
  | loadFlag => "loadFlag"
  | bodyCounterId => "bodyCounterId"
  | logDir => "logDir"
  | src => "src"
  | uri => "uri"
  | diag => "diag"
  | name => "name"
  | nullVal => "nullVal"
  | boolVal => "boolVal"
  | i32Val => "i32Val"
  | u32Val => "u32Val"
  | i64Val => "i64Val"
  | u64Val => "u64Val"
  | doubleVal => "doubleVal"
  | stringVal => "stringVal"
  | tagVal => "tagVal"

/-- The key that is spelled so, if one is. -/
def ofText? (s : String) : Option Key := all.find? fun k => k.text = s

/-- A key in front of its field: quoted, with a colon behind it. -/
def written (k : Key) : Bytes := 34 :: Bytes.utf8 k.text ++ [34, 58]

end Key
end Retrace
