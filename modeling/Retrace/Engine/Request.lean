import Retrace.Action.Event
import Retrace.TagTable

/-!
# Requests to an engine

A `Request` is what a host asks of an engine, over the engine's own handles. An `Action` of the same
kind is what a log keeps of it, over tags. Recording turns requests into actions (`Request.encode`),
replay turns actions into requests (`Action.request?`). What came of a request is in no log: the
recorder and the session each decide for themselves whether the result gets a tag, and have to
decide alike.

Calls, constructions, callbacks and exceptions are not requests: they end in more than a value.
-/

namespace Retrace

/-- What a host asks of an engine, other than calling into it. -/
inductive Request (η : Type) where
  | toObject (value : Value η)
  | createSymbol (description : Value η)
  | createObject (regular : Bool)
  | createArray (length : UInt32)
  | createArrayBuffer (bytes : List UInt8)
  | createFunction (name : Option (Value η))
  | getProperty (object : η) (property : PropertyId)
  | getIndex (object : η) (index : Value η)
  | ownPropertyDescriptor (object : η) (property : PropertyId)
  /-- The names of an object's own properties, or else its symbols. -/
  | ownPropertyKeys (object : η) (names : Bool)
  | defineProperty (object : η) (property : PropertyId) (descriptor : Value η)
  | deleteProperty (object : η) (property : PropertyId) (strict : Bool)
  | setPrototype (object : η) (prototype : Value η)
  | setProperty (object : η) (property : PropertyId) (value : Value η) (strict : Bool)
  | setIndex (object : η) (index value : Value η)
  /-- The buffer of a typed array; the host may be interested in it or not. -/
  | typedArrayBuffer (object : η) (wanted : Bool)
  | loadScript (script : Script)
deriving DecidableEq, Repr

namespace Request

variable {η : Type}

/-- The kind of the events that record a request. -/
def kind : Request η → Kind
  | toObject .. => .convertToObject
  | createSymbol .. => .createSymbol
  | createObject .. => .allocateObject
  | createArray .. => .allocateArray
  | createArrayBuffer .. => .allocateArrayBuffer
  | createFunction .. => .allocateFunction
  | getProperty .. => .getProperty
  | getIndex .. => .getIndex
  | ownPropertyDescriptor .. => .getOwnPropertyInfo
  | ownPropertyKeys .. => .getOwnPropertiesInfo
  | defineProperty .. => .defineProperty
  | deleteProperty .. => .deleteProperty
  | setPrototype .. => .setPrototype
  | setProperty .. => .setProperty
  | setIndex .. => .setIndex
  | typedArrayBuffer .. => .getTypedArrayInfo
  | loadScript .. => .codeParse

/-- The action that records a request. -/
def encode [DecidableEq η] (tags : TagTable η) : Request η → Except NamingError Action
  | toObject value => return .convertToObject (← value.encode tags)
  | createSymbol description => return .createSymbol (← description.encode tags)
  | createObject regular => return .allocateObject regular
  | createArray length => return .allocateArray length
  | createArrayBuffer bytes => return .allocateArrayBuffer bytes
  | createFunction none => return .allocateFunction none
  | createFunction (some name) => return .allocateFunction (some (← name.encode tags))
  | getProperty object property => return .getProperty property (← target object)
  | getIndex object index => do
    let object ← target object
    return .getIndex (← index.encode tags) object
  | ownPropertyDescriptor object property => return .getOwnPropertyInfo property (← target object)
  | ownPropertyKeys object names => return .getOwnPropertiesInfo names (← target object)
  | defineProperty object property descriptor =>
    return .defineProperty (← target object) property (← descriptor.encode tags)
  | deleteProperty object property strict =>
    return .deleteProperty (← target object) property strict
  | setPrototype object prototype =>
    return .setPrototype (← target object) (← prototype.encode tags)
  | setProperty object property value strict =>
    return .setProperty (← target object) property (← value.encode tags) strict
  | setIndex object index value =>
    return .setIndex (← target object) (← index.encode tags) (← value.encode tags)
  | typedArrayBuffer object wanted => return .getTypedArrayInfo wanted (← target object)
  | loadScript script => return .codeParse script
where
  /-- The tag of the object that a request is about. -/
  target (object : η) : Except NamingError Recorded := (Value.ref object).encode tags

end Request

/-- Why an action stands for no request of a session. -/
inductive RequestError where
  /-- A tag that the action names stands for nothing. -/
  | naming (error : NamingError)
  /-- What an operation is about has to be an object. -/
  | notAnObject (typeName : String)
deriving DecidableEq, Repr

namespace TagTable

variable {η : Type}

/-- The value that a recorded one stands for. -/
def value (tags : TagTable η) (v : Recorded) : Except RequestError (Value η) :=
  (v.decode tags).mapError .naming

/-- The object that a recorded value stands for. -/
def object (tags : TagTable η) (v : Recorded) : Except RequestError η := do
  match ← tags.value v with
  | .ref handle => return handle
  | other => throw (.notAnObject other.typeName)

end TagTable

/-- The request that an action records, if it records one. Where there are several values, the one
that the operation is about comes first. -/
def Action.request? {η : Type} (tags : TagTable η) :
    Action → Option (Except RequestError (Request η))
  | convertToObject value => some do return .toObject (← tags.value value)
  | createSymbol description => some do return .createSymbol (← tags.value description)
  | allocateObject regular => some (.ok (.createObject regular))
  | allocateArray length => some (.ok (.createArray length))
  | allocateArrayBuffer bytes => some (.ok (.createArrayBuffer bytes))
  | allocateFunction none => some (.ok (.createFunction none))
  | allocateFunction (some name) => some do return .createFunction (some (← tags.value name))
  | getProperty property object => some do return .getProperty (← tags.object object) property
  | getIndex index object => some do
    return .getIndex (← tags.object object) (← tags.value index)
  | getOwnPropertyInfo property object => some do
    return .ownPropertyDescriptor (← tags.object object) property
  | getOwnPropertiesInfo names object => some do
    return .ownPropertyKeys (← tags.object object) names
  | defineProperty object property descriptor => some do
    return .defineProperty (← tags.object object) property (← tags.value descriptor)
  | deleteProperty object property strict => some do
    return .deleteProperty (← tags.object object) property strict
  | setPrototype object prototype => some do
    return .setPrototype (← tags.object object) (← tags.value prototype)
  | setProperty object property value strict => some do
    return .setProperty (← tags.object object) property (← tags.value value) strict
  | setIndex object index value => some do
    return .setIndex (← tags.object object) (← tags.value index) (← tags.value value)
  | getTypedArrayInfo wanted object => some do
    return .typedArrayBuffer (← tags.object object) wanted
  | codeParse script => some (.ok (.loadScript script))
  | getAndClearException | constructCall .. | callbackOp .. | callBegin .. | callEnd .. => none

end Retrace
