import Retrace.Sandbox.Heap

/-!
# The sandbox

A `Sandbox` is a small engine in memory: a heap, and a count of the calls made so far. It answers
every request that a log can hold, so that a log can be replayed without the engine it came from.

A script does what its first line says when it is called; a function made by a host returns its
first argument. What a construction returns does not depend on what the function does, unless that
is to throw.
-/

namespace Retrace

/-- A small engine in memory. -/
structure Sandbox where
  heap : Heap
  /-- The contexts there are; `none` if any may be entered. -/
  contexts : Option (List Context)
  current : Option Context
  /-- How many calls have been made. -/
  calls : UInt64
  /-- The statement of the call made last. -/
  lastStatement : Option Statement
deriving DecidableEq, Repr

/-- The state that a sandbox can be put back into. -/
structure SandboxSnapshot where
  heap : Heap
  calls : UInt64
  lastStatement : Option Statement
deriving DecidableEq, Repr

namespace Sandbox

/-- A sandbox with the given contexts in which nothing has happened. -/
def fresh (contexts : Option (List Context)) : Sandbox := ⟨.empty, contexts, none, 0, none⟩

/-- The length that an array may have at most. -/
def maxLength : UInt32 := 1048576

/-- The property of a descriptor that holds the value it describes. -/
def descriptorValue : PropertyId := ⟨0⟩

/-- An operation of the sandbox, which fails without having changed anything. -/
abbrev SandboxM := EStateM Fault Sandbox

/-- Refuses an operation. -/
def fail {α : Type} (message : String) : SandboxM α := throw ⟨message⟩

/-! ## Objects -/

/-- Puts an object on the heap of a sandbox. -/
def allocated (s : Sandbox) (o : HeapObject) : ObjectRef × Sandbox :=
  let (r, heap) := s.heap.allocate o
  (r, { s with heap })

/-- Makes an object without properties. -/
def allocate (kind : ObjectKind) : SandboxM ObjectRef := fun s =>
  let (r, next) := s.allocated (.bare kind)
  .ok r next

/-- An object that has to be there. -/
def get (r : ObjectRef) : SandboxM HeapObject := do
  MonadExcept.ofExcept ((← EStateM.get).heap.get r)

/-- Changes an object that has to be there. -/
def update (r : ObjectRef) (change : HeapObject → HeapObject) : SandboxM Unit := do
  let o ← get r
  modify fun s => { s with heap := s.heap.replace r (change o) }

/-! ## Making objects -/

/-- The object that a value is, or is made into. Null is none, and cannot be made one. -/
def toObject : Value ObjectRef → SandboxM ObjectRef
  | .ref r => do
    let _ ← get r
    return r
  | .null => fail "cannot convert null to an object"
  | primitive => allocate (.wrapper primitive)

/-- Makes a symbol. Its description is a text, or null for none. -/
def createSymbol : Value ObjectRef → SandboxM ObjectRef
  | .str description => allocate (.symbol description)
  | .null => allocate (.symbol "")
  | other =>
    let found := other.typeName
    fail s!"symbol description must be a string, found {found}"

/-- Makes an array of nulls. -/
def createArray (length : UInt32) : SandboxM ObjectRef :=
  if maxLength < length then
    let length := length.toNat
    let bound := maxLength.toNat
    fail s!"array length {length} exceeds {bound}"
  else allocate (.array (Array.replicate length.toNat .null))

/-- Makes a typed array over as many zero bytes. -/
def createTypedArray (length : UInt32) : SandboxM ObjectRef :=
  if maxLength < length then
    let length := length.toNat
    let bound := maxLength.toNat
    fail s!"typed array length {length} exceeds {bound}"
  else do
    let buffer ← allocate (.arrayBuffer (Array.replicate length.toNat 0))
    allocate (.typedArray buffer)

/-- Makes a function for a host. A name that is no text is none. -/
def createFunction (name : Option (Value ObjectRef)) : SandboxM ObjectRef :=
  let name := match name with
    | some (.str s) => some s
    | _ => none
  allocate (.function name .echo none)

/-- Makes a function of a script, which does what the text says when it is called. -/
def loadScript (script : Script) : SandboxM ObjectRef :=
  allocate (.function (some script.uri) (.ofSource script.text) (some script.document))

/-! ## Properties -/

/-- A property of an object or its prototypes; null if none has it. -/
def getProperty (r : ObjectRef) (property : PropertyId) : SandboxM (Value ObjectRef) := do
  MonadExcept.ofExcept ((← EStateM.get).heap.lookup r property)

/-- Makes a descriptor of an own property; null if there is none. -/
def ownPropertyDescriptor (r : ObjectRef) (property : PropertyId) : SandboxM (Value ObjectRef) := do
  match (← get r).properties.get? property with
  | none => return .null
  | some value =>
    let descriptor ← allocate (.plain true)
    update descriptor fun o => o.set descriptorValue value
    return .ref descriptor

/-- Makes an array of the names of an object's own properties. No object has symbols among them. -/
def ownPropertyKeys (r : ObjectRef) (names : Bool) : SandboxM ObjectRef := do
  let keys := (← get r).properties.keys.map fun p => Value.u32 p.id
  allocate (.array (if names then keys.toArray else #[]))

/-- Gives a property the value in a descriptor; answers whether the descriptor is one. -/
def defineProperty (r : ObjectRef) (property : PropertyId) (descriptor : Value ObjectRef) :
    SandboxM Bool := do
  match descriptor.handle? with
  | none => return false
  | some d =>
    let value := ((← EStateM.get).heap.ownProperty? d descriptorValue).getD .null
    update r fun o => o.set property value
    return true

/-- Takes a property out; answers whether it was there. -/
def deleteProperty (r : ObjectRef) (property : PropertyId) : SandboxM Bool := do
  let o ← get r
  update r fun o => { o with properties := o.properties.erase property }
  return o.properties.contains property

/-- Gives an object another prototype. Chains of prototypes stay free of circles: an object must not
be on the chain of its prototype. -/
def setPrototype (r : ObjectRef) : Value ObjectRef → SandboxM Unit
  | .null => update r fun o => { o with prototype := none }
  | .ref p => do
    let heap := (← EStateM.get).heap
    -- a chain without circles has no more objects than the heap
    if ← MonadExcept.ofExcept (heap.reachesWithin r (heap.size + 1) (some p)) then
      fail s!"prototype cycle through {r}"
    update r fun o => { o with prototype := some p }
  | other =>
    let found := other.typeName
    fail s!"prototype must be an object or null, found {found}"

/-! ## Indices -/

/-- The whole number that a value is as an index, as far as it is held in 64 bits. -/
def wholeNumber? : Value ObjectRef → Option Int
  | .i32 n => some n.toInt
  | .u32 n => some n.toNat
  | .i64 n => some n.toInt
  | .u64 n => some (min n.toNat Int64.maxValue.toInt)
  | .f64 x =>
    if x.isIntegral then some (x.clamped Int64.minValue.toInt Int64.maxValue.toInt) else none
  | _ => none

/-- The index that a value is. -/
def index (value : Value ObjectRef) : Except Fault UInt32 :=
  match wholeNumber? value with
  | none =>
    let found := value.typeName
    .error ⟨s!"{found} is not a valid index"⟩
  | some n =>
    if 0 ≤ n ∧ n.toNat < UInt32.size then .ok (UInt32.ofNat n.toNat)
    else .error ⟨s!"index {n} out of range"⟩

/-- The byte that is stored for a value. Of an integer this is its low byte. A double loses its
fraction and becomes the nearest number that is a byte; what is no number becomes zero. -/
def byteOf : Value ObjectRef → UInt8
  | .bool b => if b then 1 else 0
  | .i32 n => UInt8.ofNat (n.toInt % 256).toNat
  | .u32 n => UInt8.ofNat n.toNat
  | .i64 n => UInt8.ofNat (n.toInt % 256).toNat
  | .u64 n => UInt8.ofNat n.toNat
  | .f64 x => UInt8.ofNat (x.clamped 0 255).toNat
  | .null | .str _ | .ref _ => 0

/-- An element of an array or a byte of a buffer, null beyond the end; of any other object, the
property with the index for its name. -/
def getIndex (r : ObjectRef) (at_ : Value ObjectRef) : SandboxM (Value ObjectRef) := do
  let i ← MonadExcept.ofExcept (index at_)
  match (← get r).kind with
  | .array items => return items[i.toNat]?.getD .null
  | .arrayBuffer bytes =>
    return match bytes[i.toNat]? with
      | some b => .u32 b.toUInt32
      | none => .null
  | _ => getProperty r ⟨i⟩

/-- An array with another element, made longer with nulls if it has to be. -/
def withElement (items : Array (Value ObjectRef)) (i : Nat) (value : Value ObjectRef) :
    Array (Value ObjectRef) :=
  (items ++ Array.replicate (i + 1 - items.size) Value.null).setIfInBounds i value

/-- Sets what `getIndex` gets. An array grows as far as it may, a buffer does not grow. -/
def setIndex (r : ObjectRef) (at_ value : Value ObjectRef) : SandboxM Unit := do
  let i ← MonadExcept.ofExcept (index at_)
  let shown := i.toNat
  let bound := maxLength.toNat
  match (← get r).kind with
  | .array items =>
    if maxLength ≤ i then fail s!"index {shown} exceeds {bound}"
    update r fun o => { o with kind := .array (withElement items i.toNat value) }
  | .arrayBuffer bytes =>
    if bytes.size ≤ i.toNat then fail s!"index {shown} outside buffer"
    update r fun o => { o with kind := .arrayBuffer (bytes.setIfInBounds i.toNat (byteOf value)) }
  | _ => update r fun o => o.set ⟨i⟩ value

/-- The buffer below a typed array. -/
def typedArrayBuffer (r : ObjectRef) : SandboxM ObjectRef := do
  match (← get r).kind with
  | .typedArray buffer => return buffer
  | _ => fail s!"{r} is not a typed array"

/-! ## Calls -/

/-- A call that ends in an exception with a message. -/
def exception (message : String) : Outcome ObjectRef := .error ⟨.str message, false⟩

/-- What the function under a handle does, and the script it comes from. -/
def function? (s : Sandbox) (r : ObjectRef) : Option (Behaviour × Option DocumentId) :=
  match (s.heap.object? r).map HeapObject.kind with
  | some (.function _ behaviour source) => some (behaviour, source)
  | _ => none

/-- What a call does and ends in, by what the function does. A typed array that is too long is no
fault of the engine, but an exception. -/
def invoke (behaviour : Behaviour) (args : List (Value ObjectRef)) :
    StateM Sandbox (Outcome ObjectRef) := fun s =>
  match behaviour with
  | .nothing => (.ok .null, s)
  | .echo => (.ok (args.head?.getD .null), s)
  | .newObject =>
    let (r, s) := s.allocated (.bare (.plain true))
    (.ok (.ref r), s)
  | .typedArray length =>
    match createTypedArray length s with
    | .ok r s => (.ok (.ref r), s)
    | .error fault s => (exception fault.message, s)
  | .throws message => (exception message, s)
  | .terminates => (.error ⟨.null, true⟩, s)

/-- Calls a function. Each call is counted, and has one statement. -/
def call (function : ObjectRef) (args : List (Value ObjectRef)) :
    StateM Sandbox (Outcome ObjectRef) := fun s =>
  match s.function? function with
  | none => (exception "not a function", s)
  | some (behaviour, source) =>
    let calls := s.calls + 1
    let document := match source with
      | some d => d.id.toUInt32
      | none => 0
    invoke behaviour args { s with calls, lastStatement := some ⟨calls, 0, 1, 0, document⟩ }

/-- The object that a construction makes: it has the arguments for properties, by their places, and
the function for its prototype. -/
def constructed (function : ObjectRef) (args : List (Value ObjectRef)) : HeapObject :=
  let o := HeapObject.bare (.plain true)
  let filled := args.zipIdx.foldl (fun o arg => o.set ⟨UInt32.ofNat arg.2⟩ arg.1) o
  { filled with prototype := some function }

/-- Constructs an object, unless the function is one that throws. This is not counted as a call. -/
def construct (function : ObjectRef) (args : List (Value ObjectRef)) :
    StateM Sandbox (Outcome ObjectRef) := fun s =>
  match s.function? function with
  | none => (exception "not a constructor", s)
  | some (.throws message, _) => invoke (.throws message) args s
  | some (.terminates, _) => invoke .terminates args s
  | some _ =>
    let (r, s) := s.allocated (constructed function args)
    (.ok (.ref r), s)

/-! ## The sandbox as an engine -/

/-- Makes a context current. -/
def enter (context : Context) : SandboxM Unit := do
  if let some known := (← EStateM.get).contexts then
    if !known.contains context then fail s!"no context {context}"
  modify fun s => { s with current := some context }

/-- Answers a request. -/
def perform : Request ObjectRef → SandboxM (Value ObjectRef)
  | .toObject value => Value.ref <$> toObject value
  | .createSymbol description => Value.ref <$> createSymbol description
  | .createObject regular => Value.ref <$> allocate (.plain regular)
  | .createArray length => Value.ref <$> createArray length
  | .createArrayBuffer bytes => Value.ref <$> allocate (.arrayBuffer bytes.toArray)
  | .createFunction name => Value.ref <$> createFunction name
  | .getProperty object property => getProperty object property
  | .getIndex object index => getIndex object index
  | .ownPropertyDescriptor object property => ownPropertyDescriptor object property
  | .ownPropertyKeys object names => Value.ref <$> ownPropertyKeys object names
  | .defineProperty object property descriptor =>
    Value.bool <$> defineProperty object property descriptor
  | .deleteProperty object property _ => Value.bool <$> deleteProperty object property
  | .setPrototype object prototype => do setPrototype object prototype; return .null
  | .setProperty object property value _ => do
    update object fun o => o.set property value
    return .null
  | .setIndex object index value => do setIndex object index value; return .null
  | .typedArrayBuffer object _ => Value.ref <$> typedArrayBuffer object
  | .loadScript script => Value.ref <$> loadScript script

/-- What a snapshot of a sandbox holds. Which contexts there are is not part of it, and which is
current is forgotten. -/
def snapshot (s : Sandbox) : SandboxSnapshot := ⟨s.heap, s.calls, s.lastStatement⟩

/-- A sandbox put back into the state of a snapshot. -/
def restored (s : Sandbox) (snapshot : SandboxSnapshot) : Sandbox :=
  ⟨snapshot.heap, s.contexts, none, snapshot.calls, snapshot.lastStatement⟩

instance : Engine Sandbox ObjectRef SandboxSnapshot where
  enter := enter
  perform := perform
  construct := construct
  call := call
  lastStatement? s := s.lastStatement
  capture? s := some s.snapshot
  restore snapshot := modify fun s => s.restored snapshot

end Sandbox

/-- A sandbox that can do no more than it must: it knows no statements and gives no snapshots. -/
structure PlainSandbox where
  sandbox : Sandbox
deriving DecidableEq, Repr

namespace PlainSandbox

/-- An operation of the sandbox inside. -/
def lift {α : Type} (m : Sandbox.SandboxM α) : EStateM Fault PlainSandbox α := fun s =>
  match m s.sandbox with
  | .ok a sandbox => .ok a ⟨sandbox⟩
  | .error fault sandbox => .error fault ⟨sandbox⟩

/-- A call of the sandbox inside. -/
def liftCall (m : StateM Sandbox (Outcome ObjectRef)) : StateM PlainSandbox (Outcome ObjectRef) :=
  fun s =>
    let (outcome, sandbox) := m s.sandbox
    (outcome, ⟨sandbox⟩)

instance : Engine PlainSandbox ObjectRef Unit where
  enter context := lift (Sandbox.enter context)
  perform request := lift (Sandbox.perform request)
  construct function args := liftCall (Sandbox.construct function args)
  call function args := liftCall (Sandbox.call function args)

end PlainSandbox
end Retrace
