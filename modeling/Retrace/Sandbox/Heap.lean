import Retrace.Engine.Basic
import Retrace.Wire.Scalar

/-!
# The heap of the sandbox

A heap is a sequence of objects that only grows; a handle is a position in it. Every object has
properties, in the order in which they were first set, and may have a prototype, where properties
are looked for that it has not.
-/

namespace Retrace

/-- A handle: the position of an object in a heap. Positions have no bound here. Held in 32 bits
they tell objects apart as long as a heap has no more than 2^32 of them, so what is said of handles
is about such heaps. -/
structure ObjectRef where
  index : Nat
deriving DecidableEq, Repr, Inhabited

instance : ToString ObjectRef := ⟨fun r => s!"#{r.index}"⟩

/-! ## What functions do -/

/-- What a function of the sandbox does when it is called. -/
inductive Behaviour where
  | nothing
  /-- Returns the first argument. -/
  | echo
  | newObject
  /-- Returns a typed array over so many zero bytes. -/
  | typedArray (length : UInt32)
  | throws (message : String)
  | terminates
deriving DecidableEq, Repr

namespace Behaviour

/-- Whether a character is white space. -/
def isSpace (c : Char) : Bool :=
  let n := c.toNat
  (9 ≤ n && n ≤ 13) || n = 0x20 || n = 0x85 || n = 0xA0 || n = 0x1680 ||
    (0x2000 ≤ n && n ≤ 0x200A) || n = 0x2028 || n = 0x2029 || n = 0x202F || n = 0x205F ||
    n = 0x3000

/-- The characters without the white space around them. -/
def trim (cs : List Char) : List Char :=
  ((cs.dropWhile isSpace).reverse.dropWhile isSpace).reverse

/-- The characters behind a prefix. -/
def behind? (start : String) (cs : List Char) : Option (List Char) :=
  if start.toList.isPrefixOf cs then some (cs.drop start.length) else none

/-- What a line with no argument says, or with one that is none. -/
def ofWord (line : List Char) : Behaviour :=
  if line = "terminate".toList then terminates
  else if line = "new object".toList then newObject
  else if line = "echo".toList then echo
  else nothing

/-- What a script does, which its first line says. -/
def ofSource (text : String) : Behaviour :=
  let line := trim (text.toList.takeWhile (· ≠ '\n'))
  match behind? "throw " line with
  | some message => throws (String.ofList (trim message))
  | none =>
    match (behind? "typed array " line).bind fun n => Scalar.u32.ofChars? (trim n) with
    | some length => typedArray length
    | none => ofWord line

end Behaviour

/-! ## Objects -/

/-- What an object is, besides its properties. -/
inductive ObjectKind where
  | plain (regular : Bool)
  /-- A primitive that was made an object. -/
  | wrapper (value : Value ObjectRef)
  | symbol (description : String)
  | array (items : Array (Value ObjectRef))
  | arrayBuffer (bytes : Array UInt8)
  | typedArray (buffer : ObjectRef)
  | function (name : Option String) (behaviour : Behaviour) (source : Option DocumentId)
deriving DecidableEq, Repr

/-- An object of the heap. -/
structure HeapObject where
  kind : ObjectKind
  properties : OrderedMap PropertyId (Value ObjectRef)
  prototype : Option ObjectRef
deriving DecidableEq, Repr

namespace HeapObject

/-- An object without properties and without a prototype. -/
def bare (kind : ObjectKind) : HeapObject := ⟨kind, .empty, none⟩

/-- Gives a property a value. -/
def set (o : HeapObject) (property : PropertyId) (value : Value ObjectRef) : HeapObject :=
  { o with properties := o.properties.insert property value }

end HeapObject

/-- All objects ever made, the earliest first. None is ever taken away. -/
structure Heap where
  objects : Array HeapObject
deriving DecidableEq, Repr

namespace Heap

def empty : Heap := ⟨#[]⟩

def size (h : Heap) : Nat := h.objects.size

/-- The object under a handle. -/
def object? (h : Heap) (r : ObjectRef) : Option HeapObject := h.objects[r.index]?

/-- Puts an object behind all others; answers its handle, which is the size that the heap had. It
fits into 32 bits if the heap has fewer than 2^32 objects. -/
def allocate (h : Heap) (o : HeapObject) : ObjectRef × Heap := (⟨h.size⟩, ⟨h.objects.push o⟩)

/-- Replaces an object that is there. -/
def replace (h : Heap) (r : ObjectRef) (o : HeapObject) : Heap :=
  ⟨h.objects.setIfInBounds r.index o⟩

/-- The object under a handle, or the fault that there is none. -/
def get (h : Heap) (r : ObjectRef) : Except Fault HeapObject :=
  match h.object? r with
  | some o => .ok o
  | none => .error ⟨s!"dangling handle {r}"⟩

/-- A property of an object itself. -/
def ownProperty? (h : Heap) (r : ObjectRef) (property : PropertyId) : Option (Value ObjectRef) :=
  (h.object? r).bind fun o => o.properties.get? property

/-- A property of one of the first `bound` objects on a chain of prototypes. -/
def lookupWithin (h : Heap) (property : PropertyId) :
    Nat → Option ObjectRef → Except Fault (Value ObjectRef)
  | 0, _ | _, none => .ok .null
  | bound + 1, some r => do
    let o ← h.get r
    match o.properties.get? property with
    | some value => return value
    | none => h.lookupWithin property bound o.prototype

/-- A property of an object or its prototypes; null if none has it. A chain is never longer than the
heap, unless it runs in a circle. -/
def lookup (h : Heap) (r : ObjectRef) (property : PropertyId) : Except Fault (Value ObjectRef) :=
  h.lookupWithin property (h.size + 1) (some r)

/-- Whether `target` is among the first `bound` objects on a chain of prototypes. -/
def reachesWithin (h : Heap) (target : ObjectRef) : Nat → Option ObjectRef → Except Fault Bool
  | 0, _ | _, none => .ok false
  | bound + 1, some r =>
    if r = target then .ok true
    else do h.reachesWithin target bound (← h.get r).prototype

end Heap
end Retrace
