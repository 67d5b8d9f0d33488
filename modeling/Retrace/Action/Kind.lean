/-!
# The kinds of recorded operations

The set of kinds is closed. Each kind has a number, by which a record names it, and a name, by which
people do. The numbers count through `Kind.all`; they are part of the log format, so a kind may be
added at the end of the list and never moved within it.
-/

namespace Retrace

/-- What kind of operation an event records. -/
inductive Kind where
  | convertToObject
  | createSymbol
  | allocateObject
  | allocateArray
  | allocateArrayBuffer
  | allocateFunction
  | getAndClearException
  | getProperty
  | getIndex
  | getOwnPropertyInfo
  | getOwnPropertiesInfo
  | defineProperty
  | deleteProperty
  | setPrototype
  | setProperty
  | setIndex
  | getTypedArrayInfo
  | constructCall
  | callbackOp
  | codeParse
  | callBegin
  | callEnd
deriving DecidableEq, Repr

namespace Kind

/-- Every kind, in the order of the numbers. -/
def all : List Kind :=
  [convertToObject, createSymbol, allocateObject, allocateArray, allocateArrayBuffer,
    allocateFunction, getAndClearException, getProperty, getIndex, getOwnPropertyInfo,
    getOwnPropertiesInfo, defineProperty, deleteProperty, setPrototype, setProperty, setIndex,
    getTypedArrayInfo, constructCall, callbackOp, codeParse, callBegin, callEnd]

/-- The number that stands for a kind in a record. -/
def number (k : Kind) : UInt32 := UInt32.ofNat k.ctorIdx

/-- The kind with a number, if the number is in use. -/
def ofNumber? (n : UInt32) : Option Kind := all[n.toNat]?

/-- The name of a kind, as it is shown. -/
def name : Kind → String
  | convertToObject => "ConvertToObject"
  | createSymbol => "CreateSymbol"
  | allocateObject => "AllocateObject"
  | allocateArray => "AllocateArray"
  | allocateArrayBuffer => "AllocateArrayBuffer"
  | allocateFunction => "AllocateFunction"
  | getAndClearException => "GetAndClearException"
  | getProperty => "GetProperty"
  | getIndex => "GetIndex"
  | getOwnPropertyInfo => "GetOwnPropertyInfo"
  | getOwnPropertiesInfo => "GetOwnPropertiesInfo"
  | defineProperty => "DefineProperty"
  | deleteProperty => "DeleteProperty"
  | setPrototype => "SetPrototype"
  | setProperty => "SetProperty"
  | setIndex => "SetIndex"
  | getTypedArrayInfo => "GetTypedArrayInfo"
  | constructCall => "ConstructCall"
  | callbackOp => "CallbackOp"
  | codeParse => "CodeParse"
  | callBegin => "CallBegin"
  | callEnd => "CallEnd"

instance : ToString Kind := ⟨name⟩

/-- The kind with a name, if there is one. -/
def ofName? (s : String) : Option Kind := all.find? fun k => k.name = s

@[simp] theorem ofNumber?_number (k : Kind) : ofNumber? k.number = some k := by
  cases k <;> rfl

/-- A number that names a kind is that kind's number. -/
theorem number_of_ofNumber? {n : UInt32} {k : Kind} (h : ofNumber? n = some k) : k.number = n := by
  obtain ⟨hn, hk⟩ := List.getElem?_eq_some_iff.1 h
  have key : ∀ i : Fin all.length, (all.get i).number = UInt32.ofNat i.val := by decide
  rw [← hk]
  exact (key ⟨n.toNat, hn⟩).trans UInt32.ofNat_toNat

end Kind
end Retrace
