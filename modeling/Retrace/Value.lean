import Retrace.Basic
import Retrace.Double.Basic

/-!
# Values at the boundary between host and engine

A value is a primitive or a reference. Primitives are stored inline; what a reference holds is the
type's parameter. An engine sees `Value` over its own handles. A log holds `Recorded` values, in
which a reference is an identity tag, so that they mean the same in every run.
-/

namespace Retrace

/-- A value whose references are of type `η`. -/
inductive Value (η : Type) where
  | null
  | bool (b : Bool)
  | i32 (n : Int32)
  | u32 (n : UInt32)
  | i64 (n : Int64)
  | u64 (n : UInt64)
  | f64 (x : Double)
  | str (s : String)
  | ref (handle : η)
deriving DecidableEq, Repr, Inhabited

/-- A value as a log holds it. -/
abbrev Recorded := Value Tag

namespace Value

variable {η κ : Type}

/-- What sort of value this is, as messages say it. -/
def typeName : Value η → String
  | null => "Null"
  | bool _ => "Bool"
  | i32 _ => "I32"
  | u32 _ => "U32"
  | i64 _ => "I64"
  | u64 _ => "U64"
  | f64 _ => "F64"
  | str _ => "Str"
  | ref _ => "Object"

/-- The reference in a value, if it is one. -/
def handle? : Value η → Option η
  | ref h => some h
  | _ => none

/-- Replaces the reference in a value; primitives stay as they are. -/
def mapRef (f : η → κ) : Value η → Value κ
  | null => null
  | bool b => bool b
  | i32 n => i32 n
  | u32 n => u32 n
  | i64 n => i64 n
  | u64 n => u64 n
  | f64 x => f64 x
  | str s => str s
  | ref h => ref (f h)

/-- Replaces the reference in a value by one that may fail to exist. -/
def traverse {ε : Type} (f : η → Except ε κ) : Value η → Except ε (Value κ)
  | null => .ok null
  | bool b => .ok (bool b)
  | i32 n => .ok (i32 n)
  | u32 n => .ok (u32 n)
  | i64 n => .ok (i64 n)
  | u64 n => .ok (u64 n)
  | f64 x => .ok (f64 x)
  | str s => .ok (str s)
  | ref h => (f h).map ref

/-- How many bytes the text in a value takes. -/
def payloadBytes : Value η → Nat
  | str s => s.utf8ByteSize
  | _ => 0

/-- Replaces the double in a value; all other values stay as they are. -/
def mapDouble (f : Double → Double) : Value η → Value η
  | f64 x => f64 (f x)
  | v => v

end Value
end Retrace
