/-!
# The names that a log uses

Everything a log refers to has a name of its own kind: points on the event clock, execution
contexts, identity tags, properties, host callbacks, documents and function bodies. Each kind is a
type, so that none can stand for another, and each has the width in which it is written.

The event clock is a signed 64-bit counter. Its order is the order of a log, and it ends: the last
time has no successor (`Time.next?`).
-/

namespace Retrace

/-- A point on the event clock, the sole ordering key of a log. -/
structure Time where
  ticks : Int64
deriving DecidableEq, Repr, Inhabited

/-- Names the execution context that an operation applies to. -/
structure Context where
  id : UInt64
deriving DecidableEq, Repr, Inhabited

/-- A label for a reference value that means the same object in every run of a log. -/
structure Tag where
  id : UInt64
deriving DecidableEq, Repr, Inhabited

/-- Names a property of objects. -/
structure PropertyId where
  id : UInt32
deriving DecidableEq, Repr, Inhabited

/-- Correlates the scheduling of a host callback with its later runs. -/
structure CallbackId where
  id : Int64
deriving DecidableEq, Repr, Inhabited

/-- The host's number for a loaded script. -/
structure DocumentId where
  id : UInt64
deriving DecidableEq, Repr, Inhabited

/-- The engine's number for the top-level function body of a loaded script. -/
structure BodyId where
  id : UInt64
deriving DecidableEq, Repr, Inhabited

instance : ToString Time := ⟨fun t => toString t.ticks.toInt⟩
instance : ToString Context := ⟨fun c => toString c.id.toNat⟩
instance : ToString Tag := ⟨fun t => toString t.id.toNat⟩
instance : ToString PropertyId := ⟨fun p => toString p.id.toNat⟩
instance : ToString CallbackId := ⟨fun c => toString c.id.toInt⟩
instance : ToString DocumentId := ⟨fun d => toString d.id.toNat⟩

/-- The callback id of a root call that no host callback drives. -/
def CallbackId.none : CallbackId := ⟨-1⟩

namespace Time

instance : LT Time := ⟨fun a b => a.ticks < b.ticks⟩
instance : LE Time := ⟨fun a b => a.ticks ≤ b.ticks⟩
instance (a b : Time) : Decidable (a < b) := inferInstanceAs (Decidable (a.ticks < b.ticks))
instance (a b : Time) : Decidable (a ≤ b) := inferInstanceAs (Decidable (a.ticks ≤ b.ticks))

/-- The time of the first event of a recording. -/
def first : Time := ⟨1⟩

/-- The last time there is. -/
def last : Time := ⟨Int64.maxValue⟩

/-- The time right after `t`; the last time has none. -/
def next? (t : Time) : Option Time :=
  if t = last then .none else some ⟨t.ticks + 1⟩

/-- How a time that may be absent is named in messages. -/
def describe : Option Time → String
  | .none => "None"
  | some t => s!"Some(EventTime({t}))"

/-! ## The order of times -/

theorem le_iff {a b : Time} : a ≤ b ↔ a.ticks.toInt ≤ b.ticks.toInt :=
  Int64.le_iff_toInt_le

theorem lt_iff {a b : Time} : a < b ↔ a.ticks.toInt < b.ticks.toInt :=
  Int64.lt_iff_toInt_lt

theorem not_le {a b : Time} : ¬ a ≤ b ↔ b < a := by
  rw [le_iff, lt_iff, Int.not_le]

theorem ne_of_lt {a b : Time} (h : a < b) : a ≠ b := by
  rintro rfl
  exact absurd (lt_iff.1 h) (Int.lt_irrefl _)

theorem le_refl (a : Time) : a ≤ a := le_iff.2 (Int.le_refl _)

theorem le_of_lt {a b : Time} (h : a < b) : a ≤ b :=
  le_iff.2 (Int.le_of_lt (lt_iff.1 h))

theorem lt_asymm {a b : Time} (h : a < b) : ¬ b < a :=
  fun less => Int.lt_asymm (lt_iff.1 h) (lt_iff.1 less)

end Time
end Retrace
