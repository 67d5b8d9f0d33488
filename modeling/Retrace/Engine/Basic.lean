import Retrace.Engine.Request

/-!
# Engines

An `Engine` is a state that answers requests and calls. Replay knows nothing more of it: values that
are references are handles that only the tags of a session relate to those of another run. A request
fails with a `Fault`; a call always ends, in a value or in something thrown.

An engine may be able to do more: say which statement it executed last, and give out snapshots of
its whole state that it can be put back into.
-/

namespace Retrace

/-- Why an engine did not do what it was asked for. -/
structure Fault where
  message : String
deriving DecidableEq, Repr

/-- What a call ends in if it does not return. -/
structure Thrown (η : Type) where
  value : Value η
  /-- Whether the engine is shutting the script down, and not unwinding an exception. -/
  terminating : Bool
deriving DecidableEq, Repr

/-- How a call ends. -/
abbrev Outcome (η : Type) := Except (Thrown η) (Value η)

/-- The reference that a call returned; one that was thrown does not count. -/
def returned {η : Type} : Outcome η → Value η
  | .ok value => value
  | .error _ => .null

/-- Where in its scripts an engine has come to. -/
structure Statement where
  functionTime : UInt64
  loopTime : UInt64
  line : UInt32
  column : UInt32
  source : UInt32
deriving DecidableEq, Repr

/-- A place in scripts as it is shown. -/
def Statement.describe (s : Statement) : String :=
  let source := s.source.toNat
  let line := s.line.toNat
  let column := s.column.toNat
  let functionTime := s.functionTime.toNat
  let loopTime := s.loopTime.toNat
  s!"source {source} line {line} column {column} (ftime {functionTime}, ltime {loopTime})"

/-- An engine whose states are of type `ρ`, with handles `η` and snapshots `σ`. -/
class Engine (ρ : Type) (η σ : outParam Type) where
  /-- Makes the context current to which the operations that follow apply. -/
  enter : Context → EStateM Fault ρ Unit
  /-- Answers a request. A request with nothing to answer is answered with null. -/
  perform : Request η → EStateM Fault ρ (Value η)
  /-- Constructs an object by a function. -/
  construct : η → List (Value η) → StateM ρ (Outcome η)
  /-- Calls a function. -/
  call : η → List (Value η) → StateM ρ (Outcome η)
  /-- The last statement of the most recent call. -/
  lastStatement? : ρ → Option Statement := fun _ => none
  /-- A snapshot of the whole state, from an engine that gives any. -/
  capture? : ρ → Option σ := fun _ => none
  /-- Puts the engine back into the state of a snapshot. -/
  restore : σ → EStateM Fault ρ Unit := fun _ => throw ⟨"checkpoints are not supported"⟩

end Retrace
