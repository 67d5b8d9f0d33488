import Retrace.Action.Event
import Retrace.OrderedMap

/-!
# Pending callbacks

Scripts schedule callbacks that the host runs later. The registry holds those that are pending, so
that a root call which a callback drives can be related to the operation that scheduled it. A
callback stops being pending when it is cancelled, and when it has run unless it repeats.
-/

namespace Retrace

/-- A callback that was scheduled and may still run. -/
structure PendingCallback where
  id : CallbackId
  function : Tag
  repeating : Bool
  scheduledAt : Time
  /-- The callback that was running when this one was scheduled. -/
  scheduledBy : CallbackId
deriving DecidableEq, Repr

/-- The callbacks that are pending, and how often some came to run or were cancelled. -/
structure Callbacks where
  /-- The pending callbacks, in the order in which their ids came to be pending. -/
  pending : OrderedMap CallbackId PendingCallback
  /-- How many root calls were driven by a pending callback. -/
  invocations : UInt64
  /-- How many callbacks were cancelled while they were pending. -/
  cancellations : UInt64
deriving DecidableEq, Repr

namespace Callbacks

def empty : Callbacks := ⟨.empty, 0, 0⟩

instance : Inhabited Callbacks := ⟨empty⟩

/-- A pending callback. -/
def get? (c : Callbacks) (id : CallbackId) : Option PendingCallback := c.pending.get? id

def isPending (c : Callbacks) (id : CallbackId) : Bool := c.pending.contains id

/-- Makes a callback pending. One that is pending already is replaced, in its place. -/
def schedule (c : Callbacks) (callback : PendingCallback) : Callbacks :=
  { c with pending := c.pending.insert callback.id callback }

/-- Cancels a callback; answers whether it was pending. One that was not may have run already. -/
def cancel (c : Callbacks) (id : CallbackId) : Bool × Callbacks :=
  if c.isPending id then
    (true, { c with pending := c.pending.erase id, cancellations := c.cancellations + 1 })
  else (false, c)

/-- Does what a recorded operation did. -/
def apply (c : Callbacks) (time : Time) (op : CallbackOp) : Callbacks :=
  if op.cancels then (c.cancel op.callback).2
  else c.schedule ⟨op.callback, op.function, op.repeating, time, op.current⟩

/-- Takes note of a root call that a callback drives; answers the callback if it was pending. -/
def onRootCall (c : Callbacks) (id : CallbackId) : Option PendingCallback × Callbacks :=
  if id = .none then (none, c)
  else
    match c.get? id with
    | none => (none, c)
    | some callback =>
      let pending := if callback.repeating then c.pending else c.pending.erase id
      (some callback, { c with pending, invocations := c.invocations + 1 })

end Callbacks
end Retrace
