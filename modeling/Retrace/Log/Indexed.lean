import Retrace.Log.Basic
import Retrace.OrderedMap

/-!
# Logs with indexes

A replay asks a log again and again where the event of a time is, and where a call ends. An
`IndexedLog` keeps the answers beside the events, and the number of bytes that the events take:
whenever an event is put at the end, what is kept is brought up to date, and no event is looked at
twice. The events are given up all together, and never one by one.

What is kept has to agree with the answers that `Log` finds in the events themselves.
-/

namespace Retrace

/-- A log with what can be found in it without going through its events. -/
structure IndexedLog where
  log : Log
  /-- The position of the last event of each time. -/
  byTime : OrderedMap Time Nat
  /-- The position of the last end of each call, by the time of its begin. -/
  callEnds : OrderedMap Time Nat
  /-- How many bytes the buffers and texts of all events take. -/
  payloadBytes : Nat
deriving DecidableEq, Repr

namespace IndexedLog

def empty : IndexedLog := ⟨.empty, .empty, .empty, 0⟩

instance : Inhabited IndexedLog := ⟨empty⟩

def size (indexed : IndexedLog) : Nat := indexed.log.size

def isEmpty (indexed : IndexedLog) : Bool := indexed.log.isEmpty

/-- The event at a position. -/
def get? (indexed : IndexedLog) (position : Nat) : Option Event := indexed.log.get? position

/-- The position of the event recorded at a time. -/
def positionOf? (indexed : IndexedLog) (time : Time) : Option Nat := indexed.byTime.get? time

/-- The end of the call that began at a time, with its position. -/
def matchingEnd? (indexed : IndexedLog) (begun : Time) : Option (Nat × Event) := do
  let position ← indexed.callEnds.get? begun
  let e ← indexed.get? position
  return (position, e)

/-- Puts an event at the end, and answers its position. -/
def push (indexed : IndexedLog) (e : Event) : Nat × IndexedLog :=
  let position := indexed.size
  (position, {
    log := indexed.log.push e
    -- an earlier event of the same time, or an earlier end of the call, is not found any more
    byTime := indexed.byTime.insert e.time position
    callEnds := match e.callEnd? with
      | some call => indexed.callEnds.insert call.begun position
      | none => indexed.callEnds
    payloadBytes := indexed.payloadBytes + e.action.payloadBytes })

/-- Gives up all events, and answers how many bytes they took. -/
def release (indexed : IndexedLog) : Nat × IndexedLog :=
  (indexed.payloadBytes,
    { indexed with log := .empty, byTime := .empty, callEnds := .empty, payloadBytes := 0 })

end IndexedLog
end Retrace
