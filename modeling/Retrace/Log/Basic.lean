import Retrace.Action.Event

/-!
# Logs

A `Log` is the sequence of its events. Events are only ever put at its end, so the position of an
event is a name for it that stays. Times name events too, but a log that was read may give the same
time to several; a time then means the last of them, and a call's begin its last recorded end.
-/

namespace Retrace

/-- Recorded events, in the order in which they were recorded. -/
structure Log where
  events : Array Event
deriving DecidableEq, Repr

namespace Log

def empty : Log := ⟨#[]⟩

instance : Inhabited Log := ⟨empty⟩

def size (log : Log) : Nat := log.events.size

def isEmpty (log : Log) : Bool := log.events.isEmpty

/-- Puts an event at the end. Its position is the size that the log had. -/
def push (log : Log) (e : Event) : Log := ⟨log.events.push e⟩

/-- The event at a position. -/
def get? (log : Log) (position : Nat) : Option Event := log.events[position]?

/-- The last position below `bound` whose event fulfils a condition, with the event. -/
def findBelow? (log : Log) (p : Event → Bool) : Nat → Option (Nat × Event)
  | 0 => none
  | bound + 1 =>
    match log.get? bound with
    | some e => if p e then some (bound, e) else log.findBelow? p bound
    -- only where the search begins behind the end of the log
    | none => log.findBelow? p bound

/-- The position of the event recorded at a time. -/
def positionOf? (log : Log) (time : Time) : Option Nat :=
  (log.findBelow? (fun e => e.time = time) log.size).map Prod.fst

/-- The end of the call that began at a time, with its position. -/
def matchingEnd? (log : Log) (begun : Time) : Option (Nat × Event) :=
  log.findBelow? (fun e => e.callEnd?.any fun call => call.begun = begun) log.size

/-- How many bytes the buffers and texts of all events take. -/
def payloadBytes (log : Log) : Nat :=
  log.events.toList.foldr (fun e n => e.action.payloadBytes + n) 0

/-- The time of the last event. -/
def lastTime? (log : Log) : Option Time := log.events.back?.map Event.time

end Log
end Retrace
