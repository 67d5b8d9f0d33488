import Retrace.Log.Basic

/-!
# The structure of a log

A log is well formed if its times increase, and its calls nest: every call begins at the depth at
which it stands, ends after all calls within it and before those around it, and ends at all. What is
wrong with a log is found from its events alone, as a list of `Problem`s in the order of the log.
-/

namespace Retrace

/-- A way in which a log is not well formed. -/
inductive Problem where
  | timeNotLater (time previous : Time)
  | beginDepth (time : Time) (recorded : UInt32) (expected : Nat)
  | endDepth (time : Time) (recorded : UInt32) (expected : Nat)
  /-- A call ends while one within it is open. -/
  | wrongCallEnds (time named innermost : Time)
  | noCallEnds (time named : Time)
  | neverEnds (begun : Time)
deriving DecidableEq, Repr

/-- The problem as it is shown. -/
def Problem.message : Problem → String
  | timeNotLater time previous => s!"time {time} does not follow {previous}"
  | beginDepth time recorded expected =>
    s!"call begin {time} has depth {recorded.toNat}, expected {expected}"
  | endDepth time recorded expected =>
    s!"call end {time} has depth {recorded.toNat}, expected {expected}"
  | wrongCallEnds time named innermost =>
    s!"call end {time} names begin {named}, innermost open call began at {innermost}"
  | noCallEnds time named => s!"call end {time} names begin {named} with no call open"
  | neverEnds begun => s!"log ends with call begun at {begun} still open"

/-- What has been seen of a log: the time of the last event, and when the open calls began,
innermost first. -/
structure Nesting where
  previous : Option Time
  openCalls : List Time
deriving DecidableEq, Repr

namespace Nesting

/-- Nothing has been seen yet. -/
def start : Nesting := ⟨none, []⟩

/-- What is wrong with the time of the next event. -/
def timeProblems (n : Nesting) (time : Time) : List Problem :=
  match n.previous with
  | some previous => if time ≤ previous then [.timeNotLater time previous] else []
  | none => []

/-- What is wrong with the next event as the begin or end of a call, and the calls open after it. An
end that names another call ends the innermost one all the same. -/
def callProblems (n : Nesting) (e : Event) : List Problem × List Time :=
  match e.action with
  | .callBegin call =>
    let expected := n.openCalls.length
    (if call.depth.toNat = expected then [] else [.beginDepth e.time call.depth expected],
      e.time :: n.openCalls)
  | .callEnd call =>
    match n.openCalls with
    | [] => ([.noCallEnds e.time call.begun], [])
    | innermost :: around =>
      let problems :=
        if innermost ≠ call.begun then [.wrongCallEnds e.time call.begun innermost]
        else if call.depth.toNat = around.length then []
        else [.endDepth e.time call.depth around.length]
      (problems, around)
  | _ => ([], n.openCalls)

/-- What is wrong with the next event, and what has been seen after it. -/
def step (n : Nesting) (e : Event) : List Problem × Nesting :=
  let (problems, openCalls) := n.callProblems e
  (n.timeProblems e.time ++ problems, ⟨some e.time, openCalls⟩)

/-- What is wrong with the events that follow. At the end of the log the call that was opened first
is named, of all that are open. -/
def problems (n : Nesting) : List Event → List Problem
  | [] => (n.openCalls.getLast?.map Problem.neverEnds).toList
  | e :: rest =>
    let (found, next) := n.step e
    found ++ next.problems rest

end Nesting

/-- What is wrong with a log, in its order. -/
def Log.problems (log : Log) : List Problem := Nesting.start.problems log.events.toList

end Retrace
