import Retrace.Replay.Error

/-!
# The stack of open calls

Calls nest, and end in the reverse order in which they began. A frame holds what is needed to make
its call when its end is reached: in a replay the engine is called at the end, after everything
that the call did has been replayed.

The stack also remembers which ends matched which begins, and the root call it stands in or stood in
last.
-/

namespace Retrace

/-- A call that has begun and not ended. -/
structure Frame (η : Type) where
  begun : Time
  depth : UInt32
  function : Tag
  callback : CallbackId
  /-- What `function` stands for. -/
  callee : η
  args : List (Value η)
deriving DecidableEq, Repr

/-- The calls that are open in a replay, and what is known of those that have ended. -/
structure CallStack (η : Type) where
  /-- The open calls, innermost first. -/
  frames : List (Frame η)
  /-- The times of the ends of calls, by those of their begins. -/
  ends : OrderedMap Time Time
  /-- When the last root call began. -/
  root : Option Time
  /-- The callback that drove the last root call. -/
  rootCallback : CallbackId
deriving DecidableEq, Repr

namespace CallStack

variable {η : Type}

def empty : CallStack η := ⟨[], .empty, none, .none⟩

instance : Inhabited (CallStack η) := ⟨empty⟩

/-- How many calls are open. -/
def depth (s : CallStack η) : Nat := s.frames.length

def isEmpty (s : CallStack η) : Bool := s.frames.isEmpty

/-- The call that has to end next. -/
def innermost? (s : CallStack η) : Option (Frame η) := s.frames.head?

/-- The open root call. -/
def outermost? (s : CallStack η) : Option (Frame η) := s.frames.getLast?

/-- When the call that began at a time has ended. -/
def matchingEnd? (s : CallStack η) (begun : Time) : Option Time := s.ends.get? begun

/-- Starts a root call, which leaves no other call open. -/
def startRoot (s : CallStack η) (begun : Time) (callback : CallbackId) : CallStack η :=
  { s with frames := [], root := some begun, rootCallback := callback }

/-- Opens a call within those that are open. -/
def push (s : CallStack η) (frame : Frame η) : CallStack η :=
  { s with frames := frame :: s.frames }

/-- Takes note of the end of a call that was not replayed. -/
def recordMatch (s : CallStack η) (begun ended : Time) : CallStack η :=
  { s with ends := s.ends.insert begun ended }

/-- Leaves no call open. What has ended is kept. -/
def clearFrames (s : CallStack η) : CallStack η := { s with frames := [] }

/-- Ends the innermost call, which has to be the one that began at `named` and to have the given
depth. An end that names another call, or does not follow the call's begin, leaves the stack as it
is; one that only has the wrong depth does end the call. -/
def popMatching (time named : Time) (depth : UInt32) :
    EStateM ReplayError (CallStack η) (Frame η) := fun s =>
  match s.frames with
  | [] => .error (.callMismatch time named none) s
  | frame :: frames =>
    if frame.begun ≠ named ∨ time ≤ named then
      .error (.callMismatch time named (some frame.begun)) s
    else if frame.depth ≠ depth then
      .error (.depthMismatch time depth frame.depth.toNat) { s with frames }
    else .ok frame { s with frames, ends := s.ends.insert named time }

end CallStack
end Retrace
