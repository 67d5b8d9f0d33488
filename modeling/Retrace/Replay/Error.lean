import Retrace.Engine.Basic

/-!
# What can go wrong in a replay

Every error that concerns an event names its time. After most errors a replay cannot go on, because
the session no longer is where the recording was. Two leave it usable: an exception that the
recorded script did not catch either, and being stopped from outside.
-/

namespace Retrace

/-- Why a replay could not go on, or stopped. -/
inductive ReplayError where
  | unresolvedTag (time : Time) (tag : Tag)
  | untaggedValue (time : Time)
  | unknownContext (time : Time) (context : Context) (fault : Fault)
  | executionFailure (time : Time) (kind : Kind) (fault : Fault)
  | truncatedLog (begun : Time)
  /-- A call ends that is not the innermost open one. -/
  | callMismatch (time named : Time) (innermost : Option Time)
  | depthMismatch (time : Time) (recorded : UInt32) (actual : Nat)
  | callDepthExceeded (time : Time) (limit : Nat)
  | outOfOrder (previous time : Time)
  /-- The call that began at `root`, enclosed by no other, ended in an exception. -/
  | uncaughtException (root ended : Time) (terminating : Bool)
  /-- A call ended in an exception and its recording did not, or the other way round. -/
  | exceptionDivergence (time : Time) (recorded replayed : Bool)
  /-- The replay was stopped before an event. -/
  | aborted (next : Option Time)
  | faulted
deriving DecidableEq, Repr

namespace ReplayError

/-- The error as it is shown. -/
def message : ReplayError → String
  | unresolvedTag time tag => s!"unresolved identity tag {tag} at time {time}"
  | untaggedValue time => s!"untagged value at time {time}"
  | unknownContext time context fault =>
    s!"unknown execution context {context} at time {time}: " ++ fault.message
  | executionFailure time kind fault => s!"{kind} at time {time} failed: " ++ fault.message
  | truncatedLog begun => s!"log ended with call begun at {begun} still open"
  | callMismatch time named innermost =>
    s!"call end at {time} names begin {named}, innermost open call began at " ++
      Time.describe innermost
  | depthMismatch time recorded actual =>
    s!"call action at {time} has depth {recorded.toNat}, replay is at depth {actual}"
  | callDepthExceeded time limit => s!"call depth limit ({limit}) exceeded at time {time}"
  | outOfOrder previous time => s!"action at time {time} does not follow time {previous}"
  | uncaughtException root ended _ =>
    s!"uncaught exception in root call begun at {root} (ended at {ended})"
  | exceptionDivergence time recorded replayed =>
    s!"call ended at {time}: recorded exception={recorded}, replayed exception={replayed}"
  | aborted next => "replay aborted before time " ++ Time.describe next
  | faulted => "replay session has faulted"

/-- Whether the replay cannot go on. -/
def isTerminal : ReplayError → Bool
  | uncaughtException .. | aborted .. => false
  | _ => true

/-- What a failure to name a value means in the replay of an event. -/
def ofNaming (time : Time) : NamingError → ReplayError
  | .untagged => untaggedValue time
  | .unresolved tag | .alreadyBound tag | .outOfOrder tag _ => unresolvedTag time tag
  | .clockExhausted previous => outOfOrder previous time

/-- What it means that an event of a kind stands for no request. -/
def ofRequest (time : Time) (kind : Kind) : RequestError → ReplayError
  | .naming error => ofNaming time error
  | .notAnObject found => executionFailure time kind ⟨s!"expected an object, found {found}"⟩

end ReplayError
end Retrace
