import Retrace.Proofs.Replay.Execution

/-!
# What replaying one event does to the open calls

Whatever engine a log is replayed on, the calls that are open depend on the events alone. `CallStep`
is the whole of it: an event opens a call on top of those that are open, or ends the innermost one,
or leaves them as they are. `Executed` adds the ways in which an event can fail, and
`execute_executed` says that there are no others.

Frames know how deep they are, and `Numbered` says that they are right: a frame of depth `n` has
`n` frames below it. Every step keeps this, so a call of depth zero is a root call in both senses of
the word, by what is recorded of it and by where it stands.
-/

namespace Retrace

/-! ## Events that change nothing about the calls -/

theorem Event.callBegin?_eq_some {e : Event} {call : CallBegin} :
    e.callBegin? = some call ↔ e.action = .callBegin call := by
  unfold Event.callBegin?
  cases e.action <;> simp

theorem Event.callEnd?_eq_some {e : Event} {call : CallEnd} :
    e.callEnd? = some call ↔ e.action = .callEnd call := by
  unfold Event.callEnd?
  cases e.action <;> simp

/-! ## One step of the stack -/

section Stack

variable {η : Type}

/-- What an event that was replayed has done to the open calls. -/
inductive CallStep (e : Event) (k k' : CallStack η) : Prop
  | inner (hbegin : e.callBegin? = none) (hend : e.callEnd? = none) (same : k' = k)
  | begins (call : CallBegin) (frame : Frame η) (action : e.action = .callBegin call)
      (deep : call.depth.toNat = k.depth) (begun : frame.begun = e.time)
      (depth : frame.depth = call.depth) (frames : k'.frames = frame :: k.frames)
      (ends : k'.ends = k.ends)
      (root : k'.root = if call.depth = 0 then some e.time else k.root)
      (rootCallback : k'.rootCallback = if call.depth = 0 then call.callback else k.rootCallback)
  | finishes (call : CallEnd) (frame : Frame η) (frames : List (Frame η))
      (action : e.action = .callEnd call) (top : k.frames = frame :: frames)
      (begun : frame.begun = call.begun) (later : call.begun < e.time)
      (depth : frame.depth = call.depth)
      (left : k' = { k with frames, ends := k.ends.insert call.begun e.time })

/-- Every frame's depth is the number of frames below it. -/
def Numbered : List (Frame η) → Prop
  | [] => True
  | frame :: frames => frame.depth.toNat = frames.length ∧ Numbered frames

theorem CallStep.numbered {e : Event} {k k' : CallStack η} (h : CallStep e k k')
    (hn : Numbered k.frames) : Numbered k'.frames := by
  cases h with
  | inner _ _ same => exact same ▸ hn
  | begins call frame _ deep _ depth frames =>
    rw [frames]
    exact ⟨by rw [depth]; exact deep, hn⟩
  | finishes call frame frames _ top _ _ _ left =>
    rw [top] at hn
    rw [left]
    exact hn.2

end Stack

/-! ## All that an event can do -/

namespace Session

variable {ρ η σ : Type}

/-- How replaying an event ends, in terms of the calls that are open before it. -/
inductive Executed (e : Event) (s : Session ρ η σ) :
    EStateM.Result ReplayError (Session ρ η σ) Unit → Prop
  | done (s' : Session ρ η σ) (step : CallStep e s.stack s'.stack)
      (settings : s'.settings = s.settings)
      (checkpoints : s'.notes.checkpoints = s.notes.checkpoints)
      (quiet : ∀ call, e.action = .callEnd call → ¬(call.depth = 0 ∧ call.raised = true)) :
      Executed e s (.ok () s')
  | uncaught (s' : Session ρ η σ) (call : CallEnd) (action : e.action = .callEnd call)
      (step : CallStep e s.stack s'.stack) (settings : s'.settings = s.settings)
      (checkpoints : s'.notes.checkpoints = s.notes.checkpoints)
      (depth : call.depth = 0) (raised : call.raised = true) :
      Executed e s
        (.error (.uncaughtException call.begun e.time call.terminatingException) s')
  | failed (s' : Session ρ η σ) (err : ReplayError) (operational : err.IsOperational) :
      Executed e s (.error err s')
  | tooDeep (s' : Session ρ η σ) (limit : Nat) :
      Executed e s (.error (.callDepthExceeded e.time limit) s')
  | diverged (s' : Session ρ η σ) (recorded replayed : Bool) :
      Executed e s (.error (.exceptionDivergence e.time recorded replayed) s')
  | beginDepth (s' : Session ρ η σ) (call : CallBegin) (action : e.action = .callBegin call)
      (deep : call.depth.toNat ≠ s.stack.depth) :
      Executed e s (.error (.depthMismatch e.time call.depth s.stack.depth) s')
  | noneOpen (s' : Session ρ η σ) (call : CallEnd) (action : e.action = .callEnd call)
      (top : s.stack.frames = []) :
      Executed e s (.error (.callMismatch e.time call.begun none) s')
  | otherOpen (s' : Session ρ η σ) (call : CallEnd) (frame : Frame η) (frames : List (Frame η))
      (action : e.action = .callEnd call) (top : s.stack.frames = frame :: frames)
      (other : frame.begun ≠ call.begun ∨ e.time ≤ call.begun) :
      Executed e s (.error (.callMismatch e.time call.begun (some frame.begun)) s')
  | endDepth (s' : Session ρ η σ) (call : CallEnd) (frame : Frame η) (frames : List (Frame η))
      (action : e.action = .callEnd call) (top : s.stack.frames = frame :: frames)
      (begun : frame.begun = call.begun) (depth : frame.depth ≠ call.depth) :
      Executed e s (.error (.depthMismatch e.time call.depth frame.depth.toNat) s')

/-- Every error but one ends the replay. -/
theorem Executed.terminal_or_uncaught {e : Event} {s s' : Session ρ η σ} {err : ReplayError}
    (h : Executed e s (.error err s')) :
    err.isTerminal = true ∨ ∃ root ended terminating,
      err = .uncaughtException root ended terminating := by
  cases h with
  | uncaught t call => exact Or.inr ⟨_, _, _, rfl⟩
  | failed t err operational => exact Or.inl operational.terminal
  | _ => exact Or.inl rfl

/-- What an event does from a session on, it does from one with the same calls. -/
theorem SameCalls.executed {e : Event} {s s' : Session ρ η σ} (h : SameCalls s s')
    {r : EStateM.Result ReplayError (Session ρ η σ) Unit} (he : Executed e s' r) :
    Executed e s r := by
  have stack := h.stack
  have settings := h.settings
  have checkpoints := h.checkpoints
  cases he with
  | done t step set cps quiet =>
    exact .done t (stack ▸ step) (set.trans settings) (cps.trans checkpoints) quiet
  | uncaught t call action step set cps depth raised =>
    exact .uncaught t call action (stack ▸ step) (set.trans settings) (cps.trans checkpoints)
      depth raised
  | failed t err operational => exact .failed t err operational
  | tooDeep t limit => exact .tooDeep t limit
  | diverged t recorded replayed => exact .diverged t recorded replayed
  | beginDepth t call action deep => rw [stack] at deep ⊢; exact .beginDepth t call action deep
  | noneOpen t call action top => exact .noneOpen t call action (stack ▸ top)
  | otherOpen t call frame frames action top other =>
    exact .otherOpen t call frame frames action (stack ▸ top) other
  | endDepth t call frame frames action top begun depth =>
    exact .endDepth t call frame frames action (stack ▸ top) begun depth

theorem rooted_push_step {e : Event} {call : CallBegin} {s : Session ρ η σ} {frame : Frame η}
    (action : e.action = .callBegin call) (deep : call.depth.toNat = s.stack.depth)
    (begun : frame.begun = e.time) (depth : frame.depth = call.depth) :
    CallStep e s.stack ((s.rooted e.time call).stack.push frame) := by
  by_cases hz : call.depth = 0
  · -- a root call clears the stack, which is empty already
    have none : s.stack.frames = [] := by
      rw [hz] at deep
      exact List.length_eq_zero_iff.1 deep.symm
    exact .begins call frame action deep begun depth
      (by simp [rooted, hz, CallStack.push, CallStack.startRoot, none])
      (by simp [rooted, hz, CallStack.push, CallStack.startRoot])
      (by simp [rooted, hz, CallStack.push, CallStack.startRoot])
      (by simp [rooted, hz, CallStack.push, CallStack.startRoot])
  · exact .begins call frame action deep begun depth
      (by simp [rooted, hz, CallStack.push])
      (by simp [rooted, hz, CallStack.push])
      (by simp [rooted, hz, CallStack.push])
      (by simp [rooted, hz, CallStack.push])

theorem rooted_settings (time : Time) (call : CallBegin) (s : Session ρ η σ) :
    (s.rooted time call).settings = s.settings ∧ (s.rooted time call).notes = s.notes := by
  unfold rooted
  split <;> exact ⟨rfl, rfl⟩

theorem beginCall_executed {e : Event} {call : CallBegin} (action : e.action = .callBegin call)
    (s : Session ρ η σ) : Executed e s (beginCall e.time call s) := by
  rw [beginCall_run]
  split
  · rename_i deep; exact .beginDepth s call action deep
  · rename_i deep
    split
    · exact .tooDeep s _
    · cases hc : s.tags.callOf call.function call.args with
      | error err =>
        obtain ⟨tag, rfl⟩ := TagTable.callOf_error hc
        exact .failed _ _ trivial
      | ok made =>
        have kept := rooted_settings e.time call s
        refine .done _ (rooted_push_step action (Decidable.not_not.1 deep) rfl rfl) kept.1
          (congrArg Notes.checkpoints kept.2) fun end_ h => ?_
        exact absurd (action.symm.trans h) (by simp)

variable [Engine ρ η σ] [DecidableEq η]

theorem endCall_executed {position : Nat} {e : Event} {call : CallEnd}
    (action : e.action = .callEnd call) (s : Session ρ η σ) :
    Executed e s (endCall position e.time call s) := by
  rw [endCall_run, popCall_run]
  cases hf : s.stack.frames with
  | nil => exact .noneOpen s call action hf
  | cons frame frames =>
    dsimp only
    by_cases other : frame.begun ≠ call.begun ∨ e.time ≤ call.begun
    · rw [if_pos other]
      exact .otherOpen s call frame frames action hf other
    rw [if_neg other]
    -- what is left is the end of the call on top; its outcome decides between three ends
    rw [not_or, Decidable.not_not, Time.not_le] at other
    by_cases depth : frame.depth = call.depth
    · rw [if_neg (fun h => h depth)]
      dsimp only
      let popped : Session ρ η σ := { s with
        stack := { s.stack with frames, ends := s.stack.ends.insert call.begun e.time } }
      have made : SameCalls popped (called position call frame popped) :=
        called_sameCalls position call frame popped
      have step : CallStep e s.stack (called position call frame popped).stack :=
        .finishes call frame frames action hf other.1 other.2 depth made.stack
      split
      · exact .diverged _ _ _
      · split
        · rename_i root
          rw [other.1]
          exact .uncaught _ call action step made.settings made.checkpoints root.1 root.2
        · rename_i quiet
          refine .done _ step made.settings made.checkpoints ?_
          intro call' h
          rw [action] at h
          cases h
          exact quiet
    · rw [if_pos depth]
      exact .endDepth _ call frame frames action hf other.1 depth

theorem act_callBegin {position : Nat} {e : Event} {call : CallBegin}
    (action : e.action = .callBegin call) (s : Session ρ η σ) :
    act position e s = beginCall e.time call s := by
  simp only [act, action, Action.request?]

theorem act_callEnd {position : Nat} {e : Event} {call : CallEnd}
    (action : e.action = .callEnd call) (s : Session ρ η σ) :
    act position e s = endCall position e.time call s := by
  simp only [act, action, Action.request?]

/-- **These are all the ways in which replaying an event can end.** -/
theorem execute_executed (position : Nat) (e : Event) (s : Session ρ η σ) :
    Executed e s (execute position e s) := by
  rw [execute_run]
  have entered := enter_inner e.time e.context s
  cases hen : enter e.time e.context s with
  | error err s' =>
    rw [hen] at entered
    exact .failed s' err entered.2
  | ok u s' =>
    rw [hen] at entered
    dsimp only
    -- entering the context leaves the calls alone
    suffices h : Executed e s' (act position e s') from entered.executed h
    cases hb : e.callBegin? with
    | some call =>
      have action := Event.callBegin?_eq_some.1 hb
      rw [act_callBegin action]
      exact beginCall_executed action s'
    | none =>
      cases he : e.callEnd? with
      | some call =>
        have action := Event.callEnd?_eq_some.1 he
        rw [act_callEnd action]
        exact endCall_executed action s'
      | none =>
        have inner : Inner s' (act position e s') := act_inner hb he s'
        cases ha : act position e s' with
        | error err s'' => rw [ha] at inner; exact .failed s'' err inner.2
        | ok u s'' =>
          rw [ha] at inner
          refine .done s'' (.inner hb he inner.stack) inner.settings inner.checkpoints ?_
          intro call h
          exact absurd (Event.callEnd?_eq_some.2 h) (by simp [he])

end Session

end Retrace
