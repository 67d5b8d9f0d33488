import Retrace.Proofs.Replay.Abreast

/-!
# Restoring a checkpoint erases the past

A checkpoint holds the engine's snapshot, the tags, the callbacks and the pending exception. That is
not all of a session: the matched ends of calls, the last root call and what is known about the log
stay what they were. So sessions that went different ways still differ after they were put back to
the same checkpoint. The point is that nothing they replay from there on looks at the difference.

`Resembles` is this difference, and `execute_resembles` says that it is kept by every event, on
every engine: the remnants are written to, and one of them is copied into a note, but no event is
decided by them. The engine has only to come back from a snapshot to one and the same state. A
sandbox does, since it forgets which context it is in (`putBack_resembles`).
-/

namespace Retrace
namespace Session

/-! ## Remnants that no event reads -/

section Remnants

variable {ρ η σ : Type}

/-- The sessions are the same but for the remnants of calls that are over and for what is known
    about the log. -/
structure Resembles (s t : Session ρ η σ) : Prop where
  engine : s.engine = t.engine
  settings : s.settings = t.settings
  tags : s.tags = t.tags
  frames : s.stack.frames = t.stack.frames
  callbacks : s.callbacks = t.callbacks
  pending : s.pending = t.pending
  context : s.context = t.context

variable {s t : Session ρ η σ}

theorem Resembles.withEngine (h : Resembles s t) (engine : ρ) :
    Resembles { s with engine } { t with engine } :=
  { h with engine := rfl }

theorem Resembles.depth (h : Resembles s t) : s.stack.depth = t.stack.depth := by
  unfold CallStack.depth
  rw [h.frames]

theorem rooted_resembles (h : Resembles s t) (time : Time) (call : CallBegin) :
    Resembles (s.rooted time call) (t.rooted time call) := by
  unfold rooted
  split
  · rw [h.callbacks]
    exact { h with frames := rfl, callbacks := rfl }
  · exact h

theorem beginCall_resembles (h : Resembles s t) (time : Time) (call : CallBegin) :
    Matched Resembles Eq Eq (beginCall time call s) (beginCall time call t) := by
  have begun := rooted_resembles h time call
  rw [beginCall_run, beginCall_run, h.depth, h.settings, h.tags]
  split
  · exact ⟨rfl, h⟩
  split
  · exact ⟨rfl, h⟩
  cases t.tags.callOf call.function call.args with
  | error e => exact ⟨rfl, begun⟩
  | ok made => exact ⟨rfl, { begun with frames := congrArg (List.cons _) begun.frames }⟩

theorem popCall_resembles (h : Resembles s t) (time : Time) (call : CallEnd) :
    Matched Resembles Eq Eq (popCall time call s) (popCall time call t) := by
  rw [popCall_run, popCall_run, h.frames]
  cases t.stack.frames with
  | nil => exact ⟨rfl, h⟩
  | cons frame frames =>
    dsimp only
    split
    · exact ⟨rfl, h⟩
    split
    · exact ⟨rfl, { h with frames := rfl }⟩
    · exact ⟨rfl, { h with frames := rfl }⟩

section Engine

variable [Engine ρ η σ]

theorem enter_resembles (h : Resembles s t) (time : Time) (context : Context) :
    Matched Resembles Eq Eq (enter time context s) (enter time context t) := by
  rw [enter_run, enter_run, h.context, h.engine]
  split
  · exact ⟨rfl, h⟩
  · cases Engine.enter context t.engine with
    | ok u engine => exact ⟨rfl, { h with engine := rfl, context := rfl }⟩
    | error fault engine => exact ⟨rfl, { h with engine := rfl, context := rfl }⟩

/-- Where a callback was scheduled is noted with the last root call, and only noted. -/
theorem applyCallback_resembles (h : Resembles s t) (position position' : Nat) (time : Time)
    (op : CallbackOp) :
    Matched Resembles Eq Eq (applyCallback position time op s)
      (applyCallback position' time op t) := by
  rw [applyCallback_run, applyCallback_run, h.callbacks]
  exact ⟨rfl, { h with callbacks := rfl }⟩

theorem noted_resembles (h : Resembles s t) (position position' : Nat) (call : CallEnd) :
    Resembles (s.noted position call) (t.noted position' call) := by
  have same : Engine.lastStatement? s.engine = Engine.lastStatement? t.engine := by rw [h.engine]
  unfold noted
  rw [same]
  split
  · split
    · exact { h with }
    · exact h
  · exact h

end Engine

variable [DecidableEq η]

theorem settled_resembles (h : Resembles s t) (outcome : Outcome η) :
    Resembles (s.settled outcome) (t.settled outcome) := by
  cases outcome with
  | ok value =>
    show Resembles { s with tags := s.tags.trackValue value }
      { t with tags := t.tags.trackValue value }
    rw [h.tags]
    exact { h with tags := rfl }
  | error thrown => exact { h with pending := rfl }

theorem kept_resembles (h : Resembles s t) (request : Request η) (result : Value η) :
    Resembles (s.kept request result) (t.kept request result) := by
  unfold kept
  split
  · rw [h.tags]
    exact { h with tags := rfl }
  · exact h

theorem takeException_resembles (h : Resembles s t) :
    Matched Resembles Eq Eq (takeException s) (takeException t) := by
  rw [takeException_run, takeException_run, h.pending, h.tags]
  refine ⟨rfl, ?_⟩
  cases t.pending with
  | none => exact h
  | some thrown => exact { h with pending := rfl, tags := rfl }

variable [Engine ρ η σ]

theorem answer_resembles (h : Resembles s t) (time : Time) (request : Request η) :
    Matched Resembles Eq Eq (answer time request s) (answer time request t) := by
  rw [answer_run, answer_run, h.engine]
  cases Engine.perform request t.engine with
  | ok result engine => exact ⟨rfl, kept_resembles (h.withEngine engine) request result⟩
  | error fault engine => exact ⟨rfl, h.withEngine engine⟩

theorem construct_resembles (h : Resembles s t) (time : Time) (function : Tag)
    (args : List Recorded) :
    Matched Resembles Eq Eq (construct time function args s) (construct time function args t) := by
  have same : s.tags.callOf function args = t.tags.callOf function args := by rw [h.tags]
  rw [construct_run, construct_run, same, h.engine]
  cases t.tags.callOf function args with
  | error e => exact ⟨rfl, h⟩
  | ok call => exact ⟨rfl, settled_resembles (h.withEngine _) _⟩

theorem called_resembles (h : Resembles s t) (position position' : Nat) (call : CallEnd)
    (frame : Frame η) :
    Resembles (s.called position call frame) (t.called position' call frame) := by
  unfold called
  rw [h.engine]
  exact noted_resembles (settled_resembles (h.withEngine _) _) position position' call

theorem endCall_resembles (h : Resembles s t) (position position' : Nat) (time : Time)
    (call : CallEnd) :
    Matched Resembles Eq Eq (endCall position time call s) (endCall position' time call t) := by
  rw [endCall_run, endCall_run]
  rcases (popCall_resembles h time call).cases with
    ⟨frame, _, _, _, hs, ht, rfl, popped⟩ | ⟨_, _, _, _, hs, ht, failed⟩
  · have called := called_resembles popped position position' call frame
    rw [hs, ht]
    dsimp only
    rw [popped.engine, popped.settings]
    split
    · exact ⟨rfl, called⟩
    split
    · exact ⟨rfl, called⟩
    · exact ⟨rfl, called⟩
  · rw [hs, ht]
    exact failed

theorem act_resembles (h : Resembles s t) (position position' : Nat) (e : Event) :
    Matched Resembles Eq Eq (act position e s) (act position' e t) := by
  unfold act
  rw [h.tags]
  cases e.action.request? t.tags with
  | some r =>
    cases r with
    | ok request => exact answer_resembles h e.time request
    | error error => exact ⟨rfl, h⟩
  | none =>
    cases e.action with
    | getAndClearException => exact takeException_resembles h
    | constructCall function args => exact construct_resembles h e.time function args
    | callbackOp op => exact applyCallback_resembles h position position' e.time op
    | callBegin call => exact beginCall_resembles h e.time call
    | callEnd call => exact endCall_resembles h position position' e.time call
    | _ => exact ⟨rfl, h⟩

/-- **No event reads the remnants of calls that are over, or what is known about the log.** -/
theorem execute_resembles (h : Resembles s t) (position position' : Nat) (e : Event) :
    Matched Resembles Eq Eq (execute position e s) (execute position' e t) := by
  rw [execute_run, execute_run]
  rcases (enter_resembles h e.time e.context).cases with
    ⟨_, _, _, _, hs, ht, -, entered⟩ | ⟨_, _, _, _, hs, ht, failed⟩
  · rw [hs, ht]
    exact act_resembles entered position position' e
  · rw [hs, ht]
    exact failed

end Remnants

/-! ## Any number of events -/

/-- Replays events one after the other, each at its position, with what comes of it and the session
    behind it. An error ends this, unless it is one to go on after. -/
def replays {ρ η σ : Type} [DecidableEq η] [Engine ρ η σ] (goesOn : ReplayError → Bool) :
    List (Nat × Event) → Session ρ η σ → List (Except ReplayError Unit × Session ρ η σ)
  | [], _ => []
  | (position, e) :: events, s =>
    match execute position e s with
    | .ok () next => (.ok (), next) :: replays goesOn events next
    | .error err next => (.error err, next) :: if goesOn err then replays goesOn events next else []

/-- Any number of events, one after the other, end alike in sessions that resemble each other, and
    leave them so. -/
theorem replays_resembles {ρ η σ : Type} [DecidableEq η] [Engine ρ η σ] {s t : Session ρ η σ}
    (h : Resembles s t) (goesOn : ReplayError → Bool) (events : List (Nat × Event)) :
    List.Forall₂ (fun one other => one.1 = other.1 ∧ Resembles one.2 other.2)
      (replays goesOn events s) (replays goesOn events t) := by
  induction events generalizing s t with
  | nil => exact .nil
  | cons first events ih =>
    obtain ⟨position, e⟩ := first
    rw [replays, replays]
    rcases (execute_resembles h position position e).cases with
      ⟨_, _, _, _, hs, ht, -, next⟩ | ⟨err, _, _, _, hs, ht, rfl, next⟩
    · rw [hs, ht]
      exact .cons ⟨rfl, next⟩ (ih next)
    · rw [hs, ht]
      refine .cons ⟨rfl, next⟩ ?_
      split
      · exact ih next
      · exact .nil

/-! ## Sandboxes that were put back -/

/-- The sessions have come to the same, in the sandbox and in what they keep of it. -/
structure SameState (s t : SandboxSession) : Prop where
  heap : s.engine.heap = t.engine.heap
  calls : s.engine.calls = t.engine.calls
  lastStatement : s.engine.lastStatement = t.engine.lastStatement
  /-- The tables are equal with their handles. -/
  tags : s.tags = t.tags
  callbacks : s.callbacks = t.callbacks
  pending : s.pending = t.pending
  frames : s.stack.frames = t.stack.frames

theorem Resembles.sameState {s t : SandboxSession} (h : Resembles s t) : SameState s t where
  heap := congrArg Sandbox.heap h.engine
  calls := congrArg Sandbox.calls h.engine
  lastStatement := congrArg Sandbox.lastStatement h.engine
  tags := h.tags
  callbacks := h.callbacks
  pending := h.pending
  frames := h.frames

/-- The session of a sandbox that was put back to a checkpoint. -/
def putBack (c : Checkpoint ObjectRef SandboxSnapshot) (s : SandboxSession) : SandboxSession :=
  { s with
    engine := s.engine.restored c.snapshot
    tags := c.tags
    callbacks := c.callbacks
    pending := c.pending
    stack := s.stack.clearFrames
    context := none }

theorem restore_run (c : Checkpoint ObjectRef SandboxSnapshot) (s : SandboxSession) :
    restore c s = .ok () (s.putBack c) := rfl

/-- What a checkpoint leaves of a sandbox is the contexts that it knows. -/
theorem putBack_resembles (c : Checkpoint ObjectRef SandboxSnapshot) {s t : SandboxSession}
    (contexts : s.engine.contexts = t.engine.contexts) (settings : s.settings = t.settings) :
    Resembles (s.putBack c) (t.putBack c) where
  engine := by
    show s.engine.restored c.snapshot = t.engine.restored c.snapshot
    rw [Sandbox.restored, contexts, Sandbox.restored]
  settings := settings
  tags := rfl
  frames := rfl
  callbacks := rfl
  pending := rfl
  context := rfl

/-- **Restoring a checkpoint erases the past.** Take any two sessions of sandboxes that know the
    same contexts, under the same settings, with calls open or not, having failed or not; and any
    checkpoint. Both can be put back to it, and come to the same by this. Whatever events are then
    replayed in both, valid or not, going on after whichever errors: each of them ends alike in
    both, with the same error if it fails, and leaves them the same. -/
theorem restore_erases_past (c : Checkpoint ObjectRef SandboxSnapshot) {s t : SandboxSession}
    (contexts : s.engine.contexts = t.engine.contexts) (settings : s.settings = t.settings)
    (goesOn : ReplayError → Bool) (events : List (Nat × Event)) :
    ∃ s' t', restore c s = .ok () s' ∧ restore c t = .ok () t' ∧ SameState s' t' ∧
      List.Forall₂ (fun one other => one.1 = other.1 ∧ SameState one.2 other.2)
        (replays goesOn events s') (replays goesOn events t') := by
  have same := putBack_resembles c contexts settings
  exact ⟨s.putBack c, t.putBack c, restore_run c s, restore_run c t, same.sameState,
    (replays_resembles same goesOn events).imp fun _ _ both => ⟨both.1, both.2.sameState⟩⟩

/-- The session behind events that were replayed one after the other, whatever came of them. -/
def behind (events : List (Nat × Event)) (s : SandboxSession) : SandboxSession :=
  ((replays (fun _ => true) events s).getLast?.map Prod.snd).getD s

/-- A function is made, and a root call of it begins. -/
def callOpened : List (Nat × Event) :=
  [(0, ⟨⟨1⟩, ⟨0⟩, .allocateFunction none⟩),
    (1, ⟨⟨2⟩, ⟨0⟩, .callBegin ⟨0, .none, ⟨1⟩, ⟨0⟩, none, []⟩⟩)]

/-- The call ends, and so does another one that never began. -/
def callsEnded : List (Nat × Event) :=
  [(2, ⟨⟨3⟩, ⟨0⟩, .callEnd ⟨⟨2⟩, 0, false, false, ⟨0⟩⟩⟩),
    (3, ⟨⟨4⟩, ⟨0⟩, .callEnd ⟨⟨2⟩, 0, false, false, ⟨0⟩⟩⟩)]

/-- A session in which nothing has been replayed. -/
def untouched : SandboxSession := .start (.fresh none) {} .empty

/-- A call that is open is given up when its session is put back to where the function was made:
    its end fails there as it does in a session that never saw it begin. -/
theorem openCall_given_up :
    let c : Checkpoint ObjectRef SandboxSnapshot :=
      ⟨(untouched.behind (callOpened.take 1)).engine.snapshot,
        (untouched.behind (callOpened.take 1)).tags, .empty, none, ⟨1⟩⟩
    let s := untouched.behind callOpened
    (untouched.behind (callOpened.take 1)).checkpoint? ⟨1⟩ = some c ∧ s.stack.frames ≠ [] ∧
      ∃ s' t', restore c s = .ok () s' ∧ restore c untouched = .ok () t' ∧ SameState s' t' ∧
        List.Forall₂ (fun one other => one.1 = other.1 ∧ SameState one.2 other.2)
          (replays (fun _ => true) callsEnded s') (replays (fun _ => true) callsEnded t') := by
  intro c s
  exact ⟨by decide +kernel, by decide +kernel, restore_erases_past c (by decide +kernel)
    (by decide +kernel) (fun _ => true) callsEnded⟩

end Session
end Retrace
