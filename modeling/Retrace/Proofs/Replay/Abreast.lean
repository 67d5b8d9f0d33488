import Retrace.Proofs.Replay.Execution
import Retrace.Proofs.Sandbox.Contexts

/-!
# Sessions that stand abreast

Two sessions over sandboxes stand `Abreast` if nothing that a log can do will tell them apart. They
may differ in much: in the context that is current or known to be, in the matched ends of calls, in
what is known about the events of the log, in whether checkpoints are taken and restored. None of
this decides what an event does. `execute_abreast` is the theorem: an event ends alike in both, with
the same error if it fails, and leaves them abreast.

The relation fixes two things beside. The contexts that the sandboxes know never change, and so
every context that was entered once can be entered again. And replaying an event sets no checkpoint,
whether it succeeds or fails; checkpoints are a matter of going through the log.
-/

namespace Retrace

/-- A session that replays on a sandbox. -/
abbrev SandboxSession := Session Sandbox ObjectRef SandboxSnapshot

/-- Checkpoints of sandboxes, by the positions of their calls. -/
abbrev SandboxCheckpoints := OrderedMap Nat (Checkpoint ObjectRef SandboxSnapshot)

namespace Session

/-- The sessions cannot be told apart by replaying. The second one holds the checkpoints `known`. -/
structure Abreast (contexts : Option (List Context)) (known : SandboxCheckpoints)
    (s t : SandboxSession) : Prop where
  engine : Sandbox.Alike contexts s.engine t.engine
  tags : s.tags = t.tags
  frames : s.stack.frames = t.stack.frames
  root : s.stack.root = t.stack.root
  rootCallback : s.stack.rootCallback = t.stack.rootCallback
  callbacks : s.callbacks = t.callbacks
  pending : s.pending = t.pending
  maxDepth : s.settings.maxDepth = t.settings.maxDepth
  verify : s.settings.verifyExceptions = t.settings.verifyExceptions
  left : ∀ context, s.context = some context → Sandbox.enterable contexts context = true
  right : ∀ context, t.context = some context → Sandbox.enterable contexts context = true
  checkpoints : t.notes.checkpoints = known

section Steps

variable {contexts : Option (List Context)} {known : SandboxCheckpoints} {s t : SandboxSession}

/-- How two sessions come out of a step that they took from abreast. -/
abbrev Together (contexts : Option (List Context)) (known : SandboxCheckpoints) :
    EStateM.Result ReplayError SandboxSession Unit →
      EStateM.Result ReplayError SandboxSession Unit → Prop :=
  Matched (Abreast contexts known) Eq Eq

theorem Abreast.withEngine (h : Abreast contexts known s t) {engine engine' : Sandbox}
    (alike : Sandbox.Alike contexts engine engine') :
    Abreast contexts known { s with engine } { t with engine := engine' } :=
  { h with engine := alike }

theorem Abreast.withTags (h : Abreast contexts known s t) (tags : TagTable ObjectRef) :
    Abreast contexts known { s with tags } { t with tags } :=
  { h with tags := rfl }

theorem Abreast.depth (h : Abreast contexts known s t) : s.stack.depth = t.stack.depth := by
  unfold CallStack.depth
  rw [h.frames]

theorem settled_abreast (h : Abreast contexts known s t) (outcome : Outcome ObjectRef) :
    Abreast contexts known (s.settled outcome) (t.settled outcome) := by
  cases outcome with
  | ok value =>
    show Abreast contexts known { s with tags := s.tags.trackValue value }
      { t with tags := t.tags.trackValue value }
    rw [h.tags]
    exact h.withTags _
  | error thrown => exact { h with pending := rfl }

theorem kept_abreast (h : Abreast contexts known s t) (request : Request ObjectRef)
    (result : Value ObjectRef) :
    Abreast contexts known (s.kept request result) (t.kept request result) := by
  unfold kept
  split
  · rw [h.tags]
    exact h.withTags _
  · exact h

/-- A context that one session need not enter any more can be entered in the other. -/
theorem enter_abreast (h : Abreast contexts known s t) (time : Time) (context : Context) :
    Together contexts known (enter time context s) (enter time context t) := by
  have open_ (u : SandboxSession) (here : u.engine.contexts = contexts)
      (may : Sandbox.enterable contexts context = true) :
      Engine.enter context u.engine = .ok () { u.engine with current := some context } := by
    show Sandbox.enter context u.engine = _
    rw [Sandbox.enter_run, if_pos (here ▸ may)]
  rw [enter_run, enter_run]
  -- that one session is in the context tells that the other may enter it
  by_cases hs : s.context = some context
  · by_cases ht : t.context = some context
    · rw [if_pos hs, if_pos ht]
      exact ⟨rfl, h⟩
    · have may := h.left context hs
      rw [if_pos hs, if_neg ht, open_ t h.engine.right may]
      refine ⟨rfl, { h with engine := ⟨h.engine.snapshot, h.engine.left, h.engine.right⟩, right := ?_ }⟩
      intro c hc
      exact Option.some.inj hc ▸ may
  · by_cases ht : t.context = some context
    · have may := h.right context ht
      rw [if_neg hs, if_pos ht, open_ s h.engine.left may]
      refine ⟨rfl, { h with engine := ⟨h.engine.snapshot, h.engine.left, h.engine.right⟩, left := ?_ }⟩
      intro c hc
      exact Option.some.inj hc ▸ may
    · rw [if_neg hs, if_neg ht]
      have alike : Matched (Sandbox.Alike contexts)
          (fun _ _ => Sandbox.enterable contexts context = true) Eq
          (Engine.enter context s.engine) (Engine.enter context t.engine) :=
        Sandbox.enter_alike h.engine context
      rcases alike.cases with
        ⟨_, engine, _, engine', hs, ht, may, alike⟩ | ⟨_, engine, _, engine', hs, ht, rfl, alike⟩
      · rw [hs, ht]
        exact ⟨rfl, { h with
          engine := alike
          left := fun c hc => Option.some.inj hc ▸ may
          right := fun c hc => Option.some.inj hc ▸ may }⟩
      · rw [hs, ht]
        exact ⟨rfl, h.withEngine alike⟩

theorem answer_abreast (h : Abreast contexts known s t) (time : Time)
    (request : Request ObjectRef) :
    Together contexts known (answer time request s) (answer time request t) := by
  have alike : Matched (Sandbox.Alike contexts) Eq Eq (Engine.perform request s.engine)
      (Engine.perform request t.engine) := (Sandbox.perform_blind request).run h.engine
  rw [answer_run, answer_run]
  rcases alike.cases with
    ⟨result, _, _, _, hs, ht, rfl, alike⟩ | ⟨_, _, _, _, hs, ht, rfl, alike⟩
  · rw [hs, ht]
    exact ⟨rfl, kept_abreast (h.withEngine alike) request result⟩
  · rw [hs, ht]
    exact ⟨rfl, h.withEngine alike⟩

theorem takeException_abreast (h : Abreast contexts known s t) :
    Together contexts known (takeException s) (takeException t) := by
  rw [takeException_run, takeException_run, h.pending, h.tags]
  refine ⟨rfl, ?_⟩
  cases t.pending with
  | none => exact h
  | some thrown => exact { h with pending := rfl, tags := rfl }

theorem construct_abreast (h : Abreast contexts known s t) (time : Time) (function : Tag)
    (args : List Recorded) :
    Together contexts known (construct time function args s) (construct time function args t) := by
  have same : s.tags.callOf function args = t.tags.callOf function args := by rw [h.tags]
  rw [construct_run, construct_run, same]
  cases t.tags.callOf function args with
  | error e => exact ⟨rfl, h⟩
  | ok call =>
    have made : (Engine.construct call.1 call.2 s.engine).1 =
        (Engine.construct call.1 call.2 t.engine).1 ∧ Sandbox.Alike contexts
          (Engine.construct call.1 call.2 s.engine).2 (Engine.construct call.1 call.2 t.engine).2 :=
      Sandbox.construct_alike h.engine call.1 call.2
    refine ⟨rfl, ?_⟩
    show Abreast contexts known (settled (Engine.construct call.1 call.2 s.engine).1 _)
      (settled (Engine.construct call.1 call.2 t.engine).1 _)
    rw [made.1]
    exact settled_abreast (h.withEngine made.2) _

theorem applyCallback_abreast (h : Abreast contexts known s t) (position position' : Nat)
    (time : Time) (op : CallbackOp) :
    Together contexts known (applyCallback position time op s)
      (applyCallback position' time op t) := by
  rw [applyCallback_run, applyCallback_run, h.callbacks]
  exact ⟨rfl, { h with callbacks := rfl, checkpoints := h.checkpoints }⟩

theorem rooted_abreast (h : Abreast contexts known s t) (time : Time) (call : CallBegin) :
    Abreast contexts known (s.rooted time call) (t.rooted time call) := by
  unfold rooted
  split
  · rw [h.callbacks]
    exact { h with frames := rfl, root := rfl, rootCallback := rfl, callbacks := rfl }
  · exact h

theorem beginCall_abreast (h : Abreast contexts known s t) (time : Time) (call : CallBegin) :
    Together contexts known (beginCall time call s) (beginCall time call t) := by
  have begun := rooted_abreast h time call
  rw [beginCall_run, beginCall_run, h.depth, h.maxDepth, h.tags]
  split
  · exact ⟨rfl, h⟩
  split
  · exact ⟨rfl, h⟩
  cases t.tags.callOf call.function call.args with
  | error e => exact ⟨rfl, begun⟩
  | ok made =>
    refine ⟨rfl, { begun with frames := ?_, root := begun.root, rootCallback := begun.rootCallback }⟩
    exact congrArg (List.cons _) begun.frames

theorem noted_abreast (h : Abreast contexts known s t) (position position' : Nat)
    (call : CallEnd) :
    Abreast contexts known (s.noted position call) (t.noted position' call) := by
  have same : Engine.lastStatement? s.engine = Engine.lastStatement? t.engine :=
    h.engine.lastStatement
  unfold noted
  rw [same]
  split
  · split
    · exact { h with checkpoints := h.checkpoints }
    · exact h
  · exact h

theorem called_abreast (h : Abreast contexts known s t) (position position' : Nat)
    (call : CallEnd) (frame : Frame ObjectRef) :
    threw (Engine.call frame.callee frame.args s.engine).1 =
        threw (Engine.call frame.callee frame.args t.engine).1 ∧
      Abreast contexts known (s.called position call frame) (t.called position' call frame) := by
  have made : (Engine.call frame.callee frame.args s.engine).1 =
      (Engine.call frame.callee frame.args t.engine).1 ∧ Sandbox.Alike contexts
        (Engine.call frame.callee frame.args s.engine).2
        (Engine.call frame.callee frame.args t.engine).2 :=
    Sandbox.call_alike h.engine frame.callee frame.args
  refine ⟨congrArg threw made.1, noted_abreast ?_ position position' call⟩
  show Abreast contexts known (settled (Engine.call frame.callee frame.args s.engine).1 _)
    (settled (Engine.call frame.callee frame.args t.engine).1 _)
  rw [made.1]
  exact settled_abreast (h.withEngine made.2) _

theorem popCall_abreast (h : Abreast contexts known s t) (time : Time) (call : CallEnd) :
    Matched (Abreast contexts known) Eq Eq (popCall time call s) (popCall time call t) := by
  rw [popCall_run, popCall_run, h.frames]
  cases t.stack.frames with
  | nil => exact ⟨rfl, h⟩
  | cons frame frames =>
    dsimp only
    split
    · exact ⟨rfl, h⟩
    split
    · exact ⟨rfl, { h with frames := rfl }⟩
    · exact ⟨rfl, { h with frames := rfl }⟩

theorem endCall_abreast (h : Abreast contexts known s t) (position position' : Nat) (time : Time)
    (call : CallEnd) :
    Together contexts known (endCall position time call s) (endCall position' time call t) := by
  have popped := popCall_abreast h time call
  rw [endCall_run, endCall_run]
  rcases popped.cases with ⟨frame, _, _, _, hs, ht, rfl, popped⟩ | ⟨_, _, _, _, hs, ht, failed⟩
  · obtain ⟨raised, called⟩ := called_abreast popped position position' call frame
    rw [hs, ht]
    dsimp only
    rw [raised, popped.verify]
    split
    · exact ⟨rfl, called⟩
    split
    · exact ⟨rfl, called⟩
    · exact ⟨rfl, called⟩
  · rw [hs, ht]
    exact failed

/-! ## Events -/

theorem act_abreast (h : Abreast contexts known s t) (position position' : Nat) (e : Event) :
    Together contexts known (act position e s) (act position' e t) := by
  unfold act
  rw [h.tags]
  cases e.action.request? t.tags with
  | some r =>
    cases r with
    | ok request => exact answer_abreast h e.time request
    | error error => exact ⟨rfl, h⟩
  | none =>
    cases e.action with
    | getAndClearException => exact takeException_abreast h
    | constructCall function args => exact construct_abreast h e.time function args
    | callbackOp op => exact applyCallback_abreast h position position' e.time op
    | callBegin call => exact beginCall_abreast h e.time call
    | callEnd call => exact endCall_abreast h position position' e.time call
    | _ => exact ⟨rfl, h⟩

/-- **An event ends alike in sessions that stand abreast, and leaves them abreast.** -/
theorem execute_abreast (h : Abreast contexts known s t) (position position' : Nat) (e : Event) :
    Together contexts known (execute position e s) (execute position' e t) := by
  have entered := enter_abreast h e.time e.context
  rw [execute_run, execute_run]
  rcases entered.cases with ⟨_, _, _, _, hs, ht, -, entered⟩ | ⟨_, _, _, _, hs, ht, failed⟩
  · rw [hs, ht]
    exact act_abreast entered position position' e
  · rw [hs, ht]
    exact failed

end Steps
end Session
end Retrace
