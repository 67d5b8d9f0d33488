import Retrace.Proofs.Renaming.Tables
import Retrace.Replay.Session

/-!
# Engines that do the same under other handles

A `Renaming` takes the states of one engine to those of another one, and the handles to other
handles, in such a way that whatever is asked of both ends alike. How much the faults that they
report may differ is a parameter: an engine may print handles.

Then two sessions that differ in this way replay an event alike, and still differ in this way
afterwards (`execute_renamed`). A session keeps handles in many places: in its tags, in the frames
of the open calls, in what was thrown, in its checkpoints. `Session.rename` is the list of them.
-/

namespace Retrace

/-! ## What holds handles -/

section Handles

variable {η κ σ τ : Type}

def Thrown.rename (f : η → κ) (thrown : Thrown η) : Thrown κ :=
  ⟨thrown.value.mapRef f, thrown.terminating⟩

/-- The outcome of a call with other handles. -/
def renamedOutcome (f : η → κ) : Outcome η → Outcome κ
  | .ok value => .ok (value.mapRef f)
  | .error thrown => .error (thrown.rename f)

def Frame.rename (f : η → κ) (frame : Frame η) : Frame κ :=
  { begun := frame.begun
    depth := frame.depth
    function := frame.function
    callback := frame.callback
    callee := f frame.callee
    args := frame.args.map (Value.mapRef f) }

def CallStack.rename (f : η → κ) (s : CallStack η) : CallStack κ :=
  ⟨s.frames.map (Frame.rename f), s.ends, s.root, s.rootCallback⟩

def Checkpoint.rename (f : η → κ) (g : σ → τ) (c : Checkpoint η σ) : Checkpoint κ τ :=
  { snapshot := g c.snapshot
    tags := c.tags.rename f
    callbacks := c.callbacks
    pending := c.pending.map (Thrown.rename f)
    resumeAfter := c.resumeAfter }

def Notes.rename (f : η → κ) (g : σ → τ) (notes : Notes η σ) : Notes κ τ :=
  ⟨notes.checkpoints.mapValues (Checkpoint.rename f g), notes.statements, notes.places⟩

@[simp] theorem renamedOutcome_id (outcome : Outcome η) : renamedOutcome id outcome = outcome := by
  cases outcome <;> simp [renamedOutcome, Thrown.rename]

@[simp] theorem threw_renamedOutcome (f : η → κ) (outcome : Outcome η) :
    threw (renamedOutcome f outcome) = threw outcome := by
  cases outcome <;> rfl

@[simp] theorem CallStack.depth_rename (f : η → κ) (s : CallStack η) :
    (s.rename f).depth = s.depth := by
  simp [CallStack.rename, CallStack.depth]

@[simp] theorem CallStack.isEmpty_rename (f : η → κ) (s : CallStack η) :
    (s.rename f).isEmpty = s.isEmpty := by
  simp [CallStack.rename, CallStack.isEmpty]

theorem CallStack.outermost?_rename (f : η → κ) (s : CallStack η) :
    (s.rename f).outermost? = s.outermost?.map (Frame.rename f) := by
  simp [CallStack.rename, CallStack.outermost?]

theorem Notes.once_mapValues {α β : Type} (f : α → β) (known : OrderedMap Nat α) (position : Nat)
    (a : α) : once (known.mapValues f) position (f a) = (once known position a).mapValues f := by
  unfold once
  rw [OrderedMap.contains_mapValues, OrderedMap.insert_mapValues]
  split <;> rfl

end Handles

/-- Two errors are the same but for the fault that they report. -/
inductive ReplayError.Like (fault : Fault → Fault → Prop) : ReplayError → ReplayError → Prop
  | same (e : ReplayError) : Like fault e e
  | unknownContext (time : Time) (context : Context) {f g : Fault} (h : fault f g) :
      Like fault (.unknownContext time context f) (.unknownContext time context g)
  | executionFailure (time : Time) (kind : Kind) {f g : Fault} (h : fault f g) :
      Like fault (.executionFailure time kind f) (.executionFailure time kind g)

/-- One engine does what another one does, under other handles. -/
structure Renaming (ρ η σ ρ' η' σ' : Type) [Engine ρ η σ] [Engine ρ' η' σ'] where
  handle : η → η'
  state : ρ → ρ'
  snapshot : σ → σ'
  /-- How the faults compare that both report. -/
  fault : Fault → Fault → Prop
  injective : Function.Injective handle
  enter : ∀ context s, Matched (fun s t => t = state s) Eq fault (Engine.enter context s)
    (Engine.enter context (state s))
  perform : ∀ request s, Matched (fun s t => t = state s) (fun v w => w = v.mapRef handle) fault
    (Engine.perform request s) (Engine.perform (request.rename handle) (state s))
  construct : ∀ function args s,
    Engine.construct (handle function) (args.map (Value.mapRef handle)) (state s) =
      (renamedOutcome handle (Engine.construct function args s).1,
        state (Engine.construct function args s).2)
  call : ∀ function args s,
    Engine.call (handle function) (args.map (Value.mapRef handle)) (state s) =
      (renamedOutcome handle (Engine.call function args s).1,
        state (Engine.call function args s).2)
  lastStatement : ∀ s, Engine.lastStatement? (state s) = Engine.lastStatement? s
  capture : ∀ s, Engine.capture? (state s) = (Engine.capture? s).map snapshot
  restore : ∀ c s, Matched (fun s t => t = state s) Eq fault (Engine.restore c s)
    (Engine.restore (snapshot c) (state s))

namespace Session

variable {ρ η σ ρ' η' σ' : Type} [Engine ρ η σ] [Engine ρ' η' σ']

/-- The session over the other engine, with the other handles. -/
def rename (R : Renaming ρ η σ ρ' η' σ') (s : Session ρ η σ) : Session ρ' η' σ' :=
  { engine := R.state s.engine
    settings := s.settings
    tags := s.tags.rename R.handle
    stack := s.stack.rename R.handle
    callbacks := s.callbacks
    pending := s.pending.map (Thrown.rename R.handle)
    context := s.context
    notes := s.notes.rename R.handle R.snapshot }

/-- The runs of two sessions ended alike, in sessions of which the second is the first renamed. -/
abbrev Parallel {α β : Type} (R : Renaming ρ η σ ρ' η' σ') (Q : α → β → Prop) :
    EStateM.Result ReplayError (Session ρ η σ) α →
      EStateM.Result ReplayError (Session ρ' η' σ') β → Prop :=
  Matched (fun s t => t = s.rename R) Q (ReplayError.Like R.fault)

section Steps

variable (R : Renaming ρ η σ ρ' η' σ') (s : Session ρ η σ)

theorem parallel_error {α β : Type} {Q : α → β → Prop} (e : ReplayError) :
    Parallel R Q (.error e s) (.error e (s.rename R)) := ⟨.same e, rfl⟩

theorem enter_renamed (time : Time) (context : Context) :
    Parallel R Eq (enter time context s) (enter time context (s.rename R)) := by
  rw [enter_run, enter_run]
  show Parallel R Eq _ (if s.context = some context then _ else _)
  split
  · exact ⟨rfl, rfl⟩
  · rcases (R.enter context s.engine).cases with
      ⟨_, engine, _, _, hs, ht, -, rfl⟩ | ⟨f, engine, g, _, hs, ht, like, rfl⟩
    · have ht : Engine.enter context (s.rename R).engine = .ok () (R.state engine) := ht
      rw [hs, ht]
      exact ⟨rfl, rfl⟩
    · have ht : Engine.enter context (s.rename R).engine = .error g (R.state engine) := ht
      rw [hs, ht]
      exact ⟨.unknownContext time context like, rfl⟩

theorem applyCallback_renamed (position : Nat) (time : Time) (op : CallbackOp) :
    Parallel R Eq (applyCallback position time op s)
      (applyCallback position time op (s.rename R)) := by
  have same : Engine.lastStatement? (s.rename R).engine = Engine.lastStatement? s.engine :=
    R.lastStatement s.engine
  rw [applyCallback_run, applyCallback_run, same]
  exact ⟨rfl, rfl⟩

theorem noted_rename (position : Nat) (call : CallEnd) :
    (s.rename R).noted position call = (s.noted position call).rename R := by
  have same : Engine.lastStatement? (s.rename R).engine = Engine.lastStatement? s.engine :=
    R.lastStatement s.engine
  unfold noted
  rw [same]
  split
  · cases Engine.lastStatement? s.engine <;> rfl
  · rfl

theorem rooted_rename (time : Time) (call : CallBegin) :
    (s.rename R).rooted time call = (s.rooted time call).rename R := by
  unfold rooted
  split <;> rfl

theorem beginCall_renamed (time : Time) (call : CallBegin) :
    Parallel R Eq (beginCall time call s) (beginCall time call (s.rename R)) := by
  have depth : (s.rename R).stack.depth = s.stack.depth := CallStack.depth_rename R.handle s.stack
  have limit : (s.rename R).settings.maxDepth = s.settings.maxDepth := rfl
  have read : (s.rename R).tags.callOf call.function call.args = _ :=
    s.tags.callOf_rename R.handle call.function call.args
  rw [beginCall_run, beginCall_run, depth, limit, read, rooted_rename]
  split
  · exact parallel_error R s _
  split
  · exact parallel_error R s _
  cases s.tags.callOf call.function call.args with
  | error e => exact ⟨.same _, rfl⟩
  | ok made => exact ⟨rfl, rfl⟩

theorem popCall_renamed (time : Time) (call : CallEnd) :
    Parallel R (fun frame frame' => frame' = frame.rename R.handle) (popCall time call s)
      (popCall time call (s.rename R)) := by
  have frames : (s.rename R).stack.frames = s.stack.frames.map (Frame.rename R.handle) := rfl
  rw [popCall_run, popCall_run, frames]
  cases top : s.stack.frames with
  | nil => exact ⟨.same _, rfl⟩
  | cons frame frames =>
    show Parallel R _ (if _ then _ else if _ then _ else _)
      (if frame.begun ≠ call.begun ∨ time ≤ call.begun then _
        else if frame.depth ≠ call.depth then _ else _)
    split
    · exact ⟨.same _, rfl⟩
    split
    · exact ⟨.same _, rfl⟩
    · exact ⟨rfl, rfl⟩

variable [DecidableEq η] [DecidableEq η']

theorem settled_rename (outcome : Outcome η) :
    (s.rename R).settled (renamedOutcome R.handle outcome) = (s.settled outcome).rename R := by
  cases outcome with
  | ok value =>
    show { s.rename R with tags := (s.tags.rename R.handle).trackValue (value.mapRef R.handle) } = _
    rw [TagTable.trackValue_rename R.injective]
    rfl
  | error thrown => rfl

theorem kept_rename (request : Request η) (result : Value η) :
    (s.rename R).kept (request.rename R.handle) (result.mapRef R.handle) =
      (s.kept request result).rename R := by
  unfold kept
  rw [tagsResult_rename]
  split
  · show { s.rename R with
      tags := (s.tags.rename R.handle).trackValue (result.mapRef R.handle) } = _
    rw [TagTable.trackValue_rename R.injective]
    rfl
  · rfl

theorem answer_renamed (time : Time) (request : Request η) :
    Parallel R Eq (answer time request s) (answer time (request.rename R.handle) (s.rename R)) := by
  rw [answer_run, answer_run, Request.kind_rename]
  rcases (R.perform request s.engine).cases with
    ⟨result, engine, _, _, hs, ht, rfl, rfl⟩ | ⟨f, engine, g, _, hs, ht, like, rfl⟩
  · have ht : Engine.perform (request.rename R.handle) (s.rename R).engine =
      .ok (result.mapRef R.handle) (R.state engine) := ht
    rw [hs, ht]
    exact ⟨rfl, kept_rename R { s with engine } request result⟩
  · have ht : Engine.perform (request.rename R.handle) (s.rename R).engine =
      .error g (R.state engine) := ht
    rw [hs, ht]
    exact ⟨.executionFailure time request.kind like, rfl⟩

theorem takeException_renamed :
    Parallel R Eq (takeException s) (takeException (s.rename R)) := by
  have pending : (s.rename R).pending = s.pending.map (Thrown.rename R.handle) := rfl
  rw [takeException_run, takeException_run, pending]
  refine ⟨rfl, ?_⟩
  cases s.pending with
  | none => rfl
  | some thrown =>
    show { s.rename R with
      pending := none
      tags := (s.tags.rename R.handle).trackValue (thrown.value.mapRef R.handle) } = _
    rw [TagTable.trackValue_rename R.injective]
    rfl

theorem construct_renamed (time : Time) (function : Tag) (args : List Recorded) :
    Parallel R Eq (construct time function args s) (construct time function args (s.rename R)) := by
  have read := s.tags.callOf_rename R.handle function args
  have read : (s.rename R).tags.callOf function args = _ := read
  rw [construct_run, construct_run, read]
  cases s.tags.callOf function args with
  | error e => exact ⟨.same _, rfl⟩
  | ok call =>
    have made : Engine.construct (R.handle call.1) (call.2.map (Value.mapRef R.handle))
        (s.rename R).engine = (renamedOutcome R.handle (Engine.construct call.1 call.2 s.engine).1,
          R.state (Engine.construct call.1 call.2 s.engine).2) := R.construct call.1 call.2 s.engine
    refine ⟨rfl, ?_⟩
    simp only [made]
    exact settled_rename R { s with engine := (Engine.construct call.1 call.2 s.engine).2 } _

theorem called_rename (position : Nat) (call : CallEnd) (frame : Frame η) :
    (s.rename R).called position call (frame.rename R.handle) =
      (s.called position call frame).rename R := by
  have made : Engine.call (frame.rename R.handle).callee (frame.rename R.handle).args
      (s.rename R).engine =
      (renamedOutcome R.handle (Engine.call frame.callee frame.args s.engine).1,
        R.state (Engine.call frame.callee frame.args s.engine).2) :=
    R.call frame.callee frame.args s.engine
  unfold called
  simp only [made]
  rw [← noted_rename, ← settled_rename]
  rfl

theorem endCall_renamed (position : Nat) (time : Time) (call : CallEnd) :
    Parallel R Eq (endCall position time call s) (endCall position time call (s.rename R)) := by
  rw [endCall_run, endCall_run]
  rcases (popCall_renamed R s time call).cases with
    ⟨frame, s', _, _, hs, ht, rfl, rfl⟩ | ⟨e, s', e', _, hs, ht, like, rfl⟩
  · have made : Engine.call (frame.rename R.handle).callee (frame.rename R.handle).args
        (s'.rename R).engine = _ := R.call frame.callee frame.args s'.engine
    have verify : (s'.rename R).settings.verifyExceptions = s'.settings.verifyExceptions := rfl
    rw [hs, ht]
    dsimp only
    rw [made, called_rename, threw_renamedOutcome, verify]
    split
    · exact ⟨.same _, rfl⟩
    split
    · exact ⟨.same _, rfl⟩
    · exact ⟨rfl, rfl⟩
  · rw [hs, ht]
    exact ⟨like, rfl⟩

/-! ## Events -/

theorem act_renamed (position : Nat) (e : Event) :
    Parallel R Eq (act position e s) (act position e (s.rename R)) := by
  have read : e.action.request? (s.rename R).tags = _ := e.action.request?_rename R.handle s.tags
  unfold act
  rw [read]
  cases e.action.request? s.tags with
  | some r =>
    cases r with
    | ok request => exact answer_renamed R s e.time request
    | error error => exact parallel_error R s _
  | none =>
    cases e.action with
    | getAndClearException => exact takeException_renamed R s
    | constructCall function args => exact construct_renamed R s e.time function args
    | callbackOp op => exact applyCallback_renamed R s position e.time op
    | callBegin call => exact beginCall_renamed R s e.time call
    | callEnd call => exact endCall_renamed R s position e.time call
    | _ => exact ⟨rfl, rfl⟩

/-- **An event ends alike under other handles.** -/
theorem execute_renamed (position : Nat) (e : Event) :
    Parallel R Eq (execute position e s) (execute position e (s.rename R)) := by
  rw [execute_run, execute_run]
  rcases (enter_renamed R s e.time e.context).cases with
    ⟨_, s', _, _, hs, ht, -, rfl⟩ | ⟨err, s', err', _, hs, ht, like, rfl⟩
  · rw [hs, ht]
    exact act_renamed R s' position e
  · rw [hs, ht]
    exact ⟨like, rfl⟩

end Steps
end Session
end Retrace
