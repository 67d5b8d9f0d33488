import Retrace.Proofs.Replay.Calls
import Retrace.Proofs.Replay.Restoring
import Retrace.Proofs.Sandbox.Lifetimes

/-!
# Events that fail

An event goes through several steps: its context is entered, its values are read through the tags,
the engine does something, and what comes of it is tagged or kept. Any of them may fail but the
last. So all that an event can leave behind that fails is the context it was to happen in: reading
changes nothing, and an engine that refuses a request is where it was before, if its requests are
atomic (`act_failed`). Those of a sandbox are, and so is everything else that it can be told
(`Sandbox.Instruction.fault?`).

Calls are not among these events. Their ends pop a frame and run the function before they compare
what came of it, and by then there is no way back.
-/

namespace Retrace

/-! ## Instructions that a sandbox does not follow -/

namespace Sandbox

/-- The fault that an operation ended in. -/
def faultOf? {α : Type} : EStateM.Result Fault Sandbox α → Option Fault
  | .ok .. => none
  | .error fault _ => some fault

/-- The fault that an instruction meets. What a call throws is no fault, and neither is it one to
    ask for what was never captured. -/
def Instruction.fault? (s : Sandbox) : Instruction → Option Fault
  | .enter context => faultOf? (Sandbox.enter context s)
  | .perform request => faultOf? (Sandbox.perform request s)
  | .createTypedArray length => faultOf? (Sandbox.createTypedArray length s)
  | .call .. | .construct .. | .capture | .restore _ => none

theorem enter_atomic (context : Context) : Atomic (enter context) := by
  intro s fault s' failed
  rw [enter_run] at failed
  split at failed
  · exact absurd failed (by simp)
  · exact (EStateM.Result.error.inj failed).2.symm

theorem Atomic.after {α : Type} {m : SandboxM α} (atomic : Atomic m) {s : Sandbox} {fault : Fault}
    (refused : faultOf? (m s) = some fault) : Sandbox.after (m s) = s := by
  cases ran : m s with
  | ok a t => rw [ran] at refused; exact absurd refused (by simp [faultOf?])
  | error fault' t => exact atomic s fault' t ran

/-- A sandbox that meets a fault is as if it had been told nothing. -/
theorem Life.follow_fault {life : Life} {instruction : Instruction} {fault : Fault}
    (refused : instruction.fault? life.sandbox = some fault) : life.follow instruction = life := by
  cases instruction with
  | enter context =>
    exact congrArg (Life.mk · life.captured) ((enter_atomic context).after refused)
  | perform request =>
    exact congrArg (Life.mk · life.captured) ((perform_atomic request).after refused)
  | createTypedArray length =>
    exact congrArg (Life.mk · life.captured) ((createTypedArray_atomic length).after refused)
  | call | construct | capture | restore => exact absurd refused (by simp [Instruction.fault?])

end Sandbox

namespace Session

/-! ## Behind the context -/

section Engine

variable {ρ η σ : Type} [DecidableEq η] [Engine ρ η σ]

/-- **Once its context is entered, an event that fails has changed nothing**, if it neither begins
    nor ends a call and the engine takes back the requests that it refuses. -/
theorem act_failed {position : Nat} {e : Event} {s s' : Session ρ η σ} {err : ReplayError}
    (atomic : ∀ (request : Request η) (engine engine' : ρ) (fault : Fault),
      Engine.perform request engine = .error fault engine' → engine' = engine)
    (noBegin : e.callBegin? = none) (noEnd : e.callEnd? = none)
    (failed : act position e s = .error err s') : s' = s := by
  unfold act at failed
  cases asked : e.action.request? s.tags with
  | some reading =>
    rw [asked] at failed
    cases reading with
    | error error => exact (EStateM.Result.error.inj failed).2.symm
    | ok request =>
      dsimp only at failed
      rw [answer_run] at failed
      cases ran : Engine.perform request s.engine with
      | ok result engine => rw [ran] at failed; exact absurd failed (by simp)
      | error fault engine =>
        rw [ran] at failed
        obtain ⟨-, rfl⟩ := EStateM.Result.error.inj failed
        rw [atomic request s.engine engine fault ran]
  | none =>
    rw [asked] at failed
    cases action : e.action with
    | callBegin call => exact absurd (Event.callBegin?_eq_some.2 action) (by simp [noBegin])
    | callEnd call => exact absurd (Event.callEnd?_eq_some.2 action) (by simp [noEnd])
    | constructCall function args =>
      -- a construction fails before it is made: what it throws is kept, and no failure
      simp only [action, construct_run] at failed
      cases read : s.tags.callOf function args with
      | error e => rw [read] at failed; exact (EStateM.Result.error.inj failed).2.symm
      | ok call => rw [read] at failed; exact absurd failed (by simp)
    | getAndClearException =>
      simp only [action, takeException_run] at failed
      exact absurd failed (by simp)
    | callbackOp op =>
      simp only [action, applyCallback_run] at failed
      exact absurd failed (by simp)
    | _ => rw [action] at failed; exact absurd failed (by simp)

end Engine

/-! ## Sandboxes -/

/-- The session in another context, with all else as it is. -/
def inContext (context : Context) (s : SandboxSession) : SandboxSession :=
  { s with engine := { s.engine with current := some context }, context := some context }

theorem enter_failed {time : Time} {context : Context} {s s' : SandboxSession} {err : ReplayError}
    (failed : enter time context s = .error err s') : s' = s := by
  rw [enter_run] at failed
  split at failed
  · exact absurd failed (by simp)
  · cases ran : (Engine.enter context s.engine : EStateM.Result Fault Sandbox Unit) with
    | ok u engine => rw [ran] at failed; exact absurd failed (by simp)
    | error fault engine =>
      rw [ran] at failed
      obtain ⟨-, rfl⟩ := EStateM.Result.error.inj failed
      rw [Sandbox.enter_atomic context s.engine fault engine ran]

theorem entered_inv {time : Time} {context : Context} {s s' : SandboxSession}
    (entered : enter time context s = .ok () s') : s' = s ∨ s' = s.inContext context := by
  rw [enter_run] at entered
  split at entered
  · exact Or.inl (EStateM.Result.ok.inj entered).2.symm
  · right
    have run : (Engine.enter context s.engine : EStateM.Result Fault Sandbox Unit) = _ :=
      Sandbox.enter_run context s.engine
    rw [run] at entered
    split at entered
    · rename_i engine entering
      split at entering
      · obtain ⟨-, rfl⟩ := EStateM.Result.ok.inj entering
        exact (EStateM.Result.ok.inj entered).2.symm
      · exact absurd entering (by simp)
    · exact absurd entered (by simp)

/-- An event that fails has either changed nothing or entered its context, and nothing else. -/
theorem execute_failed {position : Nat} {e : Event} {s s' : SandboxSession} {err : ReplayError}
    (noBegin : e.callBegin? = none) (noEnd : e.callEnd? = none)
    (failed : execute position e s = .error err s') : s' = s ∨ s' = s.inContext e.context := by
  rw [execute_run] at failed
  cases entered : enter e.time e.context s with
  | error err' t =>
    rw [entered] at failed
    obtain ⟨-, rfl⟩ := EStateM.Result.error.inj failed
    exact Or.inl (enter_failed entered)
  | ok u t =>
    rw [entered] at failed
    have unchanged : s' = t :=
      act_failed (fun request engine engine' fault ran =>
        Sandbox.perform_atomic request engine fault engine' ran) noBegin noEnd failed
    rw [unchanged]
    exact entered_inv entered

/-- The sessions are the same but for the context that is current, in the sandbox and in what is
    known of it. -/
structure SameButContext (s t : SandboxSession) : Prop where
  heap : t.engine.heap = s.engine.heap
  calls : t.engine.calls = s.engine.calls
  lastStatement : t.engine.lastStatement = s.engine.lastStatement
  contexts : t.engine.contexts = s.engine.contexts
  tags : t.tags = s.tags
  callbacks : t.callbacks = s.callbacks
  stack : t.stack = s.stack
  pending : t.pending = s.pending
  settings : t.settings = s.settings
  notes : t.notes = s.notes

theorem inContext_same (context : Context) (s : SandboxSession) :
    s.SameButContext (s.inContext context) :=
  ⟨rfl, rfl, rfl, rfl, rfl, rfl, rfl, rfl, rfl, rfl⟩

/-- **An event that fails changes nothing but the current context**, in whatever session of a
    sandbox it is replayed, and whatever it says, as long as it neither begins nor ends a call. The
    context is then that of the event, or still the one before. And whatever a sandbox is told by
    itself, if it meets a fault it is left as it was. -/
theorem failures_move_the_context_only :
    (∀ (position : Nat) (e : Event) (s s' : SandboxSession) (err : ReplayError),
      e.callBegin? = none → e.callEnd? = none → execute position e s = .error err s' →
        s.SameButContext s' ∧ (s' = s ∨ s' = s.inContext e.context)) ∧
    ∀ (life : Sandbox.Life) (instruction : Sandbox.Instruction) (fault : Fault),
      instruction.fault? life.sandbox = some fault → life.follow instruction = life := by
  refine ⟨fun position e s s' err noBegin noEnd failed => ?_,
    fun life instruction fault => Sandbox.Life.follow_fault⟩
  have left := execute_failed noBegin noEnd failed
  refine ⟨?_, left⟩
  rcases left with rfl | rfl
  · exact ⟨rfl, rfl, rfl, rfl, rfl, rfl, rfl, rfl, rfl, rfl⟩
  · exact inContext_same e.context s

/-- A session that made an array, in its first context. -/
def arrayMade : SandboxSession := untouched.behind [(0, ⟨⟨1⟩, ⟨0⟩, .allocateArray 3⟩)]

/-- An element far beyond the array is set, from another context. -/
def elementBeyond : Event := ⟨⟨2⟩, ⟨1⟩, .setIndex (.ref ⟨1⟩) (.u32 2000000) .null⟩

/-- A sandbox with two objects, of which the first is the second's prototype. -/
def prototypeMade : Sandbox.Life :=
  Sandbox.life none [.perform (.createObject true), .perform (.createObject true),
    .perform (.setPrototype ⟨1⟩ (.ref ⟨0⟩))]

/-- The second is to be the first's prototype, too. -/
def prototypeBack : Sandbox.Instruction := .perform (.setPrototype ⟨0⟩ (.ref ⟨1⟩))

/-- The element is refused when its context has been entered already, and the array stays as it is.
    So do the two objects, for which one prototype is refused. -/
theorem elementBeyond_moves_context :
    (∃ err s', execute 1 elementBeyond arrayMade = .error err s' ∧ s' ≠ arrayMade ∧
      arrayMade.SameButContext s' ∧ (s' = arrayMade ∨ s' = arrayMade.inContext ⟨1⟩)) ∧
    ∃ fault, prototypeBack.fault? prototypeMade.sandbox = some fault ∧
      prototypeMade.follow prototypeBack = prototypeMade := by
  have refused : execute 1 elementBeyond arrayMade =
      .error (.executionFailure ⟨2⟩ .setIndex ⟨"index 2000000 exceeds 1048576"⟩)
        (arrayMade.inContext ⟨1⟩) := by rfl
  have circle : prototypeBack.fault? prototypeMade.sandbox =
      some ⟨"prototype cycle through #0"⟩ := by decide +kernel
  exact ⟨⟨_, _, refused, by decide +kernel,
      failures_move_the_context_only.1 1 elementBeyond arrayMade _ _ rfl rfl refused⟩,
    _, circle, failures_move_the_context_only.2 _ _ _ circle⟩

end Session
end Retrace
