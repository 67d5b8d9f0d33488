import Retrace.Proofs.Runs
import Retrace.Recorder
import Retrace.Sandbox.Basic

/-!
# Hosts

A `Host` is a program that works with a sandbox and reports all it does to a recorder. What it does
is a list of deeds (`Host.run`), each in a context that is entered first. A request is made, and
reported if it was answered. A call is reported to begin, other deeds may follow that belong to it,
and when it is to end, the function is called and its outcome reported. What a call or a
construction throws is pending until the host takes it.

An operation is carried out just as `Performed` says, which has a case for each way in which it can
go.
-/

namespace Retrace

/-- A call that a host has begun and not ended. -/
structure OpenCall where
  begun : Time
  function : ObjectRef
  args : List (Value ObjectRef)
deriving DecidableEq, Repr

/-- What a host can do. -/
inductive Operation where
  | ask (request : Request ObjectRef)
  /-- Takes what was thrown last, if it was not taken yet. -/
  | takeException
  | construct (function : ObjectRef) (args : List (Value ObjectRef))
  /-- The callback `current` schedules the callback `id`, or cancels it. -/
  | callback (cancels repeating : Bool) (current : CallbackId) (function : ObjectRef)
      (id : CallbackId)
  | beginCall (function : ObjectRef) (args : List (Value ObjectRef)) (callback : CallbackId)
      (wallTime : Double) (name : Option String)
  /-- Ends the innermost open call. -/
  | endCall (wallTime : Double)
deriving DecidableEq, Repr

structure Deed where
  context : Context
  operation : Operation
deriving DecidableEq, Repr

/-- Why a host could not go on. -/
inductive HostError where
  | unrecorded (error : RecordError)
  | noOpenCall
  | tooDeep
deriving DecidableEq, Repr

structure Host where
  sandbox : Sandbox
  recorder : Recorder ObjectRef
  /-- The open calls, innermost first. -/
  openCalls : List OpenCall
  /-- What was thrown last and has not been taken. -/
  thrown : Option (Value ObjectRef)
deriving DecidableEq, Repr

namespace Host

/-- A host that has done nothing yet. -/
def start (contexts : Option (List Context)) (keepsNames : Bool) : Host :=
  ⟨.fresh contexts, .start keepsNames, [], none⟩

/-- How many events the host has recorded. -/
def position (h : Host) : Nat := h.recorder.log.size

/-- What is pending after an outcome. -/
def pendingAfter (thrown : Option (Value ObjectRef)) : Outcome ObjectRef → Option (Value ObjectRef)
  | .ok _ => thrown
  | .error thrown => some thrown.value

/-- Reports something to the recorder. -/
def report (h : Host) (m : RecordM ObjectRef Time) : Except HostError (Time × Host) :=
  match m h.recorder with
  | .ok time recorder => .ok (time, { h with recorder })
  | .error e _ => .error (.unrecorded e)

/-- Does an operation in the context that is current. No more than `limit` calls are ever open. -/
def perform (limit : Nat) (context : Context) (h : Host) : Operation → Except HostError Host
  | .ask request =>
    match Sandbox.perform request h.sandbox with
    | .error _ sandbox => .ok { h with sandbox }
    | .ok result sandbox => do
      let (_, h) ← { h with sandbox }.report (Recorder.request context request result)
      return h
  | .takeException => do
    let (_, h) ← h.report (Recorder.takeException context (.ok h.thrown))
    return { h with thrown := none }
  | .construct function args => do
    let (outcome, sandbox) := Sandbox.construct function args h.sandbox
    let (_, h) ← { h with sandbox }.report (Recorder.construct context function args outcome)
    return { h with thrown := pendingAfter h.thrown outcome }
  | .callback cancels repeating current function id => do
    let (_, h) ← h.report (Recorder.callback context cancels repeating current function id)
    return h
  | .beginCall function args callback wallTime name => do
    if limit ≤ h.openCalls.length then throw .tooDeep
    let (begun, h) ← h.report (Recorder.beginCall context function args callback wallTime name)
    return { h with openCalls := ⟨begun, function, args⟩ :: h.openCalls }
  | .endCall wallTime =>
    match h.openCalls with
    | [] => throw .noOpenCall
    | call :: openCalls => do
      let (outcome, sandbox) := Sandbox.call call.function call.args h.sandbox
      let (_, h) ← { h with sandbox }.report (Recorder.endCall context call.begun outcome wallTime)
      return { h with openCalls, thrown := pendingAfter h.thrown outcome }

/-- Does something. In a context that cannot be entered nothing is done. -/
def step (limit : Nat) (h : Host) (deed : Deed) : Except HostError Host :=
  match Sandbox.enter deed.context h.sandbox with
  | .error _ _ => .ok h
  | .ok _ sandbox => { h with sandbox }.perform limit deed.context deed.operation

/-- Does one thing after the other. -/
def run (limit : Nat) (h : Host) (program : List Deed) : Except HostError Host :=
  program.foldlM (step limit) h

/-! ## What an operation does -/

/-- An operation was done in a context. Either it was a request that was not answered, or it was
    answered, and the recorder has taken the report of it. -/
inductive Performed (limit : Nat) (context : Context) (h : Host) : Operation → Host → Prop
  | unanswered (request : Request ObjectRef) {fault : Fault} {sandbox : Sandbox}
      (failed : Sandbox.perform request h.sandbox = .error fault sandbox) :
      Performed limit context h (.ask request) { h with sandbox }
  | ask (request : Request ObjectRef) {result : Value ObjectRef} {sandbox : Sandbox} {time : Time}
      {recorder : Recorder ObjectRef}
      (answered : Sandbox.perform request h.sandbox = .ok result sandbox)
      (recorded : Recorder.request context request result h.recorder = .ok time recorder) :
      Performed limit context h (.ask request) { h with sandbox, recorder }
  | takeException {time : Time} {recorder : Recorder ObjectRef}
      (recorded : Recorder.takeException context (.ok h.thrown) h.recorder = .ok time recorder) :
      Performed limit context h .takeException { h with recorder, thrown := none }
  | construct (function : ObjectRef) (args : List (Value ObjectRef)) {outcome : Outcome ObjectRef}
      {sandbox : Sandbox} {time : Time} {recorder : Recorder ObjectRef}
      (constructed : Sandbox.construct function args h.sandbox = (outcome, sandbox))
      (recorded : Recorder.construct context function args outcome h.recorder = .ok time recorder) :
      Performed limit context h (.construct function args)
        ⟨sandbox, recorder, h.openCalls, pendingAfter h.thrown outcome⟩
  | callback (cancels repeating : Bool) (current : CallbackId) (function : ObjectRef)
      (id : CallbackId) {time : Time} {recorder : Recorder ObjectRef}
      (recorded : Recorder.callback context cancels repeating current function id h.recorder =
        .ok time recorder) :
      Performed limit context h (.callback cancels repeating current function id)
        { h with recorder }
  | beginCall (function : ObjectRef) (args : List (Value ObjectRef)) (callback : CallbackId)
      (wallTime : Double) (name : Option String) {time : Time} {recorder : Recorder ObjectRef}
      (room : h.openCalls.length < limit)
      (recorded : Recorder.beginCall context function args callback wallTime name h.recorder =
        .ok time recorder) :
      Performed limit context h (.beginCall function args callback wallTime name)
        { h with recorder, openCalls := ⟨time, function, args⟩ :: h.openCalls }
  | endCall (wallTime : Double) {call : OpenCall} {openCalls : List OpenCall}
      {outcome : Outcome ObjectRef} {sandbox : Sandbox} {time : Time}
      {recorder : Recorder ObjectRef} (isOpen : h.openCalls = call :: openCalls)
      (called : Sandbox.call call.function call.args h.sandbox = (outcome, sandbox))
      (recorded : Recorder.endCall context call.begun outcome wallTime h.recorder =
        .ok time recorder) :
      Performed limit context h (.endCall wallTime)
        ⟨sandbox, recorder, openCalls, pendingAfter h.thrown outcome⟩

section Performed

variable {limit : Nat} {context : Context} {h h' : Host}

theorem report_run (h : Host) {m : RecordM ObjectRef Time} {time : Time}
    {recorder : Recorder ObjectRef} (recorded : m h.recorder = .ok time recorder) :
    h.report m = .ok (time, { h with recorder }) := by
  unfold report
  rw [recorded]

/-- What is done behind a report is done with a recorder that has taken it. -/
theorem report_of_bind {α : Type} {m : RecordM ObjectRef Time}
    {after : Time × Host → Except HostError α} {a : α} (done : h.report m >>= after = .ok a) :
    ∃ time recorder, m h.recorder = .ok time recorder ∧
      after (time, { h with recorder }) = .ok a := by
  obtain ⟨⟨time, host⟩, reported, rest⟩ := ok_of_bind_ok done
  unfold report at reported
  cases recorded : m h.recorder with
  | ok now recorder =>
    rw [recorded] at reported
    obtain ⟨rfl, rfl⟩ := Prod.mk.inj (Except.ok.inj reported)
    exact ⟨now, recorder, rfl, rest⟩
  | error err recorder =>
    rw [recorded] at reported
    exact absurd reported (by simp)

theorem performed_of_perform {operation : Operation}
    (done : h.perform limit context operation = .ok h') :
    Performed limit context h operation h' := by
  cases operation with
  | ask request =>
    simp only [perform] at done
    cases answered : Sandbox.perform request h.sandbox with
    | error fault sandbox =>
      rw [answered] at done
      obtain rfl := Except.ok.inj done
      exact .unanswered request answered
    | ok result sandbox =>
      rw [answered] at done
      obtain ⟨time, recorder, recorded, rest⟩ := report_of_bind done
      obtain rfl := ok_of_pure_ok rest
      exact .ask request answered recorded
  | takeException =>
    obtain ⟨time, recorder, recorded, rest⟩ := report_of_bind done
    obtain rfl := ok_of_pure_ok rest
    exact .takeException recorded
  | construct function args =>
    obtain ⟨time, recorder, recorded, rest⟩ := report_of_bind done
    obtain rfl := ok_of_pure_ok rest
    exact .construct function args rfl recorded
  | callback cancels repeating current function id =>
    obtain ⟨time, recorder, recorded, rest⟩ := report_of_bind done
    obtain rfl := ok_of_pure_ok rest
    exact .callback cancels repeating current function id recorded
  | beginCall function args callback wallTime name =>
    simp only [perform] at done
    by_cases full : limit ≤ h.openCalls.length
    · rw [if_pos full] at done
      exact absurd done (throw_ne_ok _ _)
    rw [if_neg full] at done
    obtain ⟨time, recorder, recorded, rest⟩ := report_of_bind done
    obtain rfl := ok_of_pure_ok rest
    exact .beginCall function args callback wallTime name (Nat.lt_of_not_le full) recorded
  | endCall wallTime =>
    simp only [perform] at done
    cases isOpen : h.openCalls with
    | nil =>
      rw [isOpen] at done
      exact absurd done (throw_ne_ok _ _)
    | cons call openCalls =>
      rw [isOpen] at done
      obtain ⟨time, recorder, recorded, rest⟩ := report_of_bind done
      obtain rfl := ok_of_pure_ok rest
      exact .endCall wallTime isOpen rfl recorded

theorem Performed.perform {operation : Operation}
    (performed : Performed limit context h operation h') :
    h.perform limit context operation = .ok h' := by
  cases performed with
  | unanswered request failed => simp only [Host.perform, failed]
  | @ask request _ sandbox _ _ answered recorded =>
    simp only [Host.perform, answered]
    exact bind_of_ok (report_run { h with sandbox } recorded)
  | takeException recorded => exact bind_of_ok (report_run h recorded)
  | @construct function args _ sandbox _ _ constructed recorded =>
    simp only [Host.perform, constructed]
    exact bind_of_ok (report_run { h with sandbox } recorded)
  | callback cancels repeating current function id recorded =>
    exact bind_of_ok (report_run h recorded)
  | beginCall function args callback wallTime name room recorded =>
    simp only [Host.perform, if_neg (Nat.not_le_of_lt room)]
    exact bind_of_ok (report_run h recorded)
  | @endCall wallTime call openCalls _ sandbox _ _ isOpen called recorded =>
    simp only [Host.perform, isOpen, called]
    exact bind_of_ok (report_run ⟨sandbox, h.recorder, call :: openCalls, h.thrown⟩ recorded)

end Performed

section Run

variable {limit : Nat} {h h' : Host}

theorem run_cons {deed : Deed} {program : List Deed} (ran : run limit h (deed :: program) = .ok h') :
    ∃ next, step limit h deed = .ok next ∧ run limit next program = .ok h' :=
  foldlM_cons_ok ran

theorem run_append {done rest : List Deed} {mid : Host} (first : run limit h done = .ok mid) :
    run limit h (done ++ rest) = run limit mid rest :=
  foldlM_append_ok first

end Run

end Host
end Retrace
