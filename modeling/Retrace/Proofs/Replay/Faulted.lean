import Retrace.Proofs.Replay.Ending
import Retrace.Sandbox.Basic

/-!
# After a fault

An error that ends a replay leaves the playback faulted, and a faulted playback is meant to refuse
whatever it is asked for. One request looks at the log before it looks at the playback: to run up to
a time that lies before the next event is to do nothing, and that is granted, faulted or not.
`Playback.refusal` is what a faulted playback answers, with this one exception.

Nothing else about a fault is lost or undone: the playback keeps its place, its last time and its
session, whatever is asked of it and in whatever order (`Playback.refuses_after_fault`).
-/

namespace Retrace

namespace Playback

variable {ρ η σ : Type}

/-- Whether the next event lies beyond a time. -/
def beyondTarget (p : Playback ρ η σ) (target : Time) : Bool :=
  p.next?.any fun e => target < e.time

/-- What a faulted playback answers. -/
def refusal (p : Playback ρ η σ) : Demand → Answer
  | .step | .stepToward _ | .run => .error .faulted
  | .runUntil target => if p.beyondTarget target then .ok none else .error .faulted
  | .stop | .goOn => .ok none

/-- A playback is faulted once one of the errors has ended the replay. -/
def FaultedBy (errs : List ReplayError) (p : Playback ρ η σ) : Prop :=
  ∀ err ∈ errs, err.isTerminal = true → p.phase = .faulted

/-- To fail with an error that ends the replay is to leave a faulted playback. -/
theorem FaultedBy.failed {errs : List ReplayError} {p q : Playback ρ η σ} {err : ReplayError}
    (h : FaultedBy errs p) (stays : p.phase = .faulted → q.phase = .faulted)
    (faults : err.isTerminal = true → q.phase = .faulted) : FaultedBy (errs ++ [err]) q := by
  intro err' mem terminal
  rcases List.mem_append.1 mem with before | last
  · exact stays (h err' before terminal)
  · obtain rfl := List.mem_singleton.1 last
    exact faults terminal

variable [Engine ρ η σ] [DecidableEq η]

theorem FaultedBy.advance (target : Option Time) (errs : List ReplayError) (p : Playback ρ η σ)
    (h : FaultedBy errs p) : Holds FaultedBy errs (Playback.advance target p) := by
  by_cases fault : p.phase = .faulted
  · rw [advance_faulted fault]
    exact h.failed id fun _ => fault
  -- no error so far ended the replay, so only the one of this advance counts
  · have clean : ∀ err ∈ errs, err.isTerminal ≠ true := fun err mem terminal =>
      fault (h err mem terminal)
    cases hp : Playback.advance target p with
    | ok made q => exact fun err mem terminal => absurd terminal (clean err mem)
    | error err q =>
      exact h.failed (fun faulted => absurd faulted fault) (faulted_of_terminal hp)

/-- However a playback is driven, it is faulted once an error has ended the replay. -/
theorem faulted_of_firstTerminal {log : Log} {session : Session ρ η σ} {demands : List Demand}
    {err : ReplayError}
    (broke : firstTerminal (drive demands (start log session)).1 = some err) :
    (drive demands (start log session)).2.phase = .faulted := by
  have driven : FaultedBy ([] ++ errorsOf (drive demands (start log session)).1)
      (drive demands (start log session)).2 :=
    drive_induction FaultedBy.advance demands (fun _ _ _ _ h => h) (by simp [FaultedBy])
  exact driven err (List.mem_of_find?_eq_some broke) (List.find?_some broke)

theorem run_faulted {p : Playback ρ η σ} (faulted : p.phase = .faulted) :
    run p = .error .faulted p := by
  obtain ⟨steps, some_⟩ : ∃ k, p.enoughSteps = k + 1 :=
    ⟨p.enoughSteps - 1, by have := p.left_lt_enoughSteps; omega⟩
  rw [run_run, some_, runWithin_succ, advance_faulted faulted]

theorem runUntil_faulted {p : Playback ρ η σ} (faulted : p.phase = .faulted) (target : Time) :
    runUntil target p = if p.beyondTarget target then .ok () p else .error .faulted p := by
  obtain ⟨steps, some_⟩ : ∃ k, p.enoughSteps = k + 1 :=
    ⟨p.enoughSteps - 1, by have := p.left_lt_enoughSteps; omega⟩
  rw [runUntil_run, some_, runUntilWithin]
  simp only [bind_run, get_run]
  by_cases beyond : p.beyondTarget target = true
  · rw [if_pos beyond, if_pos (show p.next?.any _ = true from beyond)]
    rfl
  · rw [if_neg beyond, if_neg (show ¬p.next?.any _ = true from beyond), bind_run,
      advance_faulted faulted]

/-- A faulted playback answers with its refusal, and at most notes that it is to stop. -/
theorem serve_faulted {p : Playback ρ η σ} (faulted : p.phase = .faulted) (demand : Demand) :
    ∃ stopped, answered (serve demand p) = (p.refusal demand, { p with stopped }) := by
  cases demand with
  | step => exact ⟨p.stopped, by rw [serve, step, advance_faulted faulted]; rfl⟩
  | stepToward target => exact ⟨p.stopped, by rw [serve, stepToward, advance_faulted faulted]; rfl⟩
  | run => exact ⟨p.stopped, by simp only [serve, bind_run, run_faulted faulted]; rfl⟩
  | runUntil target =>
    refine ⟨p.stopped, ?_⟩
    simp only [serve, bind_run, runUntil_faulted faulted, refusal]
    cases p.beyondTarget target <;> rfl
  | stop => exact ⟨true, rfl⟩
  | goOn => exact ⟨false, rfl⟩

/-- A faulted playback answers every demand with its refusal, and stays as it is but for whether it
    is to stop. -/
theorem drive_faulted {p : Playback ρ η σ} (faulted : p.phase = .faulted) (demands : List Demand) :
    (drive demands p).1 = demands.map p.refusal ∧
      (drive demands p).2 = { p with stopped := (drive demands p).2.stopped } := by
  induction demands generalizing p with
  | nil => exact ⟨rfl, rfl⟩
  | cons demand demands ih =>
    obtain ⟨stopped, served⟩ := serve_faulted faulted demand
    obtain ⟨answers, stays⟩ := ih (p := { p with stopped }) faulted
    rw [drive, served]
    exact ⟨congrArg (p.refusal demand :: ·) answers, stays⟩

/-- **A faulted playback stays faulted.** Once a demand was answered by an error that ends the
    replay, every later one for a step or a run is refused, up to whatever time; only running up to
    a time before the next event is granted, and does nothing. All that the later demands change is
    whether the playback is to stop: it stays where it is, with the last time and the session it
    had. -/
theorem refuses_after_fault (log : Log) (session : Session ρ η σ) (demands : List Demand)
    (err : ReplayError) (broke : firstTerminal (drive demands (start log session)).1 = some err)
    (later : List Demand) :
    let p := (drive demands (start log session)).2
    (drive later p).1 = later.map p.refusal ∧
      (drive later p).2 = { p with stopped := (drive later p).2.stopped } :=
  drive_faulted (faulted_of_firstTerminal broke) later

/-- A log that begins with the end of a call that is not open. -/
def unopenedCall : Log :=
  ⟨#[⟨⟨1⟩, ⟨0⟩, .callEnd ⟨⟨0⟩, 0, false, false, ⟨0⟩⟩⟩,
    ⟨⟨5⟩, ⟨0⟩, .getAndClearException⟩]⟩

/-- The end of the call faults the playback. From then on it refuses all but a run to a time before
    the second event. -/
theorem unopenedCall_refused :
    let p := (drive [.step] (start unopenedCall (.start (.fresh none : Sandbox) {} .empty))).2
    (drive [.runUntil ⟨5⟩, .runUntil ⟨4⟩, .goOn, .run] p).1 =
      [.error .faulted, .ok none, .ok none, .error .faulted] :=
  (refuses_after_fault unopenedCall (.start (.fresh none : Sandbox) {} .empty) [.step]
    (.callMismatch ⟨1⟩ ⟨0⟩ none) (by decide +kernel)
    [.runUntil ⟨5⟩, .runUntil ⟨4⟩, .goOn, .run]).1

/-- So it is not every later run that is refused: the end of the call ended the replay, and the run
    up to time 2 is granted all the same. -/
theorem run_granted_after_fault :
    (drive [.step, .runUntil ⟨2⟩]
      (start unopenedCall (.start (.fresh none : Sandbox) {} .empty))).1 =
        [.error (.callMismatch ⟨1⟩ ⟨0⟩ none), .ok none] ∧
      (ReplayError.callMismatch ⟨1⟩ ⟨0⟩ none).isTerminal = true :=
  ⟨rfl, rfl⟩

end Playback

end Retrace
