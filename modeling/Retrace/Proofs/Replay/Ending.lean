import Retrace.Proofs.Replay.Driving

/-!
# Driving a playback to its end

A host that goes on after everything its scripts did not catch comes to an end: to the end of the
log, or to an error after which there is no going on. `Finishes` is this course, advance by advance,
with the errors on the way. It is the common ground of the two ways to get there. Stepping has one
answer for every advance (`Finishes.drive_steps`), so the place of the error that ends the replay
can be read off the answers. Running stops at the errors only (`Finishes.drive_runs`), and tells of
the same ones.

That there is an end needs a measure. An advance that does not end the replay leaves fewer events to
be replayed, where that is known of all it may meet (`finishes_of_progress`).
-/

namespace Retrace

/-! ## Answers -/

/-- Where the first terminal error is among a host's demands, and what it is. -/
def firstFault : List Answer → Option (Nat × ReplayError)
  | [] => none
  | .ok _ :: answers => (firstFault answers).map fun (k, e) => (k + 1, e)
  | .error e :: answers =>
    if e.isTerminal then some (0, e) else (firstFault answers).map fun (k, e) => (k + 1, e)

theorem firstFault_replicate_ok (step : Option Step) (k : Nat) :
    firstFault (List.replicate k (.ok step)) = none := by
  induction k with
  | zero => rfl
  | succ k ih => rw [List.replicate_succ, firstFault, ih]; rfl

theorem firstFault_cons_of_passing {answer : Answer} {answers : List Answer}
    (passing : ∀ e, answer = .error e → e.isTerminal = false) :
    firstFault (answer :: answers) = (firstFault answers).map fun (k, e) => (k + 1, e) := by
  cases answer with
  | ok step => rfl
  | error e => rw [firstFault, if_neg (by simp [passing e rfl])]

theorem errorsOf_replicate_ok (step : Option Step) (k : Nat) :
    errorsOf (List.replicate k (.ok step)) = [] := by
  induction k with
  | zero => rfl
  | succ k ih => rw [List.replicate_succ, errorsOf_ok, ih]

theorem errorsOf_map_error (errs : List ReplayError) : errorsOf (errs.map .error) = errs := by
  induction errs with
  | nil => rfl
  | cons err errs ih => rw [List.map_cons, errorsOf_error, ih]

namespace Playback

variable {ρ η σ : Type}

/-- The target of a run is the end of the log. -/
def horizon (p : Playback ρ η σ) : Time := p.log.lastTime?.getD ⟨0⟩

/-- How many events are left. -/
def left (p : Playback ρ η σ) : Nat := p.log.size - p.position

theorem left_lt_enoughSteps (p : Playback ρ η σ) : p.left < p.enoughSteps := by
  have bound : p.left ≤ p.log.size := Nat.sub_le _ _
  have square : p.log.size + 1 ≤ p.enoughSteps := Nat.le_mul_of_pos_left _ (Nat.succ_pos _)
  omega

/-- The replay is over, or goes on from a playback of which something holds. -/
def GoesOn (P : Playback ρ η σ → Prop) :
    EStateM.Result ReplayError (Playback ρ η σ) (Option Step) → Prop
  | .ok none _ => True
  | .ok (some _) q => P q
  | .error err q => err.isTerminal = false → P q

theorem Holds.goesOn {I : List ReplayError → Playback ρ η σ → Prop} {errs : List ReplayError}
    {r : EStateM.Result ReplayError (Playback ρ η σ) (Option Step)} (h : Holds I errs r) :
    GoesOn (fun q => ∃ errs, I errs q) r := by
  cases r with
  | ok made q => cases made with
    | none => trivial
    | some step => exact ⟨errs, h⟩
  | error err q => exact fun _ => ⟨errs ++ [err], h⟩

/-- A playback that has come further in its log, and is to stop only if it was. -/
structure Ahead (p q : Playback ρ η σ) : Prop where
  further : q.left < p.left
  stopped : q.stopped = p.stopped

theorem Ahead.of_position {p q : Playback ρ η σ} {e : Event} (next : p.next? = some e)
    (isLog : q.log = p.log) (position : p.position < q.position) (stopped : q.stopped = p.stopped) :
    Ahead p q := by
  have inside : p.position < p.log.size := (Array.getElem?_eq_some_iff.1 next).1
  refine ⟨?_, stopped⟩
  unfold left
  rw [isLog]
  omega

theorem ahead_of_past [Engine ρ η σ] {p : Playback ρ η σ} {e : Event}
    (next : p.next? = some e) (session : Session ρ η σ) :
    Ahead p ((p.past e session).withCheckpoint e).atRest := by
  have behind := behind_rested p e session
  exact .of_position next behind.isLog (behind.position ▸ Nat.lt_succ_self _) behind.stopped

variable [Engine ρ η σ] [DecidableEq η]

/-! ## Going on to the end -/

/-- Going on from a playback, whatever its scripts do not catch, makes so many advances and then
    comes to an end: to the end of the log or to an error that ends the replay. The errors are
    `errs`, and `q` is where the playback stands then. -/
inductive Finishes (target : Option Time) :
    Playback ρ η σ → Nat → List ReplayError → Playback ρ η σ → Prop
  | ended {p q : Playback ρ η σ} (at_ : advance target p = .ok none q) :
      Finishes target p 0 [] q
  | broke {p q : Playback ρ η σ} {err : ReplayError} (at_ : advance target p = .error err q)
      (terminal : err.isTerminal = true) : Finishes target p 0 [err] q
  | went {p next q : Playback ρ η σ} {step : Step} {n : Nat} {errs : List ReplayError}
      (at_ : advance target p = .ok (some step) next) (rest : Finishes target next n errs q) :
      Finishes target p (n + 1) errs q
  | raised {p next q : Playback ρ η σ} {err : ReplayError} {n : Nat} {errs : List ReplayError}
      (at_ : advance target p = .error err next) (passing : err.isTerminal = false)
      (rest : Finishes target next n errs q) : Finishes target p (n + 1) (err :: errs) q

variable {target : Option Time}

/-! ## Where it ends -/

theorem Finishes.rests {p q : Playback ρ η σ} {n : Nat} {errs : List ReplayError}
    (h : Finishes target p n errs q) (clean : errs.find? ReplayError.isTerminal = none) :
    advance target q = .ok none q := by
  induction h with
  | ended at_ =>
    have same := advance_none at_
    subst same
    exact at_
  | broke at_ terminal => simp [terminal] at clean
  | went _ _ ih => exact ih clean
  | raised _ passing _ ih => exact ih (by simpa [passing] using clean)

theorem Finishes.faults {p q : Playback ρ η σ} {n : Nat} {errs : List ReplayError}
    {err : ReplayError} (h : Finishes target p n errs q)
    (broken : errs.find? ReplayError.isTerminal = some err) : q.phase = .faulted := by
  induction h with
  | ended at_ => exact absurd broken (by simp)
  | broke at_ terminal => exact faulted_of_terminal at_ terminal
  | went _ _ ih => exact ih broken
  | raised _ passing _ ih => exact ih (by simpa [passing] using broken)

/-- Asking again for what is refused or done gives the same answer again. -/
theorem drive_replicate_of_fixed {p : Playback ρ η σ} {demand : Demand} {answer : Answer}
    (fixed : answered (serve demand p) = (answer, p)) (k : Nat) :
    drive (List.replicate k demand) p = (List.replicate k answer, p) := by
  induction k with
  | zero => rfl
  | succ k ih => simp only [List.replicate_succ, drive, fixed, ih]

/-! ## Stepping -/

/-- Going step by step, a host is told of the error that ends the replay by the answer about the
    event that it happens at. -/
theorem Finishes.drive_steps {p q : Playback ρ η σ} {n : Nat} {errs : List ReplayError}
    (h : Finishes none p n errs q) {k : Nat} (enough : n < k) :
    (drive (List.replicate k .step) p).2 = q ∧
      firstFault (drive (List.replicate k .step) p).1 =
        (errs.find? ReplayError.isTerminal).map fun e => (n, e) := by
  -- every advance on the way takes one demand, and what is left over is answered alike
  induction h generalizing k with
  | @ended p q at_ =>
    have same := advance_none at_
    subst same
    have fixed : answered (serve .step q) = (.ok none, q) := by rw [serve, step, at_]; rfl
    rw [drive_replicate_of_fixed fixed]
    exact ⟨rfl, firstFault_replicate_ok none k⟩
  | @broke p q err at_ terminal =>
    obtain ⟨k, rfl⟩ : ∃ j, k = j + 1 := ⟨k - 1, by omega⟩
    have first : answered (serve .step p) = (.error err, q) := by rw [serve, step, at_]; rfl
    have fixed : answered (serve .step q) = (.error .faulted, q) := by
      rw [serve, step, advance_faulted (faulted_of_terminal at_ terminal)]; rfl
    simp only [List.replicate_succ, drive, first, drive_replicate_of_fixed fixed]
    simp [firstFault, terminal]
  | @went p next q made n errs at_ rest ih =>
    obtain ⟨k, rfl⟩ : ∃ j, k = j + 1 := ⟨k - 1, by omega⟩
    have first : answered (serve .step p) = (.ok (some made), next) := by rw [serve, step, at_]; rfl
    have later := ih (k := k) (by omega)
    simp only [List.replicate_succ, drive, first]
    refine ⟨later.1, ?_⟩
    rw [firstFault_cons_of_passing (by simp), later.2, Option.map_map]
    rfl
  | @raised p next q err n errs at_ passing rest ih =>
    obtain ⟨k, rfl⟩ : ∃ j, k = j + 1 := ⟨k - 1, by omega⟩
    have first : answered (serve .step p) = (.error err, next) := by rw [serve, step, at_]; rfl
    have later := ih (k := k) (by omega)
    simp only [List.replicate_succ, drive, first]
    refine ⟨later.1, ?_⟩
    rw [firstFault_cons_of_passing (by simpa using passing), later.2, Option.map_map,
      List.find?_cons_of_neg (by simp [passing])]
    rfl

/-! ## Running -/

/-- Within enough steps, running comes to the first error on the way, or to the end. -/
theorem Finishes.runWithin {t : Time} {p q : Playback ρ η σ} {n : Nat} {errs : List ReplayError}
    (h : Finishes (some t) p n errs q) {steps : Nat} (enough : n < steps) :
    (errs = [] ∧ runWithin t steps p = .ok () q) ∨
    ∃ err rest next, errs = err :: rest ∧ runWithin t steps p = .error err next ∧
      (err.isTerminal = true ∧ rest = [] ∧ next = q ∨
        err.isTerminal = false ∧ ∃ m < n, Finishes (some t) next m rest q) := by
  -- an error on the way interrupts the run, with the rest of the way still to go
  induction h generalizing steps with
  | ended at_ =>
    obtain ⟨steps, rfl⟩ : ∃ j, steps = j + 1 := ⟨steps - 1, by omega⟩
    rw [runWithin_succ, at_]
    exact Or.inl ⟨rfl, rfl⟩
  | @broke p q err at_ terminal =>
    obtain ⟨steps, rfl⟩ : ∃ j, steps = j + 1 := ⟨steps - 1, by omega⟩
    rw [runWithin_succ, at_]
    exact Or.inr ⟨err, [], q, rfl, rfl, Or.inl ⟨terminal, rfl, rfl⟩⟩
  | @went p next q made n errs at_ rest ih =>
    obtain ⟨steps, rfl⟩ : ∃ j, steps = j + 1 := ⟨steps - 1, by omega⟩
    rw [runWithin_succ, at_]
    have within : n < steps := by omega
    rcases ih within with clean | ⟨err, errs', r, cut, ran, way⟩
    · exact Or.inl clean
    · refine Or.inr ⟨err, errs', r, cut, ran, ?_⟩
      rcases way with broken | ⟨passing, m, less, further⟩
      · exact Or.inl broken
      · exact Or.inr ⟨passing, m, by omega, further⟩
  | @raised p next q err n errs at_ passing rest ih =>
    obtain ⟨steps, rfl⟩ : ∃ j, steps = j + 1 := ⟨steps - 1, by omega⟩
    rw [runWithin_succ, at_]
    exact Or.inr ⟨err, errs, next, rfl, rfl, Or.inr ⟨passing, n, by omega, rest⟩⟩

theorem run_log {p : Playback ρ η σ} {r : EStateM.Result ReplayError (Playback ρ η σ) Unit}
    (h : run p = r) : Ends (fun q => q.log = p.log) (fun _ q => q.log = p.log) r := by
  subst h
  rw [run_run]
  refine runWithin_ends (fun target q same => ?_) _ _ rfl
  cases at_ : advance target q with
  | ok made next => exact (log_of_ok at_).trans same
  | error err next => exact (log_of_error at_).trans same

theorem serve_run (p : Playback ρ η σ) : serve .run p = match run p with
    | .ok () q => .ok none q
    | .error e q => .error e q := by
  simp only [serve, bind_run]
  cases run p <;> rfl

/-- Runs of a playback, whose first ended without an error in `q`, or else in an error at `q`. -/
theorem run_eq {p q : Playback ρ η σ} (same : q.log = p.log) :
    run q = Playback.runWithin p.horizon p.enoughSteps q := by
  rw [run_run, horizon, same]
  unfold enoughSteps
  rw [same]

/-- What a playback answers that is asked to run again where nothing is left to be done. -/
def lastAnswer (errs : List ReplayError) : Answer :=
  match errs.find? ReplayError.isTerminal with
  | some _ => .error .faulted
  | none => .ok none

/-- **Asked to run again and again, a playback tells of the errors on the way to the end one by
    one**, and then gives the same answer for ever. -/
theorem Finishes.runs {p q : Playback ρ η σ} {n : Nat} {errs : List ReplayError}
    (h : Finishes (some p.horizon) p n errs q) (enough : n < p.enoughSteps) (k : Nat) :
    drive (List.replicate (errs.length + (k + 1)) .run) p =
      (errs.map .error ++ List.replicate (k + 1) (lastAnswer errs), q) := by
  -- each run comes to the next error, and one that meets none to the end
  induction errs generalizing p n with
  | nil =>
    rcases h.runWithin enough with ⟨-, ran⟩ | ⟨err, rest, next, cut, -⟩
    · have same : q.log = p.log := run_log ran
      have first : answered (serve .run p) = (.ok none, q) := by
        rw [serve_run, run_run, show p.log.lastTime?.getD ⟨0⟩ = p.horizon from rfl, ran]; rfl
      have fixed : answered (serve .run q) = (.ok none, q) := by
        obtain ⟨j, hj⟩ : ∃ j, p.enoughSteps = j + 1 := ⟨p.enoughSteps - 1, by omega⟩
        rw [serve_run, run_eq same, hj, runWithin_succ, h.rests rfl]
        rfl
      rw [List.length_nil, Nat.zero_add]
      simp only [List.replicate_succ, drive, first, drive_replicate_of_fixed fixed]
      rfl
    · exact absurd cut (by simp)
  | cons err errs ih =>
    rcases h.runWithin enough with ⟨clean, -⟩ | ⟨err', rest, next, cut, ran, way⟩
    · exact absurd clean (by simp)
    obtain ⟨rfl, rfl⟩ := List.cons.inj cut
    have same : next.log = p.log := run_log ran
    have first : answered (serve .run p) = (.error err, next) := by
      rw [serve_run, run_run, show p.log.lastTime?.getD ⟨0⟩ = p.horizon from rfl, ran]; rfl
    have count : (err :: errs).length + (k + 1) = (errs.length + (k + 1)) + 1 := by
      rw [List.length_cons]
      omega
    rw [count, List.replicate_succ, drive, first]
    rcases way with ⟨terminal, rfl, rfl⟩ | ⟨passing, m, less, further⟩
    · have broken : [err].find? ReplayError.isTerminal = some err := by simp [terminal]
      have faulted : next.phase = .faulted := h.faults broken
      have fixed : answered (serve .run next) = (.error .faulted, next) := by
        obtain ⟨j, hj⟩ : ∃ j, p.enoughSteps = j + 1 := ⟨p.enoughSteps - 1, by omega⟩
        rw [serve_run, run_eq same, hj, runWithin_succ, advance_faulted faulted]
        rfl
      simp only [drive_replicate_of_fixed fixed, lastAnswer, broken, List.length_nil, Nat.zero_add]
      rfl
    · have horizon : next.horizon = p.horizon := by unfold Playback.horizon; rw [same]
      have steps : next.enoughSteps = p.enoughSteps := by unfold enoughSteps; rw [same]
      have unchanged : lastAnswer (err :: errs) = lastAnswer errs := by
        rw [lastAnswer, List.find?_cons_of_neg (by simp [passing]), lastAnswer]
      rw [ih (horizon ▸ further) (steps ▸ by omega), unchanged]
      rfl

/-- Asked to run often enough, a playback tells of all errors on the way to the end. -/
theorem Finishes.drive_runs {p q : Playback ρ η σ} {n : Nat} {errs : List ReplayError}
    (h : Finishes (some p.horizon) p n errs q) (enough : n < p.enoughSteps) {k : Nat}
    (often : errs.length < k) :
    (drive (List.replicate k .run) p).2 = q ∧
      firstTerminal (drive (List.replicate k .run) p).1 = errs.find? ReplayError.isTerminal := by
  obtain ⟨j, rfl⟩ : ∃ j, k = errs.length + (j + 1) := ⟨k - errs.length - 1, by omega⟩
  rw [h.runs enough j]
  refine ⟨rfl, ?_⟩
  rw [firstTerminal, errorsOf_append, errorsOf_map_error, List.find?_append, lastAnswer]
  cases found : errs.find? ReplayError.isTerminal with
  | some err => rfl
  | none => rw [errorsOf_replicate_ok]; rfl

/-! ## That an end is reached -/

/-- If every advance that does not end the replay leaves less to be done, and keeps what this hangs
    on, then there are no more advances than events left. -/
theorem finishes_of_progress {M : Playback ρ η σ → Prop}
    (progress : ∀ p, M p → GoesOn (fun q => M q ∧ q.left < p.left) (advance target p))
    {p : Playback ρ η σ} (h : M p) : ∃ n errs q, Finishes target p n errs q ∧ n ≤ p.left := by
  generalize size : p.left = bound
  -- an advance may pass many events by, so it is how many are left that goes down
  induction bound using Nat.strongRecOn generalizing p with
  | ind bound ih =>
    have next := progress p h
    cases hp : advance target p with
    | ok made q =>
      rw [hp] at next
      cases made with
      | none => exact ⟨0, [], q, .ended hp, by omega⟩
      | some step =>
        obtain ⟨keeps, less⟩ := next
        obtain ⟨n, errs, r, rest, few⟩ := ih q.left (size ▸ less) keeps rfl
        exact ⟨n + 1, errs, r, .went hp rest, by omega⟩
    | error err q =>
      rw [hp] at next
      by_cases terminal : err.isTerminal = true
      · exact ⟨0, [err], q, .broke hp terminal, by omega⟩
      · have passing : err.isTerminal = false := by simpa using terminal
        obtain ⟨keeps, less⟩ := next passing
        obtain ⟨n, errs, r, rest, few⟩ := ih q.left (size ▸ less) keeps rfl
        exact ⟨n + 1, err :: errs, r, .raised hp passing rest, by omega⟩

/-- An advance that does not end the replay leaves fewer events, if a call that is passed by does
    not end before it begins. -/
theorem ahead_of_advanced {p : Playback ρ η σ} (going : p.stopped = false)
    (forward : ∀ e call c endPosition ending callEnd, p.Ready → p.Facing e →
      target.bind (p.shortcut? e) = some (call, c, endPosition, ending, callEnd) →
        p.position ≤ endPosition)
    {r : EStateM.Result ReplayError (Playback ρ η σ) (Option Step)} (advanced : Advanced target p r) :
    GoesOn (Ahead p) r := by
  have beyond {e ending : Event} {call : CallBegin} {c : Checkpoint η σ} {endPosition : Nat}
      {callEnd : CallEnd} (ready : p.Ready) (facing : p.Facing e)
      (shortcut : target.bind (p.shortcut? e) = some (call, c, endPosition, ending, callEnd))
      (session : Session ρ η σ) : Ahead p (p.beyond e call endPosition ending session) :=
    .of_position facing.next rfl
      (Nat.lt_succ_of_le (forward e call c endPosition ending callEnd ready facing shortcut)) rfl
  cases advanced with
  | refused => exact fun passing => absurd passing (by simp [ReplayError.isTerminal])
  | aborted _ stopped => exact absurd stopped (by simp [going])
  | finished => trivial
  | truncated => exact fun passing => absurd passing (by simp [ReplayError.isTerminal])
  | outOfOrder => exact fun passing => absurd passing (by simp [ReplayError.isTerminal])
  | unrestored => exact fun passing => absurd passing (by simp [ReplayError.isTerminal])
  | passed ready e facing call c endPosition ending callEnd shortcut session =>
    exact beyond ready facing shortcut session
  | passedRaising ready e facing call c endPosition ending callEnd shortcut session =>
    exact fun _ => beyond ready facing shortcut session
  | played _ e facing _ session => exact ahead_of_past facing.next session
  | playedRaising _ e facing _ session => exact fun _ => ahead_of_past facing.next session
  | failed _ e facing _ session err _ terminal =>
    exact fun passing => absurd terminal (by simp [passing])

/-- What goes on holding as long as the replay goes on, and lets every advance come further, brings
    the replay to an end, if it is not stopped. -/
theorem finishes_of_ahead {M : Playback ρ η σ → Prop}
    (kept : ∀ p, M p → GoesOn M (advance target p))
    (ahead : ∀ p, M p → p.stopped = false → GoesOn (Ahead p) (advance target p))
    {p : Playback ρ η σ} (h : M p) (going : p.stopped = false) :
    ∃ n errs q, Finishes target p n errs q ∧ n ≤ p.left := by
  refine finishes_of_progress (M := fun p => M p ∧ p.stopped = false) ?_ ⟨h, going⟩
  rintro p ⟨h, going⟩
  have kept := kept p h
  have ahead := ahead p h going
  cases hp : advance target p with
  | ok made q =>
    rw [hp] at kept ahead
    cases made with
    | none => trivial
    | some step => exact ⟨⟨kept, ahead.stopped.trans going⟩, ahead.further⟩
  | error err q =>
    rw [hp] at kept ahead
    intro passing
    have ahead := ahead passing
    exact ⟨⟨kept passing, ahead.stopped.trans going⟩, ahead.further⟩

theorem Finishes.errors_le {p q : Playback ρ η σ} {n : Nat} {errs : List ReplayError}
    (h : Finishes target p n errs q) : errs.length ≤ n + 1 := by
  induction h with
  | ended => exact Nat.zero_le _
  | broke => exact Nat.le_refl _
  | went _ _ ih => omega
  | raised _ _ _ ih => simp only [List.length_cons]; omega

/-- A playback that comes to an end rests there after it was asked to run often enough, if it meets
    no error that ends the replay. -/
theorem rests_of_finishes {p : Playback ρ η σ}
    (ends : ∃ n errs q, Finishes (some p.horizon) p n errs q ∧ n ≤ p.left) {k : Nat}
    (often : p.log.size + 2 ≤ k)
    (clean : firstTerminal (drive (List.replicate k .run) p).1 = none) :
    let onward := (drive (List.replicate k .run) p).2
    advance (some p.horizon) onward = .ok none onward := by
  obtain ⟨n, errs, q, course, few⟩ := ends
  have left : p.left ≤ p.log.size := Nat.sub_le _ _
  have few' := course.errors_le
  obtain ⟨stands, told⟩ :=
    course.drive_runs (k := k) (Nat.lt_of_le_of_lt few p.left_lt_enoughSteps) (by omega)
  intro onward
  have there : onward = q := stands
  rw [there]
  exact course.rests (told.symm.trans clean)

end Playback

end Retrace
