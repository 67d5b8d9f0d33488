import Retrace.Proofs.Replay.Calls
import Retrace.Replay.Playback

/-!
# Driving a playback

A host asks a playback to do one step, to run, to run up to a time; it may stop it from outside and
let it go on. `Demand` lists what can be asked, and `Playback.drive` asks one thing after the other,
going on after every error, as a host may.

All of these come down to one function, `Playback.advance`. `Advanced` is its specification: *every*
way in which it can end, with the conditions under which it does and the playback that it leaves.
`drive_induction` then says that what every single advance preserves is preserved by any mix of
demands; so a statement about all ways of driving a playback is a statement about one advance.
-/

namespace Retrace

/-- What can be asked of a playback from outside. -/
inductive Demand where
  | step
  | stepToward (target : Time)
  | run
  | runUntil (target : Time)
  /-- The playback shall stop before its next event. -/
  | stop
  /-- It need not stop any longer. -/
  | goOn
deriving DecidableEq, Repr

/-- What came of a demand: an error, or else the step, if it was a demand for one step and there was
    one left. -/
abbrev Answer := Except ReplayError (Option Step)

/-- The errors among what came of a host's demands, in order. -/
def errorsOf (answers : List Answer) : List ReplayError :=
  answers.filterMap fun answer => match answer with
    | .ok _ => none
    | .error e => some e

@[simp] theorem errorsOf_nil : errorsOf [] = [] := rfl

@[simp] theorem errorsOf_ok (step : Option Step) (answers : List Answer) :
    errorsOf (.ok step :: answers) = errorsOf answers := rfl

@[simp] theorem errorsOf_error (e : ReplayError) (answers : List Answer) :
    errorsOf (.error e :: answers) = e :: errorsOf answers := rfl

theorem errorsOf_append (answers answers' : List Answer) :
    errorsOf (answers ++ answers') = errorsOf answers ++ errorsOf answers' :=
  List.filterMap_append

/-- Whether an error reports an exception that no call caught. -/
def ReplayError.isUncaught : ReplayError → Bool
  | .uncaughtException .. => true
  | _ => false

/-- The error that ended a replay, if one did. -/
def firstTerminal (answers : List Answer) : Option ReplayError :=
  (errorsOf answers).find? ReplayError.isTerminal

namespace Playback

variable {ρ η σ : Type}

/-- The playback once nothing is going on: no call is open, or one is. -/
def atRest (p : Playback ρ η σ) : Playback ρ η σ :=
  { p with phase := if p.session.stack.isEmpty then .idle else .inCall }

/-- The playback behind its next event. -/
def past (p : Playback ρ η σ) (e : Event) (session : Session ρ η σ) : Playback ρ η σ :=
  { p with session, position := p.position + 1, last := some e.time }

/-- The playback behind a root call that was passed by. -/
def beyond (p : Playback ρ η σ) (e : Event) (call : CallBegin) (endPosition : Nat)
    (ending : Event) (session : Session ρ η σ) : Playback ρ η σ :=
  { p with
    session := { session with
      stack := (session.stack.startRoot e.time call.callback).recordMatch e.time ending.time }
    position := endPosition + 1
    phase := .idle
    last := some ending.time }

/-- Whether a playback can be asked for a step at all. -/
structure Ready (p : Playback ρ η σ) : Prop where
  sound : p.phase ≠ .faulted
  going : p.stopped = false

/-- The next event is `e`, and it is in order. -/
structure Facing (p : Playback ρ η σ) (e : Event) : Prop where
  next : p.next? = some e
  ordered : ∀ previous, p.last = some previous → previous < e.time

/-- A statement about the errors so far and the playback holds after a demand was served. -/
def Holds {α : Type} (I : List ReplayError → Playback ρ η σ → Prop) (errs : List ReplayError) :
    EStateM.Result ReplayError (Playback ρ η σ) α → Prop
  | .ok _ q => I errs q
  | .error e q => I (errs ++ [e]) q

/-- What holds of a playback after a run: `I` if it ended in peace, and `E` of the error if not. -/
def Ends {α : Type} (I : Playback ρ η σ → Prop) (E : ReplayError → Playback ρ η σ → Prop) :
    EStateM.Result ReplayError (Playback ρ η σ) α → Prop
  | .ok _ q => I q
  | .error e q => E e q

theorem holds_eq_ends {α : Type} (I : List ReplayError → Playback ρ η σ → Prop)
    (errs : List ReplayError) (r : EStateM.Result ReplayError (Playback ρ η σ) α) :
    Holds I errs r = Ends (I errs) (fun e => I (errs ++ [e])) r := by
  cases r <;> rfl

/-- If a run ends well, so does one with anything done after it that ends well. -/
theorem Ends.bind {α β : Type} {I : Playback ρ η σ → Prop}
    {E : ReplayError → Playback ρ η σ → Prop} {m : PlaybackM ρ η σ α} {f : α → PlaybackM ρ η σ β}
    {p : Playback ρ η σ} (first : Ends I E (m p)) (rest : ∀ a q, I q → Ends I E (f a q)) :
    Ends I E ((m >>= f) p) := by
  rw [bind_run]
  cases hm : m p with
  | ok a q => rw [hm] at first; exact rest a q first
  | error e q => rw [hm] at first; exact first

variable [Engine ρ η σ]

/-- Doing what a host asks. A demand that may take many steps answers none of them. -/
def serve [DecidableEq η] : Demand → PlaybackM ρ η σ (Option Step)
  | .step => step
  | .stepToward target => stepToward target
  | .run => do run; return none
  | .runUntil target => do runUntil target; return none
  | .stop => do modify fun p => { p with stopped := true }; return none
  | .goOn => do modify fun p => { p with stopped := false }; return none

/-- What a demand is answered with, and the playback after it. -/
def answered : EStateM.Result ReplayError (Playback ρ η σ) (Option Step) → Answer × Playback ρ η σ
  | .ok step q => (.ok step, q)
  | .error e q => (.error e, q)

/-- Doing one thing after the other that a host asks, whatever comes of it. -/
def drive [DecidableEq η] : List Demand → Playback ρ η σ → List Answer × Playback ρ η σ
  | [], p => ([], p)
  | demand :: demands, p =>
    let first := answered (serve demand p)
    (first.1 :: (drive demands first.2).1, (drive demands first.2).2)

/-! ## All that an advance can do -/

/-- How an advance ends. -/
inductive Advanced [DecidableEq η] (target : Option Time) (p : Playback ρ η σ) :
    EStateM.Result ReplayError (Playback ρ η σ) (Option Step) → Prop
  | refused (fault : p.phase = .faulted) : Advanced target p (.error .faulted p)
  | aborted (sound : p.phase ≠ .faulted) (stopped : p.stopped = true) :
      Advanced target p (.error (.aborted (p.next?.map Event.time)) p)
  | finished (ready : p.Ready) (next : p.next? = none)
      (closed : p.session.stack.outermost? = none) : Advanced target p (.ok none p)
  | truncated (ready : p.Ready) (next : p.next? = none) (frame : Frame η)
      (isOpen : p.session.stack.outermost? = some frame) :
      Advanced target p (.error (.truncatedLog frame.begun) { p with phase := .faulted })
  | outOfOrder (ready : p.Ready) (e : Event) (previous : Time) (next : p.next? = some e)
      (last : p.last = some previous) (late : e.time ≤ previous) :
      Advanced target p (.error (.outOfOrder previous e.time) { p with phase := .faulted })
  | unrestored (ready : p.Ready) (e : Event) (facing : p.Facing e) (call : CallBegin)
      (c : Checkpoint η σ) (endPosition : Nat) (ending : Event) (callEnd : CallEnd)
      (shortcut : target.bind (p.shortcut? e) = some (call, c, endPosition, ending, callEnd))
      (fault : Fault) (session : Session ρ η σ)
      (restore : Session.restore c p.session = .error fault session) :
      Advanced target p (.error (.executionFailure e.time .callBegin fault)
        { p with session, phase := .faulted })
  | passed (ready : p.Ready) (e : Event) (facing : p.Facing e) (call : CallBegin)
      (c : Checkpoint η σ) (endPosition : Nat) (ending : Event) (callEnd : CallEnd)
      (shortcut : target.bind (p.shortcut? e) = some (call, c, endPosition, ending, callEnd))
      (session : Session ρ η σ) (restore : Session.restore c p.session = .ok () session)
      (quiet : callEnd.raised = false) :
      Advanced target p (.ok (some (.fastForwarded e.time ending.time))
        (p.beyond e call endPosition ending session))
  | passedRaising (ready : p.Ready) (e : Event) (facing : p.Facing e) (call : CallBegin)
      (c : Checkpoint η σ) (endPosition : Nat) (ending : Event) (callEnd : CallEnd)
      (shortcut : target.bind (p.shortcut? e) = some (call, c, endPosition, ending, callEnd))
      (session : Session ρ η σ) (restore : Session.restore c p.session = .ok () session)
      (raised : callEnd.raised = true) :
      Advanced target p
        (.error (.uncaughtException e.time ending.time callEnd.terminatingException)
          (p.beyond e call endPosition ending session))
  | played (ready : p.Ready) (e : Event) (facing : p.Facing e)
      (direct : target.bind (p.shortcut? e) = none) (session : Session ρ η σ)
      (run : Session.execute p.position e p.session = .ok () session) :
      Advanced target p
        (.ok (some (.executed e.time e.kind)) ((p.past e session).withCheckpoint e).atRest)
  | playedRaising (ready : p.Ready) (e : Event) (facing : p.Facing e)
      (direct : target.bind (p.shortcut? e) = none) (session : Session ρ η σ)
      (root ended : Time) (terminating : Bool)
      (run : Session.execute p.position e p.session =
        .error (.uncaughtException root ended terminating) session) :
      Advanced target p (.error (.uncaughtException root ended terminating)
        ((p.past e session).withCheckpoint e).atRest)
  | failed (ready : p.Ready) (e : Event) (facing : p.Facing e)
      (direct : target.bind (p.shortcut? e) = none) (session : Session ρ η σ)
      (err : ReplayError) (run : Session.execute p.position e p.session = .error err session)
      (terminal : err.isTerminal = true) :
      Advanced target p (.error err { p.past e session with phase := .faulted })

/-- A faulted playback refuses to go on. -/
theorem Advanced.refuses [DecidableEq η] {target : Option Time} {p : Playback ρ η σ}
    {r : EStateM.Result ReplayError (Playback ρ η σ) (Option Step)}
    (advanced : Advanced target p r) (faulted : p.phase = .faulted) : r = .error .faulted p := by
  cases advanced with
  | refused => rfl
  | aborted sound => exact absurd faulted sound
  | finished ready | truncated ready | outOfOrder ready | unrestored ready | passed ready
  | passedRaising ready | played ready | playedRaising ready | failed ready =>
    exact absurd faulted ready.sound

/-- A checkpoint is noted, or it is not; nothing else of the playback changes. -/
theorem withCheckpoint_cases (p : Playback ρ η σ) (e : Event) :
    p.withCheckpoint e = p ∨ ∃ call c position begin_,
      e.callEnd? = some call ∧ call.depth = 0 ∧ p.session.checkpoint? e.time = some c ∧
      p.callBegin? call.begun = some (position, begin_) ∧
      p.withCheckpoint e =
        { p with session := { p.session with notes := p.session.notes.addCheckpoint position c } } := by
  unfold withCheckpoint
  cases hend : e.callEnd? with
  | none => exact Or.inl rfl
  | some call =>
    dsimp only
    by_cases root : call.depth = 0 ∧ p.session.settings.takeCheckpoints
    · rw [if_pos root]
      cases taken : p.session.checkpoint? e.time with
      | none => exact Or.inl rfl
      | some c =>
        dsimp only [attach]
        cases begun : p.callBegin? call.begun with
        | none => exact Or.inl rfl
        | some found => exact Or.inr ⟨call, c, found.1, found.2, rfl, root.1, rfl, begun, rfl⟩
    · rw [if_neg root]
      exact Or.inl rfl

theorem withCheckpoint_frame (p : Playback ρ η σ) (e : Event) :
    (p.withCheckpoint e).session.settings = p.session.settings ∧
      (p.withCheckpoint e).session.stack = p.session.stack ∧
      (p.withCheckpoint e).last = p.last ∧ (p.withCheckpoint e).position = p.position ∧
      (p.withCheckpoint e).log = p.log ∧ (p.withCheckpoint e).stopped = p.stopped := by
  rcases withCheckpoint_cases p e with same | ⟨_, _, _, _, _, _, _, _, noted⟩
  · rw [same]; exact ⟨rfl, rfl, rfl, rfl, rfl, rfl⟩
  · rw [noted]; exact ⟨rfl, rfl, rfl, rfl, rfl, rfl⟩

/-- Nothing of the session changes but what is noted. -/
theorem withCheckpoint_session (p : Playback ρ η σ) (e : Event) :
    ∃ notes, (p.withCheckpoint e).session = { p.session with notes } := by
  rcases withCheckpoint_cases p e with same | ⟨_, _, _, _, _, _, _, _, noted⟩
  · exact ⟨p.session.notes, by rw [same]⟩
  · exact ⟨_, by rw [noted]⟩

/-- A playback stands behind an event of `p` that was executed and left this session. -/
structure Behind (p : Playback ρ η σ) (e : Event) (session : Session ρ η σ)
    (q : Playback ρ η σ) : Prop where
  isLog : q.log = p.log
  position : q.position = p.position + 1
  last : q.last = some e.time
  sound : q.phase ≠ .faulted
  stopped : q.stopped = p.stopped
  noted : ∃ notes, q.session = { session with notes }

theorem behind_rested (p : Playback ρ η σ) (e : Event) (session : Session ρ η σ) :
    p.Behind e session ((p.past e session).withCheckpoint e).atRest := by
  obtain ⟨-, -, last, position, isLog, stopped⟩ := withCheckpoint_frame (p.past e session) e
  refine ⟨isLog, position, last, ?_, stopped, withCheckpoint_session (p.past e session) e⟩
  show (if _ then Phase.idle else Phase.inCall) ≠ .faulted
  split <;> simp

theorem fastForward_run (e : Event) (call : CallBegin) (c : Checkpoint η σ) (endPosition : Nat)
    (ending : Event) (callEnd : CallEnd) (p : Playback ρ η σ) :
    fastForward e call c endPosition ending callEnd p =
      match Session.restore c p.session with
      | .error failure session =>
        .error (.executionFailure e.time .callBegin failure) { p with session, phase := .faulted }
      | .ok () session =>
        if callEnd.raised then
          .error (.uncaughtException e.time ending.time callEnd.terminatingException)
            (p.beyond e call endPosition ending session)
        else .ok (.fastForwarded e.time ending.time) (p.beyond e call endPosition ending session) := by
  simp only [fastForward, bind_run, get_run]
  cases Session.restore c p.session with
  | error failure session => rfl
  | ok u session =>
    simp only [bind_run, set_run]
    split <;> rfl

variable [DecidableEq η]

theorem play_advanced {target : Option Time} {p : Playback ρ η σ} {e : Event} (ready : p.Ready)
    (facing : p.Facing e) (direct : target.bind (p.shortcut? e) = none) :
    Advanced target p ((some <$> play e : PlaybackM ρ η σ (Option Step)) p) := by
  simp only [map_run, play, bind_run, get_run]
  have executed := Session.execute_executed p.position e p.session
  cases hx : Session.execute p.position e p.session with
  | ok u session => exact .played ready e facing direct session hx
  | error err session =>
    rw [hx] at executed
    rcases executed.terminal_or_uncaught with terminal | ⟨root, ended, terminating, rfl⟩
    · cases err with
      | uncaughtException => exact absurd terminal (by simp [ReplayError.isTerminal])
      | aborted => exact absurd terminal (by simp [ReplayError.isTerminal])
      | _ => exact .failed ready e facing direct session _ hx terminal
    · exact .playedRaising ready e facing direct session root ended terminating hx

theorem fastForward_advanced {target : Option Time} {p : Playback ρ η σ} {e : Event}
    (ready : p.Ready) (facing : p.Facing e) {call : CallBegin} {c : Checkpoint η σ}
    {endPosition : Nat} {ending : Event} {callEnd : CallEnd}
    (shortcut : target.bind (p.shortcut? e) = some (call, c, endPosition, ending, callEnd)) :
    Advanced target p
      ((some <$> fastForward e call c endPosition ending callEnd :
        PlaybackM ρ η σ (Option Step)) p) := by
  simp only [map_run, fastForward_run]
  cases restore : Session.restore c p.session with
  | error failure session =>
    exact .unrestored ready e facing call c endPosition ending callEnd shortcut failure session
      restore
  | ok u session =>
    by_cases raised : callEnd.raised = true
    · simp only [raised, if_true]
      exact .passedRaising ready e facing call c endPosition ending callEnd shortcut session restore
        raised
    · simp only [raised]
      exact .passed ready e facing call c endPosition ending callEnd shortcut session restore
        (by simpa using raised)

/-- **These are all the ways in which an advance can end.** -/
theorem advance_advanced (target : Option Time) (p : Playback ρ η σ) :
    Advanced target p (advance target p) := by
  simp only [advance, bind_run, get_run]
  by_cases fault : p.phase = .faulted
  · simp only [fault, if_true, bind_run, throw_run]
    exact .refused fault
  by_cases stopped : p.stopped = true
  · simp only [fault, stopped, if_true, if_false, bind_run, throw_run]
    exact .aborted fault stopped
  -- no refusal: the next event decides, and then whether it is late
  have ready : p.Ready := ⟨fault, by simpa using stopped⟩
  simp only [fault, stopped, if_false]
  cases next : p.next? with
  | none =>
    dsimp only
    cases isOpen : p.session.stack.outermost? with
    | some frame => exact .truncated ready next frame isOpen
    | none => exact .finished ready next isOpen
  | some e =>
    dsimp only
    cases last : p.last with
    | none =>
      have facing : p.Facing e := ⟨next, by simp [last]⟩
      cases shortcut : target.bind (p.shortcut? e) with
      | none => exact play_advanced ready facing shortcut
      | some found => exact fastForward_advanced ready facing shortcut
    | some previous =>
      dsimp only
      by_cases late : e.time ≤ previous
      · simp only [late, if_true]
        exact .outOfOrder ready e previous next last late
      simp only [late, if_false]
      have facing : p.Facing e := by
        refine ⟨next, ?_⟩
        intro q hq
        rw [last] at hq
        exact Option.some.inj hq ▸ Time.not_le.1 late
      cases shortcut : target.bind (p.shortcut? e) with
      | none => exact play_advanced ready facing shortcut
      | some found => exact fastForward_advanced ready facing shortcut

/-- Once faulted, a playback refuses everything. -/
theorem advance_faulted {p : Playback ρ η σ} (h : p.phase = .faulted) (target : Option Time) :
    advance target p = .error .faulted p := by
  simp only [advance, bind_run, get_run, h, if_true, throw_run]

/-- There is nothing to do at the end of a log, and that stays so. -/
theorem advance_none {target : Option Time} {p q : Playback ρ η σ}
    (h : advance target p = .ok none q) : q = p := by
  have advanced := advance_advanced target p
  rw [h] at advanced
  cases advanced with
  | finished => rfl

/-- A playback stays with its log. -/
theorem advance_log {log : Log} (target : Option Time) (errs : List ReplayError)
    (p : Playback ρ η σ) (h : p.log = log) :
    Holds (fun _ q => q.log = log) errs (advance target p) := by
  have checked (e : Event) (session : Session ρ η σ) :
      ((p.past e session).withCheckpoint e).atRest.log = log := by
    rcases withCheckpoint_cases (p.past e session) e with same | ⟨_, _, _, _, _, _, _, _, noted⟩
    · rw [same]; exact h
    · rw [noted]; exact h
  have advanced := advance_advanced target p
  cases hp : advance target p
  all_goals
    rw [hp] at advanced
    cases advanced <;> first | exact h | exact checked _ _

theorem finished_of_none {target : Option Time} {p q : Playback ρ η σ}
    (h : advance target p = .ok none q) : q.next? = none := by
  have advanced := advance_advanced target p
  rw [h] at advanced
  cases advanced with
  | finished _ next => exact next

theorem log_of_ok {target : Option Time} {p q : Playback ρ η σ} {made : Option Step}
    (h : advance target p = .ok made q) : q.log = p.log := by
  have kept := advance_log target [] p rfl
  rwa [h] at kept

theorem log_of_error {target : Option Time} {p q : Playback ρ η σ} {err : ReplayError}
    (h : advance target p = .error err q) : q.log = p.log := by
  have kept := advance_log target [] p rfl
  rwa [h] at kept

/-- An error that ends the replay leaves the playback faulted. -/
theorem faulted_of_terminal {target : Option Time} {p q : Playback ρ η σ} {err : ReplayError}
    (h : advance target p = .error err q) (terminal : err.isTerminal = true) :
    q.phase = .faulted := by
  have advanced := advance_advanced target p
  rw [h] at advanced
  cases advanced with
  | refused fault => exact fault
  | aborted => exact absurd terminal (by simp [ReplayError.isTerminal])
  | passedRaising => exact absurd terminal (by simp [ReplayError.isTerminal])
  | playedRaising => exact absurd terminal (by simp [ReplayError.isTerminal])
  | _ => rfl

theorem run_run (p : Playback ρ η σ) :
    run p = runWithin (p.log.lastTime?.getD ⟨0⟩) p.enoughSteps p := rfl

theorem runUntil_run (target : Time) (p : Playback ρ η σ) :
    runUntil target p = runUntilWithin target p.enoughSteps p := rfl

theorem runWithin_succ (target : Time) (steps : Nat) (p : Playback ρ η σ) :
    runWithin target (steps + 1) p = match advance (some target) p with
      | .ok none q => .ok () q
      | .ok (some _) q => runWithin target steps q
      | .error e q => .error e q := by
  rw [runWithin, bind_run]
  cases advance (some target) p with
  | ok made q => cases made <;> rfl
  | error e q => rfl

/-! ## What every advance preserves -/

section Serving

variable {I : Playback ρ η σ → Prop} {E : ReplayError → Playback ρ η σ → Prop}

variable (advances : ∀ target p, I p → Ends I E (advance target p))

include advances

theorem runWithin_ends (target : Time) (steps : Nat) {p : Playback ρ η σ} (h : I p) :
    Ends I E (runWithin target steps p) := by
  induction steps generalizing p with
  | zero => exact h
  | succ steps ih =>
    refine (advances (some target) p h).bind ?_
    intro made q hq
    cases made with
    | none => exact hq
    | some step => exact ih hq

theorem runUntilWithin_ends (target : Time) (steps : Nat) {p : Playback ρ η σ} (h : I p) :
    Ends I E (runUntilWithin target steps p) := by
  induction steps generalizing p with
  | zero => exact h
  | succ steps ih =>
    have onward : Ends I E ((advance (some target) >>= fun made =>
        if made.isSome then runUntilWithin target steps else pure ()) p) := by
      refine (advances (some target) p h).bind ?_
      intro made q hq
      cases made with
      | none => exact hq
      | some step => exact ih hq
    simp only [runUntilWithin, bind_run, get_run]
    cases beyond : p.next?.any fun e => target < e.time with
    | true => exact h
    | false => exact onward

/-- If every advance ends well, every demand does. -/
theorem serve_ends (demand : Demand) {p : Playback ρ η σ}
    (toggles : ∀ stopped, (stopped = true → demand = .stop) → I { p with stopped }) (h : I p) :
    Ends I E (serve demand p) := by
  cases demand with
  | step => exact advances none p h
  | stepToward target => exact advances (some target) p h
  | run =>
    have ran : Ends I E (run p) := by
      rw [run_run]
      exact runWithin_ends advances _ _ h
    exact ran.bind fun _ _ hq => hq
  | runUntil target =>
    have ran : Ends I E (runUntil target p) := by
      rw [runUntil_run]
      exact runUntilWithin_ends advances target _ h
    exact ran.bind fun _ _ hq => hq
  | stop => exact toggles true fun _ => rfl
  | goOn => exact toggles false (by simp)

end Serving

section Induction

variable {I : List ReplayError → Playback ρ η σ → Prop}

variable (advances : ∀ target errs p, I errs p → Holds I errs (advance target p))

include advances

theorem serve_holds (demand : Demand) {errs : List ReplayError} {p : Playback ρ η σ}
    (toggles : ∀ stopped, (stopped = true → demand = .stop) → I errs { p with stopped })
    (h : I errs p) : Holds I errs (serve demand p) := by
  rw [holds_eq_ends]
  exact serve_ends (fun target q hq => holds_eq_ends I errs _ ▸ advances target errs q hq) demand
    toggles h

/-- **What every advance preserves is preserved by any mix of demands.** To be stopped may break it,
    if that is not among the demands. -/
theorem drive_induction (demands : List Demand)
    (toggles : ∀ stopped errs p, (stopped = true → .stop ∈ demands) → I errs p →
      I errs { p with stopped })
    {errs : List ReplayError} {p : Playback ρ η σ} (h : I errs p) :
    I (errs ++ errorsOf (drive demands p).1) (drive demands p).2 := by
  induction demands generalizing errs p with
  | nil => rw [drive, errorsOf_nil, List.append_nil]; exact h
  | cons demand demands ih =>
    have toggles' (stopped : Bool) (errs : List ReplayError) (p : Playback ρ η σ)
        (allowed : stopped = true → .stop ∈ demands) : I errs p → I errs { p with stopped } :=
      toggles stopped errs p fun h => List.mem_cons_of_mem _ (allowed h)
    have served := serve_holds advances demand (fun stopped isStop =>
      toggles stopped errs p (fun h => isStop h ▸ List.mem_cons_self) h) h
    rw [drive]
    cases hs : serve demand p with
    | ok step next =>
      rw [hs] at served
      exact ih toggles' served
    | error e next =>
      rw [hs] at served
      have rest := ih toggles' served
      rwa [List.append_assoc] at rest

end Induction

/-! ## Being stopped -/

/-- The playback need not stop, and never said that it was stopped. -/
structure Unstopped (errs : List ReplayError) (p : Playback ρ η σ) : Prop where
  going : p.stopped = false
  quiet : ∀ next, .aborted next ∉ errs

theorem Unstopped.advance (target : Option Time) (errs : List ReplayError) (p : Playback ρ η σ)
    (h : Unstopped errs p) : Holds Unstopped errs (Playback.advance target p) := by
  have advanced := advance_advanced target p
  generalize Playback.advance target p = r at advanced
  -- an error of any other kind says nothing of having been stopped
  have failed {err : ReplayError} {q : Playback ρ η σ} (going : q.stopped = p.stopped)
      (other : ∀ next, err ≠ .aborted next) :
      Holds Unstopped errs (.error err q : EStateM.Result _ _ (Option Step)) := by
    refine ⟨going.trans h.going, ?_⟩
    intro next mem
    rcases List.mem_append.1 mem with before | last
    · exact h.quiet next before
    · exact other next (List.mem_singleton.1 last).symm
  have rest (e : Event) (session : Session ρ η σ) :
      ((p.past e session).withCheckpoint e).atRest.stopped = p.stopped :=
    (withCheckpoint_frame (p.past e session) e).2.2.2.2.2
  cases advanced with
  | refused => exact failed rfl (by simp)
  | aborted _ stopped => exact absurd stopped (by simp [h.going])
  | finished => exact h
  | truncated => exact failed rfl (by simp)
  | outOfOrder => exact failed rfl (by simp)
  | unrestored => exact failed rfl (by simp)
  | passed => exact ⟨h.going, h.quiet⟩
  | passedRaising => exact failed rfl (by simp)
  | played _ e _ _ session => exact ⟨(rest e session).trans h.going, h.quiet⟩
  | playedRaising _ e _ _ session => exact failed (rest e session) (by simp)
  | failed _ e _ _ session err _ terminal =>
    refine failed rfl ?_
    rintro next rfl
    exact absurd terminal (by simp [ReplayError.isTerminal])

/-- A playback says that it was stopped only if it was. -/
theorem Unstopped.driven {demands : List Demand} (never : .stop ∉ demands)
    {errs : List ReplayError} {p : Playback ρ η σ} (h : Unstopped errs p) :
    Unstopped (errs ++ errorsOf (drive demands p).1) (drive demands p).2 := by
  refine drive_induction (fun target => Unstopped.advance target) demands ?_ h
  intro stopped errs q allowed h
  refine ⟨?_, h.quiet⟩
  cases stopped with
  | true => exact absurd (allowed rfl) never
  | false => rfl

end Playback

end Retrace
