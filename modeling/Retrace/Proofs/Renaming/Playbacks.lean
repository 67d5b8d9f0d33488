import Mathlib.Data.List.Forall2
import Retrace.Proofs.Renaming.Sessions
import Retrace.Proofs.Replay.Driving

/-!
# Going through a log under other handles

A playback decides where to go on by the events of the log, by which calls are open and by which
checkpoints there are. None of these are handles. So whatever is demanded of two playbacks that
differ in handles only, both answer alike and still differ in handles only (`drive_renamed`).
-/

namespace Retrace

/-- Two answers are the same but for the fault that they report. -/
inductive Answer.Like (fault : Fault → Fault → Prop) : Answer → Answer → Prop
  | ok (step : Option Step) : Like fault (.ok step) (.ok step)
  | error {e e' : ReplayError} (h : e.Like fault e') : Like fault (.error e) (.error e')

/-- Whether an error ends the replay does not hang on what it reports. -/
theorem ReplayError.Like.kind {fault : Fault → Fault → Prop} {e e' : ReplayError}
    (h : e.Like fault e') : e'.isTerminal = e.isTerminal ∧ e'.isUncaught = e.isUncaught := by
  cases h <;> exact ⟨rfl, rfl⟩

namespace Playback

variable {ρ η σ ρ' η' σ' : Type} [Engine ρ η σ] [Engine ρ' η' σ']

/-- The playback over the other engine, with the other handles. -/
def rename (R : Renaming ρ η σ ρ' η' σ') (p : Playback ρ η σ) : Playback ρ' η' σ' :=
  ⟨p.log, p.session.rename R, p.position, p.phase, p.last, p.stopped⟩

/-- The runs of two playbacks ended alike, in playbacks of which the second is the first renamed. -/
abbrev Parallel {α β : Type} (R : Renaming ρ η σ ρ' η' σ') (Q : α → β → Prop) :
    EStateM.Result ReplayError (Playback ρ η σ) α →
      EStateM.Result ReplayError (Playback ρ' η' σ') β → Prop :=
  Matched (fun p q => q = p.rename R) Q (ReplayError.Like R.fault)

section Steps

variable (R : Renaming ρ η σ ρ' η' σ') (p : Playback ρ η σ)

theorem atRest_rename : (p.rename R).atRest = p.atRest.rename R := by
  have empty : (p.rename R).session.stack.isEmpty = p.session.stack.isEmpty :=
    CallStack.isEmpty_rename R.handle p.session.stack
  unfold atRest
  rw [empty]
  rfl

theorem withCheckpoint_rename (e : Event) :
    (p.rename R).withCheckpoint e = (p.withCheckpoint e).rename R := by
  have found (begun : Time) : (p.rename R).callBegin? begun = p.callBegin? begun := rfl
  have taken (time : Time) : (p.rename R).session.checkpoint? time =
      (p.session.checkpoint? time).map (Checkpoint.rename R.handle R.snapshot) := by
    unfold Session.checkpoint?
    show (Engine.capture? (R.state p.session.engine)).map _ = _
    rw [R.capture]
    cases Engine.capture? p.session.engine <;> rfl
  unfold withCheckpoint
  cases e.callEnd? with
  | none => rfl
  | some call =>
    show (if call.depth = 0 ∧ p.session.settings.takeCheckpoints then _ else _) = _
    dsimp only
    rw [taken]
    split
    · cases p.session.checkpoint? e.time with
      | none => rfl
      | some c =>
        simp only [Option.map_some, attach, found]
        cases p.callBegin? call.begun with
        | none => rfl
        | some call =>
          simp only [Notes.addCheckpoint, rename, Session.rename, Notes.rename,
            Notes.once_mapValues]
    · rfl

theorem shortcut?_rename (e : Event) (target : Time) :
    (p.rename R).shortcut? e target = (p.shortcut? e target).map fun found =>
      (found.1, found.2.1.rename R.handle R.snapshot, found.2.2) := by
  have known : (p.rename R).session.notes.checkpoints.get? (p.rename R).position =
      (p.session.notes.checkpoints.get? p.position).map (Checkpoint.rename R.handle R.snapshot) :=
    OrderedMap.get?_mapValues ..
  have log : (p.rename R).log = p.log := rfl
  have settings : (p.rename R).session.settings = p.session.settings := rfl
  -- what decides about a shortcut are times and flags, which have no handles in them
  unfold shortcut?
  rw [known, log, settings]
  cases e.callBegin? with
  | none => rfl
  | some call =>
    cases p.session.notes.checkpoints.get? p.position with
    | none => rfl
    | some c =>
      cases p.log.matchingEnd? e.time with
      | none => rfl
      | some found =>
        obtain ⟨endPosition, ending⟩ := found
        simp only [Option.map_some, Option.bind_eq_bind, Option.bind_some]
        cases ending.callEnd? with
        | none => rfl
        | some callEnd =>
          simp only [Option.bind_some]
          by_cases may : p.session.settings.fastForward = true ∧ call.depth = 0 ∧
              ending.time ≤ target ∧ c.resumeAfter = ending.time
          · rw [if_pos may]
            exact if_pos may
          · rw [if_neg may]
            exact if_neg may

/-- Going back to a checkpoint goes back to the same under other handles. -/
theorem restore_renamed (c : Checkpoint η σ) (s : Session ρ η σ) :
    Matched (fun s t => t = s.rename R) Eq R.fault (Session.restore c s)
      (Session.restore (c.rename R.handle R.snapshot) (s.rename R)) := by
  unfold Session.restore
  rcases (R.restore c.snapshot s.engine).cases with
    ⟨_, engine, _, _, hs, ht, -, rfl⟩ | ⟨f, engine, g, _, hs, ht, like, rfl⟩
  · have ht : Engine.restore (c.rename R.handle R.snapshot).snapshot (s.rename R).engine =
      .ok () (R.state engine) := ht
    rw [hs, ht]
    exact ⟨rfl, rfl⟩
  · have ht : Engine.restore (c.rename R.handle R.snapshot).snapshot (s.rename R).engine =
      .error g (R.state engine) := ht
    rw [hs, ht]
    exact ⟨like, rfl⟩

theorem fastForward_renamed (e : Event) (call : CallBegin) (c : Checkpoint η σ) (endPosition : Nat)
    (ending : Event) (callEnd : CallEnd) :
    Parallel R Eq (fastForward e call c endPosition ending callEnd p)
      (fastForward e call (c.rename R.handle R.snapshot) endPosition ending callEnd
        (p.rename R)) := by
  have session : (p.rename R).session = p.session.rename R := rfl
  rw [fastForward_run, fastForward_run, session]
  rcases (restore_renamed R c p.session).cases with
    ⟨_, s, _, _, hs, ht, -, rfl⟩ | ⟨f, s, g, _, hs, ht, like, rfl⟩
  · rw [hs, ht]
    dsimp only
    split
    · exact ⟨.same _, rfl⟩
    · exact ⟨rfl, rfl⟩
  · rw [hs, ht]
    exact ⟨.executionFailure e.time .callBegin like, rfl⟩

theorem fault_renamed {α β : Type} (Q : α → β → Prop) (e : ReplayError) :
    Parallel R Q ((fault e : PlaybackM ρ η σ α) p)
      ((fault e : PlaybackM ρ' η' σ' β) (p.rename R)) :=
  ⟨.same e, rfl⟩

variable [DecidableEq η] [DecidableEq η']

theorem play_run (e : Event) :
    play e p = match Session.execute p.position e p.session with
      | .ok () session =>
        .ok (.executed e.time e.kind) ((p.past e session).withCheckpoint e).atRest
      | .error err session =>
        if err.isTerminal then .error err { p.past e session with phase := .faulted }
        else if err.isUncaught then .error err ((p.past e session).withCheckpoint e).atRest
        else .error err (p.past e session).atRest := by
  simp only [play, bind_run, get_run]
  cases Session.execute p.position e p.session with
  | ok u session => rfl
  | error err session => cases err <;> rfl

theorem play_renamed (e : Event) : Parallel R Eq (play e p) (play e (p.rename R)) := by
  have past (session : Session ρ η σ) :
      (p.rename R).past e (session.rename R) = (p.past e session).rename R := rfl
  rw [play_run, play_run]
  show Parallel R Eq _ (match Session.execute p.position e (p.session.rename R) with
    | .ok () session => _
    | .error err session => _)
  rcases (Session.execute_renamed R p.session p.position e).cases with
    ⟨_, s, _, _, hs, ht, -, rfl⟩ | ⟨err, s, err', _, hs, ht, like, rfl⟩
  · rw [hs, ht]
    refine ⟨rfl, ?_⟩
    rw [past, withCheckpoint_rename, atRest_rename]
  · rw [hs, ht]
    dsimp only
    rw [like.kind.1, like.kind.2, past, withCheckpoint_rename, atRest_rename, atRest_rename]
    split
    · exact ⟨like, rfl⟩
    split
    · exact ⟨like, rfl⟩
    · exact ⟨like, rfl⟩

/-- Passes by the root call that an event begins, or else replays the event. -/
def pass {ρ η σ : Type} [DecidableEq η] [Engine ρ η σ] (target : Option Time) (e : Event)
    (p : Playback ρ η σ) : PlaybackM ρ η σ (Option Step) :=
  match target.bind (p.shortcut? e) with
  | some (call, c, endPosition, ending, callEnd) =>
    some <$> fastForward e call c endPosition ending callEnd
  | none => some <$> play e

theorem pass_renamed (target : Option Time) (e : Event) :
    Parallel R Eq (pass target e p p) (pass target e (p.rename R) (p.rename R)) := by
  have shortcut : target.bind ((p.rename R).shortcut? e) =
      (target.bind (p.shortcut? e)).map fun found =>
        (found.1, found.2.1.rename R.handle R.snapshot, found.2.2) := by
    cases target with
    | none => rfl
    | some target => exact shortcut?_rename R p e target
  unfold pass
  rw [shortcut]
  cases target.bind (p.shortcut? e) with
  | none => exact (play_renamed R p e).map fun _ _ same => congrArg some same
  | some found =>
    exact (fastForward_renamed R p e found.1 found.2.1 found.2.2.1 found.2.2.2.1
      found.2.2.2.2).map fun _ _ same => congrArg some same

/-- **An advance ends alike under other handles.** -/
theorem advance_renamed (target : Option Time) :
    Parallel R Eq (advance target p) (advance target (p.rename R)) := by
  have phase : (p.rename R).phase = p.phase := rfl
  have flag : (p.rename R).stopped = p.stopped := rfl
  have last : (p.rename R).last = p.last := rfl
  have next : (p.rename R).next? = p.next? := rfl
  have outermost : (p.rename R).session.stack.outermost? = _ :=
    CallStack.outermost?_rename R.handle p.session.stack
  -- the checks before an event are about the log and the stack's times
  simp only [advance, bind_run, get_run, phase, flag, last, next, outermost]
  by_cases faulted : p.phase = .faulted
  · simp only [faulted, if_true]
    exact ⟨.same _, rfl⟩
  by_cases stopped : p.stopped = true
  · simp only [faulted, stopped, if_true, if_false]
    exact ⟨.same _, rfl⟩
  simp only [faulted, stopped, if_false]
  cases p.next? with
  | none =>
    cases p.session.stack.outermost? with
    | none => exact ⟨rfl, rfl⟩
    | some frame => exact fault_renamed R p Eq _
  | some e =>
    cases p.last with
    | none => exact pass_renamed R p target e
    | some previous =>
      dsimp only
      by_cases late : e.time ≤ previous
      · simp only [late, if_true]
        exact fault_renamed R p Eq _
      · simp only [late, if_false]
        exact pass_renamed R p target e

/-! ## Driving -/

theorem runWithin_renamed (target : Time) (steps : Nat) :
    Parallel R Eq (runWithin target steps p) (runWithin target steps (p.rename R)) := by
  induction steps generalizing p with
  | zero => exact ⟨rfl, rfl⟩
  | succ steps ih =>
    refine (advance_renamed R p (some target)).bind ?_
    rintro made _ q _ rfl rfl
    cases made with
    | none => exact ⟨rfl, rfl⟩
    | some step => exact ih q

theorem runUntilWithin_renamed (target : Time) (steps : Nat) :
    Parallel R Eq (runUntilWithin target steps p) (runUntilWithin target steps (p.rename R)) := by
  have next (p : Playback ρ η σ) : (p.rename R).next? = p.next? := rfl
  induction steps generalizing p with
  | zero => exact ⟨rfl, rfl⟩
  | succ steps ih =>
    have onward : Parallel R Eq
        ((advance (some target) >>= fun made =>
          if made.isSome then runUntilWithin target steps else pure ()) p)
        ((advance (some target) >>= fun made =>
          if made.isSome then runUntilWithin target steps else pure ()) (p.rename R)) := by
      refine (advance_renamed R p (some target)).bind ?_
      rintro made _ q _ rfl rfl
      cases made with
      | none => exact ⟨rfl, rfl⟩
      | some step => exact ih q
    simp only [runUntilWithin, bind_run, get_run, next]
    cases beyond : p.next?.any fun e => target < e.time with
    | true => exact ⟨rfl, rfl⟩
    | false => exact onward

theorem serve_renamed (demand : Demand) :
    Parallel R Eq (serve demand p) (serve demand (p.rename R)) := by
  cases demand with
  | step => exact advance_renamed R p none
  | stepToward target => exact advance_renamed R p (some target)
  | run =>
    have ran : Parallel R Eq (run p) (run (p.rename R)) :=
      runWithin_renamed R p (p.log.lastTime?.getD ⟨0⟩) p.enoughSteps
    exact ran.bind fun _ _ _ _ _ same => ⟨rfl, same⟩
  | runUntil target =>
    have ran : Parallel R Eq (runUntil target p) (runUntil target (p.rename R)) :=
      runUntilWithin_renamed R p target p.enoughSteps
    exact ran.bind fun _ _ _ _ _ same => ⟨rfl, same⟩
  | stop => exact ⟨rfl, rfl⟩
  | goOn => exact ⟨rfl, rfl⟩

/-- **However two playbacks are driven that differ in handles only, they answer alike.** -/
theorem drive_renamed (demands : List Demand) :
    List.Forall₂ (Answer.Like R.fault) (drive demands p).1 (drive demands (p.rename R)).1 ∧
      (drive demands (p.rename R)).2 = (drive demands p).2.rename R := by
  induction demands generalizing p with
  | nil => exact ⟨.nil, rfl⟩
  | cons demand demands ih =>
    simp only [drive]
    rcases (serve_renamed R p demand).cases with
      ⟨step, q, _, _, hs, ht, rfl, rfl⟩ | ⟨e, q, e', _, hs, ht, like, rfl⟩
    · rw [hs, ht]
      exact ⟨.cons (.ok step) (ih q).1, (ih q).2⟩
    · rw [hs, ht]
      exact ⟨.cons (.error like) (ih q).1, (ih q).2⟩

end Steps
end Playback
end Retrace
