import Retrace.Proofs.Replay.FastForward
import Retrace.Proofs.Replay.Halting
import Retrace.Proofs.Replay.Leniency
import Retrace.Proofs.Replay.Structure

/-!
# Which failures fast-forward may hide

A checkpoint outlives the playback that took it, and does not say under which settings the call was
found to be in order. A later playback that passes the call by does not look again: if it is meant
to verify outcomes and the earlier one was not, or to allow fewer open calls, a failure of just
these checks within the call goes unnoticed. Nothing else does
(`Playback.fast_forward_hides_only_extra_checks`).

All playbacks here keep to the course of the log under settings that are at least as lax as those of
any of them (`Stands`). They need not be of a well-formed log: it is enough that a playback has come
to where it stands in order (`Log.Timely`), and that the end by which it passes a call is the one at
which the checkpoint was taken. For the latter no end may be recorded twice at one time
(`Log.EndsOnce`); with a second copy further on, everything between the two would be skipped.
-/

namespace Retrace

open Session (Abreast)

/-! ## Checkpoints that fit -/

/-- A checkpoint noted at position `i` is one of a root call that begins there, on a course that is
    in order up to the end of the call. -/
def FitsInOrder (log : Log) (start : SandboxSession) (i : Nat)
    (cp : Checkpoint ObjectRef SandboxSnapshot) : Prop :=
  ∃ j begin_ ending call callEnd b d, log.RootCall start i j begin_ ending call callEnd b d ∧
    log.Timely (j + 1) ∧
    cp = ⟨d.session.engine.snapshot, d.session.tags, d.session.callbacks, d.session.pending,
      ending.time⟩

/-- As far as a replay that executes every event comes, the checkpoints fit. -/
def FitAsFar (log : Log) (start : SandboxSession) (notes : Notes ObjectRef SandboxSnapshot) :
    Prop :=
  ∀ i cp, notes.checkpoints.get? i = some cp → log.Timely (i + 1) →
    ∀ b, log.course start i = .ok b → FitsInOrder log start i cp

namespace Playback

/-- A playback that has not faulted stands abreast of the course under the laxer settings. -/
structure Stands (log : Log) (engine : Sandbox) (settings lax : Settings) (errs : List ReplayError)
    (p : OfSandbox) : Prop where
  isLog : p.log = log
  under : p.session.settings = settings
  sound : p.phase ≠ .faulted
  last : p.last = log.timeBefore? p.position
  clean : errs.find? ReplayError.isTerminal = none
  course : ∃ d, log.Reaches (reference engine lax) p.position d ∧
    Abreast engine.contexts p.session.notes.checkpoints d.session (p.session.under lax)

/-- A playback that has faulted has done so by a check that the laxer settings do not make, or where
    the course under those ends. -/
structure Fell (log : Log) (engine : Sandbox) (settings lax : Settings) (errs : List ReplayError)
    (p : OfSandbox) : Prop where
  faulted : p.phase = .faulted
  fault : ∃ err, errs.find? ReplayError.isTerminal = some err ∧
    (err.Extra settings lax ∨ log.StopsAt (reference engine lax) p.position (some err))

/-- What is known of a playback that is driven. Whether its checkpoints fit may be of no interest,
    if it does not use them. -/
structure Abides (log : Log) (engine : Sandbox) (settings lax : Settings) (trusted : Prop)
    (errs : List ReplayError) (p : OfSandbox) : Prop where
  known : trusted → FitAsFar log (reference engine lax) p.session.notes
  state : Stands log engine settings lax errs p ∨ Fell log engine settings lax errs p

section Advance

variable {log : Log} {engine : Sandbox} {settings lax : Settings} {errs : List ReplayError}
variable {p : OfSandbox} {e : Event}

theorem Stands.next (h : Stands log engine settings lax errs p) (next : p.next? = some e) :
    log.get? p.position = some e := by
  rw [← h.isLog]
  exact next

theorem Stands.timely (h : Stands log engine settings lax errs p) (facing : p.Facing e) :
    log.Timely (p.position + 1) := by
  obtain ⟨d, reaches, -⟩ := h.course
  exact reaches.timely.succ (h.next facing.next) fun previous before =>
    facing.ordered previous (h.last.trans before)

theorem Stands.aborted (h : Stands log engine settings lax errs p) (next : Option Time) :
    Stands log engine settings lax (errs ++ [.aborted next]) p := by
  refine { h with clean := ?_ }
  rw [find?_append_of_none h.clean]
  rfl

theorem Stands.quiet (h : Stands log engine settings lax errs p) (root ended : Time)
    (terminating : Bool) :
    (errs ++ [ReplayError.uncaughtException root ended terminating]).find?
      ReplayError.isTerminal = none := by
  rw [find?_append_of_none h.clean]
  rfl

/-- Errors that come after the one that ended the replay say nothing new. -/
theorem Fell.more (h : Fell log engine settings lax errs p) (err : ReplayError) :
    Fell log engine settings lax (errs ++ [err]) p := by
  obtain ⟨first, found, place⟩ := h.fault
  exact ⟨h.faulted, first, by rw [List.find?_append, found]; rfl, place⟩

theorem Abides.toggle {trusted : Prop} (h : Abides log engine settings lax trusted errs p)
    (stopped : Bool) : Abides log engine settings lax trusted errs { p with stopped } := by
  refine ⟨h.known, ?_⟩
  rcases h.state with stands | fell
  · exact Or.inl { stands with }
  · exact Or.inr ⟨fell.faulted, fell.fault⟩

/-- The playback stands abreast of itself. -/
theorem Stands.standing (h : Stands log engine settings lax errs p) :
    p.session.Standing engine.contexts := by
  obtain ⟨d, -, abreast⟩ := h.course
  exact ⟨⟨rfl, abreast.engine.right, abreast.engine.right⟩, rfl, rfl, rfl, rfl, rfl, rfl, rfl, rfl,
    abreast.right, abreast.right, rfl⟩

/-- The course gets past an event that the playback gets past. -/
theorem Stands.executes (h : Stands log engine settings lax errs p)
    (stricter : settings.Stricter lax) {d : Course Sandbox ObjectRef SandboxSnapshot}
    (abreast :
      Abreast engine.contexts p.session.notes.checkpoints d.session (p.session.under lax)) :
    Session.Overchecked settings lax (Session.execute p.position e p.session) ∨
      Matched (fun s t => Abreast engine.contexts p.session.notes.checkpoints s (t.under lax)) Eq Eq
        (Session.execute p.position e d.session) (Session.execute p.position e p.session) := by
  have stricter : p.session.settings.Stricter lax := h.under ▸ stricter
  rw [← h.under]
  refine (Session.execute_under stricter p.position e).imp_right fun like => ?_
  have together := Session.execute_abreast abreast p.position p.position e
  rcases like.cases with ⟨_, s, _, _, hs, ht, rfl, rfl⟩ | ⟨_, s, _, _, hs, ht, rfl, rfl⟩
  · rw [ht] at together
    obtain ⟨_, _, run, -, abreast'⟩ := together.of_ok
    rw [hs, run]
    exact ⟨rfl, abreast'⟩
  · rw [ht] at together
    obtain ⟨_, _, run, rfl, abreast'⟩ := together.of_error
    rw [hs, run]
    exact ⟨rfl, abreast'⟩

/-- A checkpoint that is noted behind an event fits, if those before it do. -/
theorem Stands.fit_withCheckpoint (h : Stands log engine settings lax errs p)
    {c d : Course Sandbox ObjectRef SandboxSnapshot} {session : SandboxSession}
    (known : FitAsFar log (reference engine lax) session.notes)
    (here : log.course (reference engine lax) p.position = .ok c) (facing : p.Facing e)
    (after : c.after p.position e = .ok d)
    (abreast : Abreast engine.contexts session.notes.checkpoints d.session (session.under lax)) :
    FitAsFar log (reference engine lax) ((p.past e session).withCheckpoint e).session.notes := by
  intro i cp found inOrder b there
  rcases noted_behind rfl h.isLog here (h.next facing.next) after found with
    old | ⟨k, first, call, callEnd, b', f, root, here', named, rfl⟩
  · exact known i cp old inOrder b there
  have timely := h.timely facing
  -- the log is in order up to both events, so there is only one of that time
  obtain rfl : i = k := by
    have less := root.less
    rcases Nat.le_total i p.position with before | behind
    · exact timely.unique (by omega) (by omega) here' root.first named
    · exact inOrder.unique (by omega) (by omega) here' root.first named
  refine ⟨p.position, first, e, call, callEnd, b', d, root, timely, ?_⟩
  rw [abreast.engine.snapshot, abreast.tags, abreast.callbacks, abreast.pending]
  rfl

/-- An event that the course gets past, the playback gets past too. -/
theorem Stands.past (h : Stands log engine settings lax errs p)
    {c d : Course Sandbox ObjectRef SandboxSnapshot} {session : SandboxSession}
    {errs' : List ReplayError} (here : log.course (reference engine lax) p.position = .ok c)
    (facing : p.Facing e) (after : c.after p.position e = .ok d)
    (abreast : Abreast engine.contexts session.notes.checkpoints d.session (session.under lax))
    (unchanged : session.settings = p.session.settings)
    (clean : errs'.find? ReplayError.isTerminal = none) :
    Stands log engine settings lax errs' ((p.past e session).withCheckpoint e).atRest := by
  have behind := behind_rested p e session
  obtain ⟨notes, noted⟩ := behind.noted
  have next := h.next facing.next
  refine ⟨behind.isLog.trans h.isLog, ?_, behind.sound, ?_, clean, d, ?_, ?_⟩
  · rw [noted]
    exact unchanged.trans h.under
  · rw [behind.position, behind.last, Log.timeBefore?_succ next]
  · rw [behind.position]
    exact ⟨h.timely facing, Log.get?_lt next, (Log.course_succ here next).trans after⟩
  · rw [noted]
    exact { abreast with checkpoints := rfl }

/-- The checkpoint that may be restored is the one of this very call, up to this very end. -/
theorem Stands.shortcut {ending : Event} {target : Option Time} {call : CallBegin}
    {cp : Checkpoint ObjectRef SandboxSnapshot} {endPosition : Nat} {callEnd : CallEnd}
    (h : Stands log engine settings lax errs p) (once : log.EndsOnce)
    (known : FitAsFar log (reference engine lax) p.session.notes) (facing : p.Facing e)
    (shortcut : target.bind (p.shortcut? e) = some (call, cp, endPosition, ending, callEnd)) :
    ∃ b d, log.RootCall (reference engine lax) p.position endPosition e ending call callEnd b d ∧
      log.Timely (endPosition + 1) ∧
      cp = ⟨d.session.engine.snapshot, d.session.tags, d.session.callbacks, d.session.pending,
        ending.time⟩ := by
  obtain ⟨isBegin, -, noted, final, isEnd, named, resume⟩ := shortcut?_leads shortcut
  obtain ⟨c, reaches, -⟩ := h.course
  obtain ⟨j, begin_, ending', call', callEnd', b, d, root, timely, rfl⟩ :=
    known p.position cp noted (h.timely facing) c reaches.course
  obtain rfl : begin_ = e := Option.some.inj (root.first.symm.trans (h.next facing.next))
  obtain rfl : call' = call :=
    Option.some.inj ((Event.callBegin?_eq_some.2 root.begins).symm.trans isBegin)
  rw [h.isLog] at final
  -- both ends name the call, and they are of one time
  obtain rfl : j = endPosition := once.unique root.final final root.ends
    (Event.callEnd?_eq_some.1 isEnd) (root.named.trans named.symm) resume
  obtain rfl : ending' = ending := Option.some.inj (root.final.symm.trans final)
  obtain rfl : callEnd' = callEnd :=
    Option.some.inj ((Event.callEnd?_eq_some.2 root.ends).symm.trans isEnd)
  exact ⟨b, d, root, timely, rfl⟩

/-- Restoring a checkpoint that fits comes to where the course is behind the call. -/
theorem Stands.beyond {ending : Event} {target : Option Time} {call : CallBegin}
    {cp : Checkpoint ObjectRef SandboxSnapshot} {endPosition : Nat} {callEnd : CallEnd}
    {session : SandboxSession} {errs' : List ReplayError}
    (h : Stands log engine settings lax errs p) (once : log.EndsOnce)
    (known : FitAsFar log (reference engine lax) p.session.notes) (facing : p.Facing e)
    (shortcut : target.bind (p.shortcut? e) = some (call, cp, endPosition, ending, callEnd))
    (restore : Session.restore cp p.session = .ok () session)
    (clean : errs'.find? ReplayError.isTerminal = none) :
    session.notes = p.session.notes ∧
      Stands log engine settings lax errs' (p.beyond e call endPosition ending session) := by
  obtain ⟨b, d, root, timely, rfl⟩ := h.shortcut once known facing shortcut
  obtain ⟨c, reaches, abreast⟩ := h.course
  have settings : d.session.settings = lax := Log.course_settings root.after
  obtain rfl := (EStateM.Result.ok.inj restore).2
  have restored := restored_abreast (s := p.session.under lax) root
    (Log.course_standing (reference_standing engine lax) root.after) abreast.engine.right
    (settings ▸ rfl) (settings ▸ rfl) rfl
  exact ⟨rfl, h.isLog, h.under, by simp [Playback.beyond], (Log.timeBefore?_succ root.final).symm,
    clean, d, ⟨timely, Log.get?_lt root.final, root.after⟩, restored⟩

/-- At the end of the log it stops with the error that is due there. -/
theorem Stands.stops_atEnd (h : Stands log engine settings lax errs p) (next : p.next? = none) :
    log.StopsAt (reference engine lax) p.position
      (p.session.stack.outermost?.map fun frame => .truncatedLog frame.begun) := by
  obtain ⟨c, reaches, abreast⟩ := h.course
  have none : log.get? p.position = none := h.isLog ▸ next
  have outside : log.size ≤ p.position := Array.getElem?_eq_none_iff.1 none
  refine ⟨p.position, c, reaches, fun d further => ?_, ?_⟩
  · have within := further.within
    omega
  · rw [Log.stop, none]
    show (_, c.session.stack.outermost?.map _) = _
    rw [CallStack.outermost?, abreast.frames]
    rfl

/-- An event that is not later than the one before it ends every replay. -/
theorem Stands.stops_late (h : Stands log engine settings lax errs p) (next : p.next? = some e)
    {previous : Time} (last : p.last = some previous) (late : e.time ≤ previous) :
    log.StopsAt (reference engine lax) p.position (some (.outOfOrder previous e.time)) := by
  obtain ⟨c, reaches, -⟩ := h.course
  have next := h.next next
  have before : log.timeBefore? p.position = some previous := h.last.symm.trans last
  refine ⟨p.position, c, reaches, fun d further => ?_, ?_⟩
  · exact Time.not_le.2 (further.timely.follows (Nat.lt_succ_self _) next before) late
  · rw [Log.stop, next, before]
    exact if_pos late

theorem Fell.of (h : Stands log engine settings lax errs p) {q : OfSandbox} {err : ReplayError}
    (faulted : q.phase = .faulted) (terminal : err.isTerminal = true)
    (cause : err.Extra settings lax ∨ log.StopsAt (reference engine lax) q.position (some err)) :
    Fell log engine settings lax (errs ++ [err]) q :=
  ⟨faulted, err, by rw [find?_append_of_none h.clean, if_pos terminal], cause⟩

theorem Abides.past {trusted : Prop} (h : Abides log engine settings lax trusted errs p)
    (stands : Stands log engine settings lax errs p)
    {c d : Course Sandbox ObjectRef SandboxSnapshot} {session : SandboxSession}
    {errs' : List ReplayError} (here : log.course (reference engine lax) p.position = .ok c)
    (facing : p.Facing e) (after : c.after p.position e = .ok d)
    (abreast : Abreast engine.contexts p.session.notes.checkpoints d.session (session.under lax))
    (unchanged : session.settings = p.session.settings)
    (clean : errs'.find? ReplayError.isTerminal = none) :
    Abides log engine settings lax trusted errs' ((p.past e session).withCheckpoint e).atRest := by
  have same : session.notes.checkpoints = p.session.notes.checkpoints := abreast.checkpoints
  rw [← same] at abreast
  refine ⟨fun trust => ?_, Or.inl (stands.past here facing after abreast unchanged clean)⟩
  refine stands.fit_withCheckpoint (fun i cp found => ?_) here facing after abreast
  exact h.known trust i cp (same ▸ found)

section Kept

variable {trusted : Prop} (once : log.EndsOnce) (stricter : settings.Stricter lax)
variable (careful : settings.fastForward = true → trusted)

include careful in
theorem Stands.trusts (h : Stands log engine settings lax errs p) {target : Option Time}
    {found : CallBegin × Checkpoint ObjectRef SandboxSnapshot × Nat × Event × CallEnd}
    (shortcut : target.bind (p.shortcut? e) = some found) : trusted := by
  refine careful (by_contra fun off => ?_)
  have plain : p.session.settings.fastForward = false := by
    rw [h.under]
    simpa using off
  exact absurd shortcut (by simp [shortcut?_plain plain])

include once stricter careful

/-- **Every advance keeps to the course under the laxer settings, or ends the replay by a check that
    those do not make.** -/
theorem Abides.kept (target : Option Time) (errs : List ReplayError) (p : OfSandbox)
    (h : Abides log engine settings lax trusted errs p) :
    Holds (Abides log engine settings lax trusted) errs (advance target p) := by
  have advanced := advance_advanced target p
  generalize Playback.advance target p = r at advanced
  rcases h.state with stands | fell
  case inr =>
    obtain rfl := advanced.refuses fell.faulted
    exact ⟨h.known, Or.inr (fell.more .faulted)⟩
  obtain ⟨c, reaches, abreast⟩ := stands.course
  cases advanced with
  | refused fault => exact absurd fault stands.sound
  | aborted => exact ⟨h.known, Or.inl (stands.aborted _)⟩
  | finished => exact h
  -- an open call at the end of the log, or a late event,
  -- stops the course under the laxer settings too
  | truncated _ none frame isOpen =>
    have stops := stands.stops_atEnd none
    rw [isOpen] at stops
    exact ⟨h.known, Or.inr (.of stands rfl rfl (Or.inr stops))⟩
  | outOfOrder _ e previous next last late =>
    exact ⟨h.known, Or.inr (.of stands rfl rfl (Or.inr (stands.stops_late next last late)))⟩
  -- a sandbox can always be put back to what was captured
  | unrestored _ e _ call cp endPosition ending callEnd _ fault session restore =>
    exact absurd restore (by simp [Session.restore, Engine.restore])
  | passed _ e facing call cp endPosition ending callEnd shortcut session restore =>
    have known := h.known (stands.trusts careful shortcut)
    obtain ⟨same, beyond⟩ := stands.beyond once known facing shortcut restore stands.clean
    exact ⟨fun _ => show FitAsFar log _ session.notes from same ▸ known, Or.inl beyond⟩
  | passedRaising _ e facing call cp endPosition ending callEnd shortcut session restore =>
    have known := h.known (stands.trusts careful shortcut)
    obtain ⟨same, beyond⟩ := stands.beyond once known facing shortcut restore
      (stands.quiet e.time ending.time callEnd.terminatingException)
    exact ⟨fun _ => show FitAsFar log _ session.notes from same ▸ known, Or.inl beyond⟩
  -- an event that passes has failed no check, so it passes under the laxer settings too
  | played _ e facing _ session run =>
    rcases stands.executes stricter abreast with strict | together
    · rw [run] at strict
      exact strict.elim
    rw [run] at together
    obtain ⟨u, session', run', -, abreast'⟩ := together.of_ok
    have after := Course.after_of_ok run'
    have unchanged : session.settings = p.session.settings := by
      have executed := Session.execute_executed p.position e p.session
      rw [run] at executed
      cases executed with
      | done _ _ settings => exact settings
    exact h.past stands reaches.course facing after abreast' unchanged stands.clean
  | playedRaising _ e facing _ session root ended terminating run =>
    rcases stands.executes stricter abreast with strict | together
    · rw [run] at strict
      exact strict.elim
    rw [run] at together
    obtain ⟨err, session', run', rfl, abreast'⟩ := together.of_error
    have after := Course.after_of_passing run' rfl
    have unchanged : session.settings = p.session.settings := by
      have executed := Session.execute_executed p.position e p.session
      rw [run] at executed
      cases executed with
      | uncaught _ _ _ _ settings => exact settings
      | failed _ _ operational =>
        exact absurd operational.terminal (by simp [ReplayError.isTerminal])
    exact h.past stands reaches.course facing after abreast' unchanged
      (stands.quiet root ended terminating)
  | failed _ e facing _ session err run terminal =>
    -- an event that fails takes no checkpoint
    have itself := Session.execute_abreast stands.standing p.position p.position e
    rw [run] at itself
    have same : session.notes.checkpoints = p.session.notes.checkpoints := itself.2.checkpoints
    refine ⟨fun trust i cp found => h.known trust i cp (same ▸ found), Or.inr ?_⟩
    rcases stands.executes stricter abreast with strict | together
    · rw [run] at strict
      exact .of stands rfl terminal (Or.inl strict)
    · rw [run] at together
      obtain ⟨err', session', run', rfl, -⟩ := together.of_error
      have after := Course.after_of_terminal run' terminal
      exact .of stands rfl terminal (Or.inr (Log.stopsAt_of_failure reaches.course
        (stands.timely facing) (stands.next facing.next) after))

/-- However it is driven, a playback does so. -/
theorem Abides.driven (h : Abides log engine settings lax trusted errs p) (demands : List Demand) :
    Abides log engine settings lax trusted (errs ++ errorsOf (drive demands p).1)
      (drive demands p).2 :=
  drive_induction (Abides.kept once stricter careful) demands
    (fun stopped _ _ _ h => h.toggle stopped) h

omit stricter in
/-- An advance that does not end the replay leaves fewer events. -/
theorem Abides.ahead (h : Abides log engine settings lax trusted errs p) (going : p.stopped = false)
    {target : Option Time} {r : EStateM.Result ReplayError OfSandbox (Option Step)}
    (advanced : Advanced target p r) : GoesOn (Ahead p) r := by
  refine ahead_of_advanced going
    (fun e call cp endPosition ending callEnd ready facing shortcut => ?_) advanced
  rcases h.state with stands | fell
  · obtain ⟨b, d, root, -⟩ :=
      stands.shortcut once (h.known (stands.trusts careful shortcut)) facing shortcut
    exact Nat.le_of_lt root.less
  · exact absurd fell.faulted ready.sound

/-- It comes to an end, if it is not stopped. -/
theorem Abides.finishes (h : Abides log engine settings lax trusted errs p)
    (going : p.stopped = false) (target : Option Time) :
    ∃ n errs' q, Finishes target p n errs' q ∧ n ≤ p.left := by
  refine finishes_of_ahead (M := fun p => ∃ errs, Abides log engine settings lax trusted errs p)
    ?_ ?_ ⟨errs, h⟩ going
  · rintro p ⟨errs, abides⟩
    exact (abides.kept once stricter careful target).goesOn
  · rintro p ⟨errs, abides⟩ going
    exact abides.ahead once careful going (advance_advanced target p)

/-- Made to run often enough, it stops where the course under the laxer settings does, unless a
    check that those do not make has ended it before. -/
theorem Abides.stops (h : Abides log engine settings lax trusted [] p) (going : p.stopped = false)
    (isLog : p.log = log) :
    let ran := drive (List.replicate (log.size + 2) .run) p
    (∃ err, firstTerminal ran.1 = some err ∧ err.Extra settings lax) ∨
      log.StopsAt (reference engine lax) ran.2.position (firstTerminal ran.1) := by
  intro ran
  rcases (h.driven once stricter careful (List.replicate (log.size + 2) .run)).state with
    stands | fell
  · have stands : Stands log engine settings lax ([] ++ errorsOf ran.1) ran.2 := stands
    have clean : firstTerminal ran.1 = none := stands.clean
    have rests := rests_of_finishes (h.finishes once stricter careful going (some p.horizon))
      (Nat.le_of_eq (isLog ▸ rfl)) clean
    have advanced := advance_advanced (some p.horizon) ran.2
    rw [rests] at advanced
    cases advanced with
    | finished _ next closed =>
      have stops := stands.stops_atEnd next
      rw [closed] at stops
      exact Or.inr (clean ▸ stops)
  · obtain ⟨err, found, cause⟩ := fell.fault
    have found : firstTerminal ran.1 = some err := found
    rcases cause with extra | stops
    · exact Or.inl ⟨err, found, extra⟩
    · exact Or.inr (found ▸ stops)

end Kept

/-- A playback at the start of the log stands at the start of the course. -/
theorem Abides.started {trusted : Prop} {notes : Notes ObjectRef SandboxSnapshot}
    (known : trusted → FitAsFar log (reference engine lax) notes) :
    Abides log engine settings lax trusted [] (start log (.start engine settings notes)) := by
  refine ⟨known, Or.inl ⟨rfl, rfl, by simp [start], rfl, rfl, ⟨reference engine lax, []⟩,
    ⟨fun i j e f _ inside => absurd inside (Nat.not_lt_zero j), Nat.zero_le _, rfl⟩,
    ⟨⟨rfl, rfl, rfl⟩, rfl, rfl, rfl, rfl, rfl, rfl, rfl, rfl, ?_, ?_, rfl⟩⟩⟩
  · exact fun _ h => absurd h (by simp [reference, Session.start])
  · exact fun _ h => absurd h (by simp [start, Session.start, Session.under])

end Advance

/-! ## What earlier playbacks leave behind -/

/-- What can be known of a log from earlier playbacks under these settings: nothing, or what the
    last of them knew in the end, whatever was asked of it. -/
inductive LearnedUnder (log : Log) (engine : Sandbox) :
    List Settings → Notes ObjectRef SandboxSnapshot → Prop
  | nothing : LearnedUnder log engine [] .empty
  | replay {earlier : List Settings} {notes : Notes ObjectRef SandboxSnapshot}
      (before : LearnedUnder log engine earlier notes) (settings : Settings)
      (demands : List Demand) :
      LearnedUnder log engine (settings :: earlier)
        (drive demands (start log (.start engine settings notes))).2.session.notes

section Learned

variable {log : Log} {engine : Sandbox} {lax c : Settings} {earlier : List Settings}
variable {notes : Notes ObjectRef SandboxSnapshot}

/-- What was learned under settings that are no laxer than these fits the course under these. -/
theorem LearnedUnder.fits (once : log.EndsOnce) (learned : LearnedUnder log engine earlier notes)
    (stricter : ∀ settings ∈ earlier, settings.Stricter lax) :
    FitAsFar log (reference engine lax) notes := by
  induction learned with
  | nothing => exact fun i cp found => absurd found (by simp [Notes.empty])
  | replay _ settings demands ih =>
    have known := ih fun s mem => stricter s (List.mem_cons_of_mem _ mem)
    have started : Abides log engine settings lax True [] _ := .started fun _ => known
    exact (started.driven once (stricter settings List.mem_cons_self) (fun _ => trivial)
      demands).known trivial

/-- A root call, from its begin at `i` to its end at `j`, has a checkpoint. -/
structure Checkpointed (log : Log) (notes : Notes ObjectRef SandboxSnapshot) (i j : Nat)
    (begin_ ending : Event) (call : CallBegin) (callEnd : CallEnd) : Prop where
  first : log.get? i = some begin_
  begins : begin_.action = .callBegin call
  depth : call.depth = 0
  final : log.get? j = some ending
  ends : ending.action = .callEnd callEnd
  named : callEnd.begun = begin_.time
  noted : ∃ cp, notes.checkpoints.get? i = some cp ∧ cp.resumeAfter = ending.time

/-- Under these settings, fast-forward may hide an error right before a position: a check raises it
    that was not made by some earlier playback, and within a root call that has a checkpoint. -/
def MayHide (log : Log) (notes : Notes ObjectRef SandboxSnapshot) (earlier : List Settings)
    (settings : Settings) (position : Nat) (err : ReplayError) : Prop :=
  (∃ before ∈ earlier, err.Extra settings before) ∧
    ∃ i j begin_ ending call callEnd, Checkpointed log notes i j begin_ ending call callEnd ∧
      i < position ∧ position ≤ j + 1

/-- The course under stricter settings goes all through a root call that has a checkpoint, or it
    ends there by an error that may be hidden. -/
theorem LearnedUnder.fits_or_hides (once : log.EndsOnce)
    (learned : LearnedUnder log engine earlier notes) (settings : Settings) :
    FitAsFar log (reference engine settings) notes ∨ ∃ position err,
      log.StopsAt (reference engine settings) position (some err) ∧
        MayHide log notes earlier settings position err := by
  by_cases hides : ∃ position err, log.StopsAt (reference engine settings) position (some err) ∧
      MayHide log notes earlier settings position err
  · exact Or.inr hides
  refine Or.inl fun i cp found inOrder b here => ?_
  -- the checkpoint fits the course under the laxest settings, which is this one as far as this goes
  have under := @Log.course_under Sandbox ObjectRef SandboxSnapshot _ _ log
    (settings.laxest earlier) (reference engine settings) (settings.stricter_laxest earlier)
  have here' := under i
  rw [here] at here'
  obtain ⟨j, begin_, ending, call, callEnd, b', d', root, timely, rfl⟩ :=
    learned.fits once (fun s mem => settings.stricter_laxest_of_mem mem) i cp found inOrder _ here'
  obtain rfl : b' = b.under (settings.laxest earlier) :=
    Except.ok.inj (root.before.symm.trans here')
  have there := under (j + 1)
  cases after : log.course (reference engine settings) (j + 1) with
  | ok d =>
    rw [after] at there
    obtain rfl : d' = d.under (settings.laxest earlier) :=
      Except.ok.inj (root.after.symm.trans there)
    exact ⟨j, begin_, ending, call, callEnd, b, d, { root with
      before := here
      after := after
      closed := root.closed
      root := root.root
      rootCallback := root.rootCallback
      uncaught := root.uncaught }, timely, rfl⟩
  | error err =>
    rw [after] at there
    have extra : err.Extra settings (settings.laxest earlier) :=
      there.resolve_right fun failed => absurd (root.after.symm.trans failed) (by simp)
    obtain ⟨n, c, e, reached, inside, before, next, failure⟩ := Log.course_breaks here after
    exact absurd ⟨n + 1, err, Log.stopsAt_of_failure before (timely.mono inside) next failure,
      extra.of_laxest, i, j, begin_, ending, call, callEnd, ⟨root.first, root.begins, root.depth,
        root.final, root.ends, root.named, _, found, rfl⟩, Nat.lt_succ_of_le reached, inside⟩ hides

end Learned

/-- **Fast-forward hides no failure but those of checks that an earlier playback did not make.**
    Take any log, however malformed, but that no end of a call is recorded twice at one time; any
    playbacks of it, whatever their settings and whatever was asked of them, each of which left its
    checkpoints to the next; and any settings for one more. Made to run to the end with fast-forward
    and without, it ends by the same error at the same event, or by none in both cases, at the end
    of the log. Or else what ends it without fast-forward lies within a root call that has a
    checkpoint, and is raised by a check that one of the earlier playbacks did not make. -/
theorem fast_forward_hides_only_extra_checks {log : Log} (once : log.EndsOnce) {engine : Sandbox}
    {earlier : List Settings} {notes : Notes ObjectRef SandboxSnapshot}
    (learned : LearnedUnder log engine earlier notes) (settings : Settings) :
    let ran (fastForward : Bool) := drive (List.replicate (log.size + 2) .run)
      (start log (.start engine { settings with fastForward } notes))
    (firstTerminal (ran true).1 = firstTerminal (ran false).1 ∧
        (ran true).2.position = (ran false).2.position ∧
        (firstTerminal (ran true).1 = none → (ran true).2.position = log.size)) ∨
      ∃ err, firstTerminal (ran false).1 = some err ∧
        MayHide log notes earlier settings (ran false).2.position err := by
  intro ran
  -- no settings leave out a check of their own
  have same (fastForward : Bool) : ({ settings with fastForward } : Settings).Stricter settings :=
    ⟨Nat.le_refl _, id⟩
  have own (fastForward : Bool) (err : ReplayError) :
      ¬ err.Extra { settings with fastForward } settings :=
    ReplayError.not_extra rfl rfl err
  have stops (fastForward : Bool) (trusted : Prop) (careful : fastForward = true → trusted)
      (known : trusted → FitAsFar log (reference engine settings) notes) :
      log.StopsAt (reference engine settings) (ran fastForward).2.position
        (firstTerminal (ran fastForward).1) :=
    ((Abides.started known).stops once (same fastForward) careful rfl rfl).resolve_left
      fun ⟨err, _, extra⟩ => own fastForward err extra
  have plain := stops false False (by simp) False.elim
  rcases learned.fits_or_hides once settings with known | ⟨position, err, there, hides⟩
  · have passing := stops true True (fun _ => trivial) fun _ => known
    obtain ⟨position, ended⟩ := passing.unique plain
    exact Or.inl ⟨ended, position, fun none => (none ▸ passing).atEnd⟩
  · obtain ⟨place, ended⟩ := plain.unique there
    exact Or.inr ⟨err, ended, place ▸ hides⟩

/-- A root call that was recorded to end in an exception. -/
def divergingCall : Log :=
  ⟨#[⟨⟨1⟩, ⟨0⟩, .allocateFunction none⟩,
    ⟨⟨2⟩, ⟨0⟩, .callBegin ⟨0, .none, ⟨1⟩, ⟨0⟩, none, []⟩⟩,
    ⟨⟨3⟩, ⟨0⟩, .callEnd ⟨⟨2⟩, 0, true, false, ⟨0⟩⟩⟩]⟩

/-- What a playback of `divergingCall` leaves behind that does not verify how the call ends. -/
def divergingCallNotes : Notes ObjectRef SandboxSnapshot :=
  (drive [.run] (start divergingCall
    (.start (Sandbox.fresh none) { takeCheckpoints := true } .empty))).2.session.notes

/-- If no call may be open, `divergingCall` fails where the call begins; but not on a playback that
    passes it by. -/
theorem divergingCall_depth_hidden :
    let settings : Settings := { maxDepth := 0 }
    let ran (fastForward : Bool) := drive (List.replicate (divergingCall.size + 2) .run)
      (start divergingCall
        (.start (Sandbox.fresh none) { settings with fastForward } divergingCallNotes))
    firstTerminal (ran true).1 = none ∧ ∃ err, firstTerminal (ran false).1 = some err ∧
      MayHide divergingCall divergingCallNotes [{ takeCheckpoints := true }] settings
        (ran false).2.position err := by
  intro settings ran
  have learned : LearnedUnder divergingCall (Sandbox.fresh none) [{ takeCheckpoints := true }]
      divergingCallNotes := by
    have replayed := (@LearnedUnder.nothing divergingCall (.fresh none)).replay
      { takeCheckpoints := true } [.run]
    unfold divergingCallNotes
    exact replayed
  have hidden : firstTerminal (ran true).1 ≠ firstTerminal (ran false).1 := by decide +kernel
  exact ⟨by decide +kernel, (fast_forward_hides_only_extra_checks (by decide +kernel) learned
    settings).resolve_left fun same => hidden same.1⟩

/-- A playback that is to verify how calls end does not notice that `divergingCall` ends in another
    way than it was recorded to, if it passes the call by. -/
theorem divergingCall_outcome_hidden :
    let ran (fastForward : Bool) := drive (List.replicate (divergingCall.size + 2) .run)
      (start divergingCall
        (.start (Sandbox.fresh none) { verifyExceptions := true, fastForward } divergingCallNotes))
    firstTerminal (ran true).1 = none ∧
      firstTerminal (ran false).1 = some (.exceptionDivergence ⟨3⟩ true false) := by
  decide +kernel

/-- A root call the end of which is recorded again, at the same time and out of order. -/
def endedAgain : Log :=
  ⟨#[⟨⟨1⟩, ⟨0⟩, .allocateFunction none⟩,
    ⟨⟨2⟩, ⟨0⟩, .callBegin ⟨0, .none, ⟨1⟩, ⟨0⟩, none, []⟩⟩,
    ⟨⟨3⟩, ⟨0⟩, .callEnd ⟨⟨2⟩, 0, false, false, ⟨0⟩⟩⟩,
    ⟨⟨3⟩, ⟨0⟩, .callEnd ⟨⟨2⟩, 0, false, false, ⟨0⟩⟩⟩]⟩

/-- It is the second end up to which fast-forward passes the call by, so that it hides a failure
    also under the settings of the playback that took the checkpoint. -/
example :
    let settings : Settings := { takeCheckpoints := true }
    let ran (fastForward : Bool) (notes : Notes ObjectRef SandboxSnapshot) :=
      drive (List.replicate (endedAgain.size + 2) .run)
        (start endedAgain (.start (Sandbox.fresh none) { settings with fastForward } notes))
    let notes := (ran false .empty).2.session.notes
    firstTerminal (ran true notes).1 = none ∧
      firstTerminal (ran false notes).1 = some (.outOfOrder ⟨3⟩ ⟨3⟩) := by
  decide +kernel

end Playback
end Retrace
