import Retrace.Proofs.Replay.FastForward
import Retrace.Proofs.Replay.Nesting
import Retrace.Proofs.Replay.Structure

/-!
# Every root exception is surfaced once

A host is told of an exception that no call caught in one of two ways: by the end of the root call,
when that is replayed, or by the step that passes the whole call by. Nothing keeps count of what was
told. That every exception is told of once, and in order, is a property of *where* a playback
stands: it has told of those root calls that end before its position (`Telling`). It rests on the
structure of the log alone. Neither the engine nor what the checkpoints hold has a say in it.

What the engine does decide is whether a playback gets to the end. One that never passes a call by
does, if the plain replay of the log does (`Unhindered`); and so does a playback of a sandbox, over
checkpoints that earlier ones took.
-/

namespace Retrace
namespace Playback

/-! ## What is to be shown -/

section Statement

variable {ρ η σ : Type}

/-- How a playback stands when it tells of the exception of a root call. -/
structure AtRootEnd (p : Playback ρ η σ) (root ended : Time) : Prop where
  closed : p.session.stack.frames = []
  idle : p.phase = .idle
  matched : p.session.stack.matchingEnd? root = some ended
  last : p.last = some ended

/-- A playback from a new session that executes every event. -/
def plain (log : Log) (engine : ρ) (settings : Settings) : Playback ρ η σ :=
  start log (Session.start engine { settings with fastForward := false } .empty)

variable [Engine ρ η σ] [DecidableEq η]

/-- However it is driven, the playback meets no error that ends the replay. -/
def Unfailing (p : Playback ρ η σ) : Prop :=
  ∀ demands, firstTerminal (drive demands p).1 = none

/-- The replay of a log from a new session meets no error that ends it. -/
def ReplaysSoundly (log : Log) (engine : ρ) (settings : Settings) : Prop :=
  firstTerminal (drive (List.replicate (log.size + 2) .run) (plain log engine settings)).1 = none

/-- As long as no error ends the replay, a playback surfaces each root exception of its log once. -/
structure SurfacesOnce (log : Log) (p : Playback ρ η σ) : Prop where
  /-- It has told of those before its position. -/
  told : ∀ demands, firstTerminal (drive demands p).1 = none →
    (errorsOf (drive demands p).1).filter ReplayError.isUncaught =
      log.rootExceptionsBefore (drive demands p).2.position
  /-- At the end of the log it has told of all. -/
  atEnd : ∀ demands, firstTerminal (drive demands p).1 = none →
    (drive demands p).2.next? = none →
    (errorsOf (drive demands p).1).filter ReplayError.isUncaught = log.rootExceptions
  /-- Whatever demand is answered with one, the root call is over then, and all is at rest. -/
  stands : ∀ demands demand root ended terminating next,
    firstTerminal (drive demands p).1 = none →
    answered (serve demand (drive demands p).2) =
      (.error (.uncaughtException root ended terminating), next) →
    next.AtRootEnd root ended
  /-- Asked to run again and again, it tells of those that are left and then has nothing to tell. -/
  runs : ∀ demands k, (drive demands p).2.stopped = false →
    firstTerminal (drive (demands ++ List.replicate (log.size + 2) .run) p).1 = none →
    let remaining := log.rootExceptionsFrom (drive demands p).2.position
    (drive (List.replicate (remaining.length + (k + 1)) .run) (drive demands p).2).1 =
      remaining.map .error ++ List.replicate (k + 1) (.ok none)

end Statement

section Telling

variable {ρ η σ : Type}
variable {log : Log} {errs : List ReplayError} {p q : Playback ρ η σ}

/-! ## One advance -/

/-- The calls that are open in a playback are those that are open in the log, and it has told of the
    root exceptions so far. -/
structure Telling (log : Log) (errs : List ReplayError) (p : Playback ρ η σ) : Prop where
  isLog : p.log = log
  openCalls : p.session.stack.frames.map Frame.begun = log.openCalls p.position
  told : errs.filter ReplayError.isUncaught = log.rootExceptionsBefore p.position

theorem Telling.toggle (h : Telling log errs p) (stopped : Bool) :
    Telling log errs { p with stopped } :=
  ⟨h.isLog, h.openCalls, h.told⟩

theorem Telling.next (h : Telling log errs p) {e : Event} (facing : p.Facing e) :
    log.get? p.position = some e := by
  rw [← h.isLog]
  exact facing.next

/-- Errors that are not about scripts tell of no root exception. -/
theorem Telling.aside (h : Telling log errs p) {err : ReplayError} (other : err.isUncaught = false) :
    Telling log (errs ++ [err]) p := by
  refine { h with told := ?_ }
  rw [List.filter_append, h.told, List.filter_cons_of_neg (by simp [other])]
  exact List.append_nil _

/-- The call that is passed by is a root call of the log. -/
theorem Telling.span (h : Telling log errs p) (clean : log.problems = []) {e ending : Event}
    {target : Option Time} {call : CallBegin} {c : Checkpoint η σ} {endPosition : Nat}
    {callEnd : CallEnd} (facing : p.Facing e)
    (shortcut : target.bind (p.shortcut? e) = some (call, c, endPosition, ending, callEnd)) :
    ending.action = .callEnd callEnd ∧ callEnd.begun = e.time ∧
      log.RootSpan p.position endPosition ending callEnd := by
  have leads := shortcut?_leads shortcut
  have ends := Event.callEnd?_eq_some.1 leads.isEnd
  exact ⟨ends, leads.named, Log.rootSpan clean (h.next facing)
    (Event.callBegin?_eq_some.1 leads.isBegin) leads.depth (h.isLog ▸ leads.final) ends leads.named⟩

/-- Behind a root call that was passed by, a playback has told of its exception. -/
theorem Telling.beyond (h : Telling log errs p) (clean : log.problems = []) {e ending : Event}
    {target : Option Time} {call : CallBegin} {c : Checkpoint η σ} {endPosition : Nat}
    {callEnd : CallEnd} {session : Session ρ η σ} (facing : p.Facing e)
    (shortcut : target.bind (p.shortcut? e) = some (call, c, endPosition, ending, callEnd)) :
    Telling log (errs ++ if callEnd.raised then
        [.uncaughtException e.time ending.time callEnd.terminatingException] else [])
      (p.beyond e call endPosition ending session) := by
  obtain ⟨ends, named, span⟩ := h.span clean facing shortcut
  refine ⟨h.isLog, ?_, ?_⟩
  · show List.map Frame.begun [] = log.openCalls (endPosition + 1)
    rw [span.closed]
    rfl
  · show _ = log.rootExceptionsBefore (endPosition + 1)
    rw [List.filter_append, h.told, span.raises, Event.rootException?_of_end ends, span.depth, named]
    cases callEnd.raised <;> rfl

theorem start_telling (log : Log) (session : Session ρ η σ)
    (closed : session.stack.frames = []) : Telling log [] (start log session) :=
  ⟨rfl, by rw [start, closed]; rfl, rfl⟩

variable [Engine ρ η σ]

/-- Behind an event that was replayed, a playback has told of it if it ends a root call by an
    exception. -/
theorem Telling.past (h : Telling log errs p) (clean : log.problems = []) {e : Event}
    (facing : p.Facing e) {session : Session ρ η σ}
    (step : CallStep e p.session.stack session.stack) :
    Telling log (errs ++ e.rootException?.toList) ((p.past e session).withCheckpoint e).atRest := by
  obtain ⟨-, stack, -, position, isLog, -⟩ := withCheckpoint_frame (p.past e session) e
  have next := h.next facing
  refine ⟨isLog.trans h.isLog, ?_, ?_⟩
  · show (((p.past e session).withCheckpoint e).session.stack.frames.map Frame.begun) =
      log.openCalls ((p.past e session).withCheckpoint e).position
    rw [stack, position]
    exact step.openCalls (Log.nests clean next) h.openCalls
  · show _ = log.rootExceptionsBefore ((p.past e session).withCheckpoint e).position
    rw [position, List.filter_append, h.told]
    show _ = log.rootExceptionsBefore (p.position + 1)
    rw [Log.rootExceptionsBefore_succ next]
    cases raised : e.rootException? with
    | none => rfl
    | some err =>
      obtain ⟨call, -, -, -, rfl⟩ := Event.rootException?_eq_some raised
      rfl

/-- What an error leaves of a playback that it does not end. -/
structure Told (log : Log) (errs : List ReplayError) (err : ReplayError)
    (p : Playback ρ η σ) : Prop where
  telling : Telling log (errs ++ [err]) p
  stands : ∀ root ended terminating, err = .uncaughtException root ended terminating →
    p.AtRootEnd root ended

/-- Behind the end of a root call that was replayed, all is at rest. -/
theorem Telling.rootEnd (h : Telling log errs p) (clean : log.problems = []) {e : Event}
    (facing : p.Facing e) {session : Session ρ η σ} {call : CallEnd}
    (action : e.action = .callEnd call) (root : call.depth = 0)
    (step : CallStep e p.session.stack session.stack) :
    AtRootEnd ((p.past e session).withCheckpoint e).atRest call.begun e.time := by
  obtain ⟨-, stack, last, -, -, -⟩ := withCheckpoint_frame (p.past e session) e
  have stack : ((p.past e session).withCheckpoint e).session.stack = session.stack := stack
  -- the log has only the root call open here, and the playback has the same calls open
  have closed : session.stack.frames = [] := by
    obtain ⟨depth, -⟩ := Log.openSince_of_end clean (h.next facing) action
    have same := step.openCalls (Log.nests clean (h.next facing)) h.openCalls
    rw [root] at depth
    have none : (session.stack.frames.map Frame.begun).length = 0 := by
      rw [same, ← depth]
      rfl
    exact List.length_eq_zero_iff.1 (List.length_map .. ▸ none)
  refine ⟨?_, ?_, ?_, last⟩
  · show ((p.past e session).withCheckpoint e).session.stack.frames = []
    rw [stack]
    exact closed
  · show (if ((p.past e session).withCheckpoint e).session.stack.isEmpty then Phase.idle
      else Phase.inCall) = .idle
    rw [stack, CallStack.isEmpty, closed]
    rfl
  · show ((p.past e session).withCheckpoint e).session.stack.matchingEnd? call.begun = some e.time
    rw [stack]
    cases step with
    | inner _ other => exact absurd (Event.callEnd?_eq_some.2 action) (by simp [other])
    | begins _ _ other => exact absurd (action.symm.trans other) (by simp)
    | finishes call' _ _ action' _ _ _ _ left =>
      obtain rfl := Action.callEnd.inj (action.symm.trans action')
      rw [left, CallStack.matchingEnd?, OrderedMap.get?_insert_self]

variable [DecidableEq η]

/-- **Every advance tells of what it has come past.** -/
theorem Telling.advance (h : Telling log errs p) (clean : log.problems = [])
    (target : Option Time) :
    Ends (Telling log errs) (fun err q => err.isTerminal = false → Told log errs err q)
      (Playback.advance target p) := by
  have advanced := advance_advanced target p
  -- a root call that is passed tells of its exception as one that is executed does
  have passed {e ending : Event} {call : CallBegin} {c : Checkpoint η σ} {endPosition : Nat}
      {callEnd : CallEnd} (session : Session ρ η σ) (facing : p.Facing e)
      (shortcut : target.bind (p.shortcut? e) = some (call, c, endPosition, ending, callEnd)) :
      Telling log (errs ++ if callEnd.raised then
          [.uncaughtException e.time ending.time callEnd.terminatingException] else [])
        (p.beyond e call endPosition ending session) :=
    h.beyond clean facing shortcut
  generalize Playback.advance target p = r at advanced
  cases advanced with
  | refused => exact fun passing => absurd passing (by simp [ReplayError.isTerminal])
  | aborted => exact fun _ => ⟨h.aside rfl, by simp⟩
  | finished => exact h
  | truncated => exact fun passing => absurd passing (by simp [ReplayError.isTerminal])
  | outOfOrder => exact fun passing => absurd passing (by simp [ReplayError.isTerminal])
  | unrestored => exact fun passing => absurd passing (by simp [ReplayError.isTerminal])
  | passed _ e facing call c endPosition ending callEnd shortcut session _ quiet =>
    have telling := passed session facing shortcut
    rw [quiet, if_neg Bool.false_ne_true, List.append_nil] at telling
    exact telling
  | passedRaising _ e facing call c endPosition ending callEnd shortcut session _ raised =>
    intro _
    have telling := passed session facing shortcut
    rw [raised] at telling
    refine ⟨telling, fun root ended terminating same => ?_⟩
    obtain ⟨rfl, rfl, -⟩ := ReplayError.uncaughtException.inj same
    exact ⟨rfl, rfl, OrderedMap.get?_insert_self .., rfl⟩
  | played _ e facing _ session run =>
    have executed := Session.execute_executed p.position e p.session
    rw [run] at executed
    cases executed with
    | done _ step _ _ quiet =>
      have telling := h.past clean facing step
      -- a root call that raised would not have passed quietly
      have none : e.rootException? = .none := by
        cases raised : e.rootException? with
        | none => rfl
        | some err =>
          obtain ⟨call, action, depth, raised, -⟩ := Event.rootException?_eq_some raised
          exact absurd ⟨depth, raised⟩ (quiet call action)
      rw [none] at telling
      exact List.append_nil errs ▸ telling
  | playedRaising _ e facing _ session root ended terminating run =>
    intro _
    have executed := Session.execute_executed p.position e p.session
    rw [run] at executed
    cases executed with
    | uncaught _ call action step _ _ depth raised =>
      have telling := h.past clean facing step
      rw [Event.rootException?_of_end action, if_pos ⟨depth, raised⟩] at telling
      refine ⟨telling, fun root ended terminating same => ?_⟩
      obtain ⟨rfl, rfl, -⟩ := ReplayError.uncaughtException.inj same
      exact h.rootEnd clean facing action depth step
    | failed _ _ operational => exact operational.elim
  | failed _ _ _ _ _ _ _ terminal => exact fun passing => absurd terminal (by simp [passing])

/-! ## Driving -/

/-- However it is driven, a playback goes on telling of what it has come past. -/
theorem Telling.driven (h : Telling log errs p) (clean : log.problems = []) {demands : List Demand}
    (unbroken : firstTerminal (drive demands p).1 = none) :
    Telling log (errs ++ errorsOf (drive demands p).1) (drive demands p).2 := by
  have first : ([] : List ReplayError).find? ReplayError.isTerminal = none →
      Telling log (errs ++ []) p := fun _ => (List.append_nil errs).symm ▸ h
  refine drive_induction (I := fun errs' q => errs'.find? ReplayError.isTerminal = none →
    Telling log (errs ++ errs') q) (fun target errs' q telling => ?_) demands
    (fun stopped errs' q _ telling unbroken => (telling unbroken).toggle stopped) first unbroken
  rw [holds_eq_ends]
  -- behind an error that ended the replay there is nothing to be shown
  cases hq : Playback.advance target q with
  | ok made next =>
    intro unbroken
    have told := (telling unbroken).advance clean target
    rw [hq] at told
    exact told
  | error err next =>
    intro unbroken
    rw [List.find?_append, Option.or_eq_none_iff] at unbroken
    have told := (telling unbroken.1).advance clean target
    rw [hq] at told
    exact List.append_assoc .. ▸ (told (by simpa using unbroken.2)).telling

/-- A playback that is not stopped comes to an end. -/
theorem Telling.finishes (h : Telling log errs p) (clean : log.problems = [])
    (going : p.stopped = false) (target : Option Time) :
    ∃ n errs' q, Finishes target p n errs' q ∧ n ≤ p.left := by
  refine finishes_of_ahead (M := fun p => ∃ errs, Telling log errs p) ?_ ?_ ⟨errs, h⟩ going
  · rintro p ⟨errs, telling⟩
    have told := telling.advance clean target
    cases hp : Playback.advance target p with
    | ok made q =>
      rw [hp] at told
      cases made with
      | none => trivial
      | some step => exact ⟨errs, told⟩
    | error err q =>
      rw [hp] at told
      exact fun passing => ⟨errs ++ [err], (told passing).telling⟩
  · rintro p ⟨errs, telling⟩ going
    exact ahead_of_advanced going (fun e call c endPosition ending callEnd _ facing shortcut =>
      Nat.le_of_lt (telling.span clean facing shortcut).2.2.less) (advance_advanced target p)

/-- Errors that neither end the replay nor say that it was stopped are all about exceptions. -/
theorem all_uncaught {errs : List ReplayError} (clean : errs.find? ReplayError.isTerminal = none)
    (quiet : ∀ next, .aborted next ∉ errs) : errs.filter ReplayError.isUncaught = errs := by
  refine List.filter_eq_self.2 fun err mem => ?_
  have passing := List.find?_eq_none.1 clean err mem
  cases err with
  | uncaughtException => rfl
  | aborted next => exact absurd mem (quiet next)
  | _ => exact absurd rfl passing

/-- **Asked to run again and again, a playback tells of the root exceptions that are left**, one by
    one, and then it is at the end. -/
theorem Telling.runs (h : Telling log errs p) (clean : log.problems = [])
    (going : p.stopped = false)
    (unbroken : firstTerminal (drive (List.replicate (log.size + 2) .run) p).1 = none) (k : Nat) :
    let remaining := log.rootExceptionsFrom p.position
    (drive (List.replicate (remaining.length + (k + 1)) .run) p).1 =
      remaining.map .error ++ List.replicate (k + 1) (.ok none) := by
  -- the course of advances from here to the end, with the errors that they tell of
  obtain ⟨n, errs', q, course, few⟩ := h.finishes clean going (some p.horizon)
  have enough : n < p.enoughSteps := Nat.lt_of_le_of_lt few p.left_lt_enoughSteps
  have left : p.left ≤ log.size := h.isLog ▸ Nat.sub_le _ _
  have few' := course.errors_le
  have sound : errs'.find? ReplayError.isTerminal = none :=
    (course.drive_runs enough (by omega)).2.symm.trans unbroken
  have last : lastAnswer errs' = .ok none := by rw [lastAnswer, sound]
  have ran (k : Nat) := course.runs enough k
  rw [last] at ran
  have errors (k : Nat) : errorsOf (drive (List.replicate (errs'.length + (k + 1)) .run) p).1 =
      errs' := by
    rw [ran, errorsOf_append, errorsOf_map_error, errorsOf_replicate_ok, List.append_nil]
  -- what it has told of in the end are all root exceptions of the log
  have unbroken : firstTerminal (drive (List.replicate (errs'.length + 1) .run) p).1 = none := by
    rw [firstTerminal, errors 0, sound]
  have ended := h.driven clean unbroken
  rw [errors 0, ran 0] at ended
  have never : Demand.stop ∉ List.replicate (errs'.length + 1) .run := by simp [List.mem_replicate]
  have unstopped : Unstopped [] p := ⟨going, by simp⟩
  have quiet := (unstopped.driven never).quiet
  rw [errors 0, List.nil_append] at quiet
  have all := ended.told
  have none : log.get? q.position = none := by
    rw [← ended.isLog]
    exact finished_of_none (course.rests sound)
  rw [Log.rootExceptionsBefore_of_end none, List.filter_append, h.told, all_uncaught sound quiet,
    ← log.rootExceptionsBefore_append_from p.position] at all
  rw [← List.append_cancel_left all]
  exact congrArg Prod.fst (ran k)

theorem drive_append (demands more : List Demand) (p : Playback ρ η σ) :
    drive (demands ++ more) p = ((drive demands p).1 ++ (drive more (drive demands p).2).1,
      (drive more (drive demands p).2).2) := by
  induction demands generalizing p with
  | nil => rfl
  | cons demand demands ih => simp only [List.cons_append, drive, ih]

/-- **Over a log with which nothing is wrong, every playback surfaces each root exception once.** -/
theorem Telling.surfacesOnce (h : Telling log [] p) (clean : log.problems = []) :
    SurfacesOnce log p where
  told demands unbroken := (h.driven clean unbroken).told
  atEnd demands unbroken next := by
    have telling := h.driven clean unbroken
    have behind : log.get? (drive demands p).2.position = none := by
      rw [← telling.isLog]
      exact next
    exact telling.told.trans (Log.rootExceptionsBefore_of_end behind)
  stands demands demand root ended terminating next unbroken answer := by
    have telling := h.driven clean unbroken
    have served := serve_ends (fun target q telling => telling.advance clean target) demand
      (fun stopped _ => telling.toggle stopped) telling
    cases hs : serve demand (drive demands p).2 with
    | ok step q => rw [hs] at answer; exact absurd (congrArg Prod.fst answer) (by simp [answered])
    | error err q =>
      rw [hs] at served answer
      simp only [answered, Prod.mk.injEq, Except.error.injEq] at answer
      obtain ⟨rfl, rfl⟩ := answer
      exact (served rfl).stands root ended terminating rfl
  runs demands k going unbroken := by
    rw [drive_append, firstTerminal, errorsOf_append, List.find?_append,
      Option.or_eq_none_iff] at unbroken
    exact (h.driven clean unbroken.1).runs clean going unbroken.2 k

end Telling

/-! ## No error on the way -/

section Unfailing

variable {ρ η σ : Type} [Engine ρ η σ] [DecidableEq η]
variable {log : Log} {engine : ρ} {settings : Settings}

/-- Where the playback is let go on, it comes to the end of the log, event by event, and meets no
    error that ends the replay. -/
structure Unhindered (p : Playback ρ η σ) : Prop where
  tracks : ∃ n, Tracks n { p with stopped := false }
  course : ∃ m errs q, Finishes none { p with stopped := false } m errs q ∧
    errs.find? ReplayError.isTerminal = none

/-- A playback that is stopped does nothing. -/
theorem advance_stopped {p : Playback ρ η σ} (sound : p.phase ≠ .faulted)
    (stopped : p.stopped = true) (target : Option Time) :
    advance target p = .error (.aborted (p.next?.map Event.time)) p := by
  simp only [advance, bind_run, get_run, sound, stopped, if_true, if_false, throw_run]

theorem Unhindered.advance {p : Playback ρ η σ} (h : Unhindered p) (target : Option Time) :
    Ends Unhindered (fun err q => err.isTerminal = false ∧ Unhindered q)
      (Playback.advance target p) := by
  obtain ⟨n, tracks⟩ := h.tracks
  obtain ⟨m, errs, q, course, clean⟩ := h.course
  cases stopped : p.stopped with
  | true =>
    have sound : p.phase ≠ .faulted := tracks.ready.sound
    rw [advance_stopped sound stopped]
    exact ⟨rfl, h⟩
  | false =>
    have same : { p with stopped := false } = p := by rw [← stopped]
    rw [same] at tracks course
    rw [advance_plain tracks.plain]
    -- it makes the next of the advances that lead to the end
    cases course with
    | ended at_ => rw [at_, advance_none at_]; exact h
    | broke at_ terminal => exact absurd clean (by simp [terminal])
    | @went _ next _ _ _ _ at_ rest =>
      obtain ⟨e, onward⟩ := tracks.went at_
      have going : { next with stopped := false } = next := by rw [← onward.tracks.ready.going]
      rw [at_]
      exact ⟨⟨_, going.symm ▸ onward.tracks⟩, _, _, _, going.symm ▸ rest, clean⟩
    | @raised _ next _ err _ _ at_ passing rest =>
      obtain ⟨e, onward⟩ := tracks.raised at_ passing
      have going : { next with stopped := false } = next := by rw [← onward.tracks.ready.going]
      rw [at_]
      exact ⟨passing, ⟨_, going.symm ▸ onward.tracks⟩, _, _, _, going.symm ▸ rest,
        by simpa [passing] using clean⟩

theorem Unhindered.unfailing {p : Playback ρ η σ} (h : Unhindered p) : Unfailing p := by
  intro demands
  have first : ([] : List ReplayError).find? ReplayError.isTerminal = none ∧ Unhindered p := ⟨rfl, h⟩
  have driven := drive_induction (I := fun errs q =>
      errs.find? ReplayError.isTerminal = none ∧ Unhindered q) (fun target errs q going => ?_)
    demands (fun stopped errs q _ going => ⟨going.1, going.2.tracks, going.2.course⟩) first
  · exact driven.1
  · have advanced := going.2.advance target
    rw [holds_eq_ends]
    cases hq : Playback.advance target q with
    | ok made next => rw [hq] at advanced; exact ⟨going.1, advanced⟩
    | error err next =>
      rw [hq] at advanced
      refine ⟨?_, advanced.2⟩
      rw [find?_append_of_none going.1, advanced.1]
      rfl

/-- A log that can be replayed has no problems, and nothing hinders its plain replay. -/
theorem ReplaysSoundly.course (sound : ReplaysSoundly log engine settings) :
    log.problems = [] ∧ Unhindered (plain log engine settings) := by
  let p : Playback ρ η σ := plain log engine settings
  have tracks : Tracks Nesting.start p := .start log engine settings .empty
  obtain ⟨m, errs, q, course, few⟩ := tracks.ends
  have size : p.left = log.size := rfl
  have fuel := p.left_lt_enoughSteps
  have few' := course.errors_le
  have clean : errs.find? ReplayError.isTerminal = none :=
    ((tracks.retarget course (some p.horizon)).drive_runs (by omega) (by omega)).2.symm.trans sound
  have explains := tracks.finishes course
  rw [clean] at explains
  refine ⟨?_, ⟨_, tracks⟩, m, errs, q, course, clean⟩
  rw [← log.located_problems]
  exact congrArg (List.map Prod.snd) explains

end Unfailing

section Sandbox

variable {log : Log} {engine : Sandbox} {settings : Settings}

/-- Over checkpoints that earlier playbacks took, a sandbox replays every log without an error that
    replays without one from a new session. -/
theorem Learned.unfailing {notes : Notes ObjectRef SandboxSnapshot}
    (learned : Learned log engine settings notes) (sound : ReplaysSoundly log engine settings)
    (fastForward takeCheckpoints : Bool) :
    Unfailing (fresh log engine settings fastForward takeCheckpoints notes) := by
  intro demands
  have ordered := Log.ordered_of_clean sound.course.1
  have standing := reference_standing engine settings
  cases broken : firstTerminal
      (drive demands (fresh log engine settings fastForward takeCheckpoints notes)).1 with
  | none => rfl
  | some err =>
    -- the course would end by an error, and so would the plain replay
    rcases (learned.along ordered fastForward takeCheckpoints demands).state with keeps | faulted
    · exact absurd (broken.symm.trans keeps.clean) (by simp)
    · obtain ⟨err', -, place⟩ := faulted.fault
      have plain : Along log (reference engine settings) engine.contexts [] (plain log engine settings) :=
        fresh_along false settings.takeCheckpoints (Learned.fits ordered .nothing)
      have told := (plain.faults ordered rfl standing place).2.2.2
      exact absurd (told.symm.trans sound) (by simp)

end Sandbox

/-- **Each root exception is surfaced exactly once.** Take a log that replays from a new session
    without an error that ends the replay. Its root exceptions each name the begin of a root call
    and the end that matches it. On any engine, under any settings, with any checkpoints and however
    it is driven, a playback surfaces each of them once. The plain replay never meets an error, and
    neither does a playback of a sandbox over checkpoints of earlier ones. -/
theorem root_exceptions_surface_once (log : Log) (settings : Settings) :
    (∀ {ρ η σ : Type} [Engine ρ η σ] [DecidableEq η] (engine : ρ),
      ReplaysSoundly log engine settings →
        (∀ root ended terminating,
          .uncaughtException root ended terminating ∈ log.rootExceptions →
            ∃ i j begin_ ending call, i < j ∧ log.get? i = some begin_ ∧ begin_.time = root ∧
              begin_.action = .callBegin call ∧ call.depth = 0 ∧
              log.matchingEnd? root = some (j, ending) ∧ ending.time = ended) ∧
        (∀ settings' notes, SurfacesOnce log (start log (Session.start engine settings' notes))) ∧
        Unfailing (plain log engine settings)) ∧
    (∀ (engine : Sandbox) (notes : Notes ObjectRef SandboxSnapshot)
      (fastForward takeCheckpoints : Bool), ReplaysSoundly log engine settings →
        Learned log engine settings notes →
          Unfailing (fresh log engine settings fastForward takeCheckpoints notes)) := by
  refine ⟨fun engine sound => ?_, fun engine notes fastForward takeCheckpoints sound learned =>
    learned.unfailing sound fastForward takeCheckpoints⟩
  obtain ⟨clean, unhindered⟩ := sound.course
  exact ⟨fun root ended terminating => Log.begin_of_rootException clean,
    fun settings' notes => (start_telling log _ rfl).surfacesOnce clean, unhindered.unfailing⟩

/-- A log of one root call. It ends in an exception, which comes from a call within it. -/
def raisingCall : Log :=
  ⟨#[⟨⟨1⟩, ⟨0⟩, .allocateFunction none⟩,
    ⟨⟨2⟩, ⟨0⟩, .callBegin ⟨0, .none, ⟨1⟩, ⟨0⟩, none, []⟩⟩,
    ⟨⟨3⟩, ⟨0⟩, .callBegin ⟨1, .none, ⟨1⟩, ⟨0⟩, none, []⟩⟩,
    ⟨⟨4⟩, ⟨0⟩, .callEnd ⟨⟨3⟩, 1, true, false, ⟨0⟩⟩⟩,
    ⟨⟨5⟩, ⟨0⟩, .callEnd ⟨⟨2⟩, 0, true, false, ⟨0⟩⟩⟩]⟩

/-- What the first playback of `raisingCall` learns: the checkpoint behind the root call. -/
def raisingNotes : Notes ObjectRef SandboxSnapshot :=
  (drive [.run] (fresh raisingCall (.fresh none) {} false true .empty)).2.session.notes

/-- A second playback, which passes the call by, surfaces the exception of the root call, and that
    one only. -/
theorem raisingCall_surfaces_once :
    ReplaysSoundly raisingCall (.fresh none : Sandbox) {} ∧
      (drive [.run, .run] (fresh raisingCall (.fresh none) {} true false raisingNotes)).1 =
        [.error (.uncaughtException ⟨2⟩ ⟨5⟩ false), .ok none] := by
  have sound : ReplaysSoundly raisingCall (.fresh none : Sandbox) {} := by
    unfold ReplaysSoundly
    decide +kernel
  have learned : Learned raisingCall (.fresh none) {} raisingNotes :=
    .replay .nothing false true [.run]
  obtain ⟨every, ofSandbox⟩ := root_exceptions_surface_once raisingCall {}
  have unfailing := ofSandbox (.fresh none) raisingNotes true false sound learned
  have once := (every (.fresh none : Sandbox) sound).2.1
    { fastForward := true, takeCheckpoints := false } raisingNotes
  have remaining : raisingCall.rootExceptionsFrom 0 = [.uncaughtException ⟨2⟩ ⟨5⟩ false] := by
    decide +kernel
  have ran : (drive (List.replicate ((raisingCall.rootExceptionsFrom 0).length + 1) .run)
      (fresh raisingCall (.fresh none) {} true false raisingNotes)).1 =
        (raisingCall.rootExceptionsFrom 0).map .error ++ [.ok none] :=
    once.runs [] 0 rfl (unfailing _)
  rw [remaining] at ran
  exact ⟨sound, ran⟩

end Playback
end Retrace
