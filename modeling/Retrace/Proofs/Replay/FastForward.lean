import Retrace.Proofs.Replay.Abreast
import Retrace.Proofs.Replay.Course
import Retrace.Proofs.Replay.Ending

/-!
# Fast-forward changes nothing

A playback may execute every event of a log, or restore the checkpoint of a root call and pass the
call by; a host may ask it to step, to run, or to run up to a time, and stop it in between. All this
comes down to the same: wherever a playback stands, it stands abreast of the *course* of the log at
that position, with the same exceptions reported. It ends where the course ends, by the same error.

The invariant is `Along`. Its first half is about checkpoints. Each of them fits a root call of the
course (`Fits`): it holds the state in which the course is behind the end of the call. Checkpoints
that earlier playbacks took over the same log fit, whatever these were asked to do (`Learned.fits`),
because they kept to the course themselves. Times have to increase strictly. A call is found again
by its time, and only then does a time name one event.
-/

namespace Retrace

open Session (Abreast)

/-- A session does not change which contexts it knows, and is in none but these. -/
def Session.Standing (contexts : Option (List Context)) (s : SandboxSession) : Prop :=
  Abreast contexts s.notes.checkpoints s s

theorem Session.Abreast.standing {contexts : Option (List Context)} {known : SandboxCheckpoints}
    {s t : SandboxSession} (h : Abreast contexts known s t) : s.Standing contexts :=
  ⟨⟨rfl, h.engine.left, h.engine.left⟩, rfl, rfl, rfl, rfl, rfl, rfl, rfl, rfl, h.left, h.left, rfl⟩

theorem Log.course_standing {log : Log} {start : SandboxSession} {contexts : Option (List Context)}
    (standing : start.Standing contexts) {position : Nat}
    {c : Course Sandbox ObjectRef SandboxSnapshot} (here : log.course start position = .ok c) :
    c.session.Standing contexts := by
  refine Log.course_induction (P := fun _ c => c.session.Standing contexts) standing
    (fun k c e d _ before _ after => ?_) (fun _ _ _ same => same) here
  have abreast := Session.execute_abreast before k k e
  unfold Course.after at after
  cases hx : Session.execute k e c.session with
  | ok u session =>
    rw [hx] at after abreast
    obtain rfl := Except.ok.inj after
    exact abreast.2.standing
  | error err session =>
    rw [hx] at after abreast
    dsimp only at after
    split at after
    · exact absurd after (by simp)
    · obtain rfl := Except.ok.inj after
      exact abreast.2.standing

/-- A checkpoint noted at position `i` is one of a root call that begins there. -/
def Fits (log : Log) (start : SandboxSession) (i : Nat)
    (cp : Checkpoint ObjectRef SandboxSnapshot) : Prop :=
  ∃ j begin_ ending call callEnd b d, log.RootCall start i j begin_ ending call callEnd b d ∧
    cp = ⟨d.session.engine.snapshot, d.session.tags, d.session.callbacks, d.session.pending,
      ending.time⟩

/-- What is written down first stays. -/
theorem Notes.once_get? {α : Type} (m : OrderedMap Nat α) (k : Nat) (a : α) (i : Nat) :
    (Notes.once m k a).get? i = if i = k then some ((m.get? k).getD a) else m.get? i := by
  unfold Notes.once OrderedMap.contains
  cases there : m.get? k with
  | some b =>
    rw [Option.isSome_some, if_pos rfl, Option.getD_some]
    split
    · rename_i same
      rw [same, there]
    · rfl
  | none =>
    rw [Option.isSome_none, if_neg Bool.false_ne_true, OrderedMap.get?_insert, Option.getD_none]

theorem Notes.get?_once {α : Type} {m : OrderedMap Nat α} {k i : Nat} {a b : α}
    (h : (Notes.once m k a).get? i = some b) : m.get? i = some b ∨ i = k ∧ b = a := by
  rw [Notes.once_get?] at h
  split at h
  · rename_i same
    cases there : m.get? k with
    | some c => exact Or.inl (by rw [same, there, ← h, there, Option.getD_some])
    | none => exact Or.inr ⟨same, by rw [there] at h; exact (Option.some.inj h).symm⟩
  · exact Or.inl h

namespace Playback

/-- A playback of a sandbox. -/
abbrev OfSandbox := Playback Sandbox ObjectRef SandboxSnapshot

/-- A playback that has not faulted stands abreast of the course. -/
structure Keeps (log : Log) (start : SandboxSession) (contexts : Option (List Context))
    (errs : List ReplayError) (p : OfSandbox) : Prop where
  isLog : p.log = log
  sound : p.phase ≠ .faulted
  within : p.position ≤ log.size
  last : p.last = log.timeBefore? p.position
  clean : errs.find? ReplayError.isTerminal = none
  course : ∃ c, log.course start p.position = .ok c ∧
    Abreast contexts p.session.notes.checkpoints c.session p.session ∧
    errs.filter ReplayError.isUncaught = c.uncaught

/-- A playback that has faulted stands where the course ends, and has reported its error. -/
structure Broken (log : Log) (start : SandboxSession) (errs : List ReplayError)
    (p : OfSandbox) : Prop where
  isLog : p.log = log
  faulted : p.phase = .faulted
  last : p.last = log.timeBefore? p.position
  fault : ∃ err, errs.find? ReplayError.isTerminal = some err ∧ log.FaultsAt start p.position err

/-- A playback that is driven keeps to the course, and so do its checkpoints. -/
structure Along (log : Log) (start : SandboxSession) (contexts : Option (List Context))
    (errs : List ReplayError) (p : OfSandbox) : Prop where
  known : ∀ i cp, p.session.notes.checkpoints.get? i = some cp → Fits log start i cp
  state : Keeps log start contexts errs p ∨ Broken log start errs p

theorem callBegin?_spec {ρ η σ : Type} {p : Playback ρ η σ} {begun : Time} {position : Nat}
    {call : CallBegin} (h : p.callBegin? begun = some (position, call)) :
    ∃ e, p.log.get? position = some e ∧ e.time = begun ∧ e.callBegin? = some call := by
  simp only [callBegin?, Log.positionOf?, Option.bind_eq_bind, Option.bind_eq_some_iff,
    Option.map_eq_some_iff] at h
  obtain ⟨i, ⟨⟨j, f⟩, found, rfl⟩, e, there, call', isCall, same⟩ := h
  obtain ⟨rfl, rfl⟩ := Prod.mk.inj (Option.some.inj same)
  obtain ⟨there', time⟩ := Log.findBelow?_spec found
  obtain rfl := Option.some.inj (there.symm.trans there')
  exact ⟨e, there, by simpa using time, isCall⟩

section Advance

variable {log : Log} {start : SandboxSession} {contexts : Option (List Context)}
variable {errs : List ReplayError} {p : OfSandbox}

theorem Along.toggle (h : Along log start contexts errs p) (stopped : Bool) :
    Along log start contexts errs { p with stopped } := by
  refine ⟨h.known, ?_⟩
  rcases h.state with keeps | broken
  · exact Or.inl { keeps with }
  · exact Or.inr { broken with }

theorem find?_append_of_none {errs : List ReplayError} {err : ReplayError}
    (clean : errs.find? ReplayError.isTerminal = none) :
    (errs ++ [err]).find? ReplayError.isTerminal = if err.isTerminal then some err else none := by
  rw [List.find?_append, clean]
  cases h : err.isTerminal <;> simp [h]

theorem Keeps.next (h : Keeps log start contexts errs p) {e : Event} (next : p.next? = some e) :
    log.get? p.position = some e := by
  rw [← h.isLog]
  exact next

/-- Errors that come after the one that ended the replay say nothing new. -/
theorem Broken.more (h : Broken log start errs p) (err : ReplayError) :
    Broken log start (errs ++ [err]) p := by
  obtain ⟨first, found, place⟩ := h.fault
  exact { h with fault := ⟨first, by rw [List.find?_append, found]; rfl, place⟩ }

/-- Being stopped is no news either. -/
theorem Keeps.aborted (h : Keeps log start contexts errs p) (next : Option Time) :
    Keeps log start contexts (errs ++ [.aborted next]) p := by
  obtain ⟨c, here, abreast, uncaught⟩ := h.course
  refine { h with clean := ?_, course := ⟨c, here, abreast, ?_⟩ }
  · rw [find?_append_of_none h.clean]
    rfl
  · rw [List.filter_append, uncaught]
    exact List.append_nil _

/-- A checkpoint that is noted behind an event is one of the root call that the event ends. It is
    noted at an event of the time at which that call began. -/
theorem noted_behind {c d : Course Sandbox ObjectRef SandboxSnapshot} {e : Event}
    {session : SandboxSession} {i : Nat} {cp : Checkpoint ObjectRef SandboxSnapshot}
    (empty : start.stack = .empty) (isLog : p.log = log)
    (here : log.course start p.position = .ok c) (next : log.get? p.position = some e)
    (after : c.after p.position e = .ok d)
    (found : ((p.past e session).withCheckpoint e).session.notes.checkpoints.get? i = some cp) :
    session.notes.checkpoints.get? i = some cp ∨ ∃ k first call callEnd b f,
      log.RootCall start k p.position first e call callEnd b d ∧ log.get? i = some f ∧
        f.time = first.time ∧
        cp = ⟨session.engine.snapshot, session.tags, session.callbacks, session.pending, e.time⟩ := by
  rcases withCheckpoint_cases (p.past e session) e with
    same | ⟨callEnd, taken, position, begin_, isEnd, depth, take, begun, noted⟩
  · rw [same] at found
    exact Or.inl found
  rw [noted] at found
  rcases Notes.get?_once found with old | ⟨rfl, rfl⟩
  · exact Or.inl old
  obtain ⟨k, first, call, b, root⟩ :=
    Log.rootCall_of_end empty here next after (Event.callEnd?_eq_some.1 isEnd) depth
  obtain ⟨f, there, named, -⟩ := callBegin?_spec begun
  exact Or.inr ⟨k, first, call, callEnd, b, f, root, isLog ▸ there, named.trans root.named,
    (Option.some.inj take).symm⟩

/-- The checkpoints of a playback behind an event fit, if those before it do. -/
theorem fits_withCheckpoint {c d : Course Sandbox ObjectRef SandboxSnapshot} {e : Event}
    {session : SandboxSession} (ordered : log.Ordered) (empty : start.stack = .empty)
    (isLog : p.log = log)
    (known : ∀ i cp, session.notes.checkpoints.get? i = some cp → Fits log start i cp)
    (here : log.course start p.position = .ok c) (next : log.get? p.position = some e)
    (after : c.after p.position e = .ok d)
    (abreast : Abreast contexts session.notes.checkpoints d.session session) :
    ∀ i cp, ((p.past e session).withCheckpoint e).session.notes.checkpoints.get? i = some cp →
      Fits log start i cp := by
  intro i cp found
  rcases noted_behind empty isLog here next after found with
    old | ⟨k, first, call, callEnd, b, f, root, there, named, rfl⟩
  · exact known i cp old
  obtain rfl : i = k := ordered.position_unique there root.first named
  refine ⟨p.position, first, e, call, callEnd, b, d, root, ?_⟩
  rw [abreast.engine.snapshot, abreast.tags, abreast.callbacks, abreast.pending]

/-- An event that the course gets past, the playback gets past too. -/
theorem Keeps.past {c d : Course Sandbox ObjectRef SandboxSnapshot} {e : Event}
    {session : SandboxSession} {errs' : List ReplayError} (h : Keeps log start contexts errs p)
    (known : ∀ i cp, p.session.notes.checkpoints.get? i = some cp → Fits log start i cp)
    (ordered : log.Ordered) (empty : start.stack = .empty)
    (here : log.course start p.position = .ok c) (next : log.get? p.position = some e)
    (after : c.after p.position e = .ok d)
    (abreast : Abreast contexts p.session.notes.checkpoints d.session session)
    (clean : errs'.find? ReplayError.isTerminal = none)
    (uncaught : errs'.filter ReplayError.isUncaught = d.uncaught) :
    Along log start contexts errs' ((p.past e session).withCheckpoint e).atRest := by
  have same := abreast.checkpoints
  have behind := behind_rested p e session
  obtain ⟨notes, noted⟩ := behind.noted
  refine ⟨fits_withCheckpoint ordered empty h.isLog (same ▸ known) here next after
    (same ▸ abreast), Or.inl ⟨behind.isLog.trans h.isLog, behind.sound, ?_, ?_, clean, d, ?_, ?_,
      uncaught⟩⟩
  · rw [behind.position]
    exact Log.get?_lt next
  · rw [behind.position, behind.last, Log.timeBefore?_succ next]
  · rw [behind.position]
    exact (Log.course_succ here next).trans after
  · rw [noted]
    exact { abreast with checkpoints := rfl }

/-- A shortcut leads from the begin of a root call behind an end that names it. -/
structure Leads {ρ η σ : Type} (p : Playback ρ η σ) (e : Event) (call : CallBegin)
    (cp : Checkpoint η σ) (endPosition : Nat) (ending : Event) (callEnd : CallEnd) : Prop where
  isBegin : e.callBegin? = some call
  depth : call.depth = 0
  noted : p.session.notes.checkpoints.get? p.position = some cp
  final : p.log.get? endPosition = some ending
  isEnd : ending.callEnd? = some callEnd
  named : callEnd.begun = e.time
  resume : cp.resumeAfter = ending.time

theorem shortcut?_leads {ρ η σ : Type} {p : Playback ρ η σ} {e ending : Event}
    {target : Option Time} {call : CallBegin} {cp : Checkpoint η σ} {endPosition : Nat}
    {callEnd : CallEnd}
    (h : target.bind (p.shortcut? e) = some (call, cp, endPosition, ending, callEnd)) :
    p.Leads e call cp endPosition ending callEnd := by
  obtain ⟨t, -, h⟩ := Option.bind_eq_some_iff.1 h
  simp only [shortcut?, Option.bind_eq_bind, Option.bind_eq_some_iff] at h
  obtain ⟨call', isBegin, cp', noted, ⟨endPosition', ending'⟩, matched, callEnd', isEnd, h⟩ := h
  split at h
  · rename_i may
    simp only [Option.pure_def, Option.some.injEq, Prod.mk.injEq] at h
    obtain ⟨rfl, rfl, rfl, rfl, rfl⟩ := h
    obtain ⟨final, named⟩ := Log.findBelow?_spec matched
    rw [isEnd] at named
    exact ⟨isBegin, may.2.1, noted, final, isEnd, of_decide_eq_true named, may.2.2.2⟩
  · exact absurd h (by simp)

/-- The checkpoint that may be restored is the one of this very call, up to this very end. -/
theorem Keeps.shortcut {e ending : Event} {target : Option Time} {call : CallBegin}
    {cp : Checkpoint ObjectRef SandboxSnapshot} {endPosition : Nat} {callEnd : CallEnd}
    (h : Keeps log start contexts errs p)
    (known : ∀ i cp, p.session.notes.checkpoints.get? i = some cp → Fits log start i cp)
    (ordered : log.Ordered) (facing : p.Facing e)
    (shortcut : target.bind (p.shortcut? e) = some (call, cp, endPosition, ending, callEnd)) :
    ∃ b d, log.RootCall start p.position endPosition e ending call callEnd b d ∧
      cp = ⟨d.session.engine.snapshot, d.session.tags, d.session.callbacks, d.session.pending,
        ending.time⟩ := by
  obtain ⟨isBegin, -, noted, final, isEnd, -, resume⟩ := shortcut?_leads shortcut
  -- the checkpoint was noted for some root call; times are unique, so both ends are these
  obtain ⟨j, begin_, ending', call', callEnd', b, d, root, rfl⟩ := known p.position cp noted
  obtain rfl : begin_ = e := Option.some.inj (root.first.symm.trans (h.next facing.next))
  have isBegin' := Event.callBegin?_eq_some.2 root.begins
  obtain rfl : call' = call := Option.some.inj (isBegin'.symm.trans isBegin)
  rw [h.isLog] at final
  obtain rfl : j = endPosition := ordered.position_unique root.final final resume
  obtain rfl : ending' = ending := Option.some.inj (root.final.symm.trans final)
  have isEnd' := Event.callEnd?_eq_some.2 root.ends
  obtain rfl : callEnd' = callEnd := Option.some.inj (isEnd'.symm.trans isEnd)
  exact ⟨b, d, root, rfl⟩

/-- A session that is put back to the checkpoint of a root call stands abreast of the course behind
    the call. What the checkpoint leaves out never changes. -/
theorem restored_abreast {i j : Nat} {begin_ ending : Event} {call : CallBegin} {callEnd : CallEnd}
    {b d : Course Sandbox ObjectRef SandboxSnapshot} {s session : SandboxSession}
    (root : log.RootCall start i j begin_ ending call callEnd b d)
    (moved : d.session.Standing contexts) (known : s.engine.contexts = contexts)
    (maxDepth : d.session.settings.maxDepth = s.settings.maxDepth)
    (verify : d.session.settings.verifyExceptions = s.settings.verifyExceptions)
    (restore : Session.restore ⟨d.session.engine.snapshot, d.session.tags, d.session.callbacks,
      d.session.pending, ending.time⟩ s = .ok () session) :
    Abreast contexts session.notes.checkpoints d.session { session with
      stack := (session.stack.startRoot begin_.time call.callback).recordMatch begin_.time
        ending.time } := by
  obtain rfl := (EStateM.Result.ok.inj restore).2
  exact ⟨⟨rfl, moved.engine.left, known⟩, rfl, root.closed, root.root, root.rootCallback, rfl, rfl,
    maxDepth, verify, moved.left, fun context current => absurd current (by simp), rfl⟩

/-- **Restoring a checkpoint that fits comes to where the course is behind the call.** -/
theorem Keeps.beyond {e ending : Event} {target : Option Time} {call : CallBegin}
    {cp : Checkpoint ObjectRef SandboxSnapshot} {endPosition : Nat} {callEnd : CallEnd}
    {session : SandboxSession} (h : Keeps log start contexts errs p)
    (known : ∀ i cp, p.session.notes.checkpoints.get? i = some cp → Fits log start i cp)
    (ordered : log.Ordered) (standing : start.Standing contexts) (facing : p.Facing e)
    (shortcut : target.bind (p.shortcut? e) = some (call, cp, endPosition, ending, callEnd))
    (restore : Session.restore cp p.session = .ok () session) :
    Along log start contexts
      (errs ++ if callEnd.raised then
        [.uncaughtException e.time ending.time callEnd.terminatingException] else [])
      (p.beyond e call endPosition ending session) := by
  obtain ⟨b, d, root, rfl⟩ := h.shortcut known ordered facing shortcut
  obtain ⟨c, here, abreast, uncaught⟩ := h.course
  obtain rfl : b = c := Except.ok.inj (root.before.symm.trans here)
  have settings : d.session.settings = b.session.settings :=
    (Log.course_settings root.after).trans (Log.course_settings here).symm
  have restored := restored_abreast root (Log.course_standing standing root.after)
    abreast.engine.right (settings ▸ abreast.maxDepth) (settings ▸ abreast.verify) restore
  obtain rfl := (EStateM.Result.ok.inj restore).2
  refine ⟨known, Or.inl ⟨h.isLog, by simp [Playback.beyond], Log.get?_lt root.final,
    (Log.timeBefore?_succ root.final).symm, ?_, d, root.after, restored, ?_⟩⟩
  · split
    · rw [find?_append_of_none h.clean]; rfl
    · rw [List.append_nil]; exact h.clean
  · rw [List.filter_append, uncaught, root.uncaught]
    split <;> rfl

/-- Where the course ends by an error, the playback faults. -/
theorem Keeps.fails {c : Course Sandbox ObjectRef SandboxSnapshot} {e : Event}
    {session : SandboxSession} {err : ReplayError} (h : Keeps log start contexts errs p)
    (here : log.course start p.position = .ok c) (next : log.get? p.position = some e)
    (after : c.after p.position e = .error err) (terminal : err.isTerminal = true) :
    Broken log start (errs ++ [err]) { p.past e session with phase := .faulted } := by
  refine ⟨h.isLog, rfl, ?_, err, ?_, .event (Log.get?_lt next) here ?_⟩
  · exact (Log.timeBefore?_succ next).symm
  · rw [find?_append_of_none h.clean, if_pos terminal]
  · exact (Log.course_succ here next).trans after

/-- **Every advance keeps to the course.** -/
theorem Along.kept (ordered : log.Ordered) (empty : start.stack = .empty)
    (standing : start.Standing contexts) (target : Option Time) (errs : List ReplayError)
    (p : OfSandbox) (h : Along log start contexts errs p) :
    Holds (Along log start contexts) errs (advance target p) := by
  have advanced := advance_advanced target p
  generalize Playback.advance target p = r at advanced
  rcases h.state with keeps | broken
  case inr =>
    obtain rfl := advanced.refuses broken.faulted
    exact ⟨h.known, Or.inr (broken.more .faulted)⟩
  obtain ⟨c, here, abreast, uncaught⟩ := keeps.course
  cases advanced with
  | refused fault => exact absurd fault keeps.sound
  | aborted => exact ⟨h.known, Or.inl (keeps.aborted _)⟩
  | finished => exact h
  | truncated _ none frame isOpen =>
    have atEnd : p.position = log.size := by
      have outside : log.size ≤ p.position := Array.getElem?_eq_none_iff.1 (keeps.isLog ▸ none)
      exact Nat.le_antisymm keeps.within outside
    refine ⟨h.known, Or.inr ⟨keeps.isLog, rfl, keeps.last, .truncatedLog frame.begun, ?_, ?_⟩⟩
    · rw [find?_append_of_none keeps.clean]
      rfl
    -- the course has the same calls open there
    · have isOpen : c.session.stack.outermost? = some frame := by
        rw [CallStack.outermost?, abreast.frames]
        exact isOpen
      show log.FaultsAt start p.position _
      rw [atEnd] at here ⊢
      exact .atEnd here isOpen
  -- times increase, so no event comes out of order
  | outOfOrder _ e previous next last late =>
    rw [keeps.last] at last
    have later := ordered.timeBefore_lt (keeps.next next) last
    exact absurd late (Time.not_le.2 later)
  -- a sandbox can always be put back to what was captured
  | unrestored _ e _ call cp endPosition ending callEnd _ fault session restore =>
    exact absurd restore (by simp [Session.restore, Engine.restore])
  | passed _ e facing call cp endPosition ending callEnd shortcut session restore quiet =>
    have along := keeps.beyond h.known ordered standing facing shortcut restore
    rw [quiet, if_neg Bool.false_ne_true, List.append_nil] at along
    exact along
  | passedRaising _ e facing call cp endPosition ending callEnd shortcut session restore raised =>
    have along := keeps.beyond h.known ordered standing facing shortcut restore
    rw [raised] at along
    exact along
  -- the course executes the same event, and its session stays abreast of the playback's
  | played _ e facing _ session run =>
    have together := Session.execute_abreast abreast p.position p.position e
    rw [run] at together
    obtain ⟨u, session', run', -, abreast'⟩ := together.of_ok
    exact keeps.past h.known ordered empty here (keeps.next facing.next)
      (Course.after_of_ok run') abreast' keeps.clean uncaught
  | playedRaising _ e facing _ session root ended terminating run =>
    have together := Session.execute_abreast abreast p.position p.position e
    rw [run] at together
    obtain ⟨err, session', run', rfl, abreast'⟩ := together.of_error
    refine keeps.past h.known ordered empty here (keeps.next facing.next)
      (Course.after_of_passing run' rfl) abreast' ?_ ?_
    · rw [find?_append_of_none keeps.clean]
      rfl
    · rw [List.filter_append, uncaught]
      rfl
  | failed _ e facing _ session err run terminal =>
    have together := Session.execute_abreast abreast p.position p.position e
    rw [run] at together
    obtain ⟨err', session', run', rfl, abreast'⟩ := together.of_error
    have after := Course.after_of_terminal run' terminal
    exact ⟨fun i cp found => h.known i cp (abreast'.checkpoints ▸ found),
      Or.inr (keeps.fails here (keeps.next facing.next) after terminal)⟩

/-- An advance that does not end the replay leaves fewer events. -/
theorem Along.ahead (h : Along log start contexts errs p) (ordered : log.Ordered)
    (going : p.stopped = false) {target : Option Time}
    {r : EStateM.Result ReplayError OfSandbox (Option Step)} (advanced : Advanced target p r) :
    GoesOn (Ahead p) r := by
  refine ahead_of_advanced going (fun e call cp endPosition ending callEnd ready facing shortcut => ?_)
    advanced
  rcases h.state with keeps | broken
  · obtain ⟨b, d, root, -⟩ := keeps.shortcut h.known ordered facing shortcut
    exact Nat.le_of_lt root.less
  · exact absurd broken.faulted ready.sound

/-- A playback that keeps to the course comes to an end, if it is not stopped. -/
theorem Along.finishes (h : Along log start contexts errs p) (ordered : log.Ordered)
    (empty : start.stack = .empty) (standing : start.Standing contexts) (going : p.stopped = false)
    (target : Option Time) : ∃ n errs' q, Finishes target p n errs' q ∧ n ≤ p.left := by
  refine finishes_of_ahead (M := fun p => ∃ errs, Along log start contexts errs p) ?_ ?_ ⟨errs, h⟩
    going
  · rintro p ⟨errs, along⟩
    exact (along.kept ordered empty standing target).goesOn
  · rintro p ⟨errs, along⟩ going
    exact along.ahead ordered going (advance_advanced target p)

/-! ## Driving -/

/-- However it is driven, a playback keeps to the course. -/
theorem Along.driven (h : Along log start contexts errs p) (ordered : log.Ordered)
    (empty : start.stack = .empty) (standing : start.Standing contexts) (demands : List Demand) :
    Along log start contexts (errs ++ errorsOf (drive demands p).1) (drive demands p).2 :=
  drive_induction (fun target _ _ h => h.kept ordered empty standing target _ _) demands
    (fun stopped _ _ _ h => h.toggle stopped) h

end Advance

/-- A playback at the start of a log, on a sandbox in which the host has prepared what it likes. -/
def fresh (log : Log) (engine : Sandbox) (settings : Settings) (fastForward takeCheckpoints : Bool)
    (notes : Notes ObjectRef SandboxSnapshot) : OfSandbox :=
  .start log (.start engine { settings with fastForward, takeCheckpoints } notes)

/-- What can be known of a log from earlier playbacks that started alike: nothing, or what one of
    them knew in the end, whatever was asked of it. -/
inductive Learned (log : Log) (engine : Sandbox) (settings : Settings) :
    Notes ObjectRef SandboxSnapshot → Prop
  | nothing : Learned log engine settings .empty
  | replay {notes : Notes ObjectRef SandboxSnapshot} (before : Learned log engine settings notes)
      (fastForward takeCheckpoints : Bool) (demands : List Demand) :
      Learned log engine settings
        (drive demands (fresh log engine settings fastForward takeCheckpoints notes)).2.session.notes

section Fresh

variable {log : Log} {engine : Sandbox} {settings : Settings}

/-- The session with whose course all playbacks are compared. -/
def reference (engine : Sandbox) (settings : Settings) : SandboxSession :=
  .start engine settings .empty

theorem reference_standing (engine : Sandbox) (settings : Settings) :
    (reference engine settings).Standing engine.contexts :=
  ⟨⟨rfl, rfl, rfl⟩, rfl, rfl, rfl, rfl, rfl, rfl, rfl, rfl,
    fun _ h => absurd h (by simp [reference, Session.start]),
    fun _ h => absurd h (by simp [reference, Session.start]), rfl⟩

theorem fresh_along {notes : Notes ObjectRef SandboxSnapshot} (fastForward takeCheckpoints : Bool)
    (known : ∀ i cp, notes.checkpoints.get? i = some cp → Fits log (reference engine settings) i cp) :
    Along log (reference engine settings) engine.contexts []
      (fresh log engine settings fastForward takeCheckpoints notes) :=
  ⟨known, Or.inl ⟨rfl, by simp [fresh, start], Nat.zero_le _, rfl, rfl, ⟨reference engine settings, []⟩,
    rfl, { reference_standing engine settings with
      engine := ⟨rfl, rfl, rfl⟩
      right := fun _ h => absurd h (by simp [fresh, start, Session.start])
      checkpoints := rfl }, rfl⟩⟩

theorem Learned.fits {notes : Notes ObjectRef SandboxSnapshot} (ordered : log.Ordered)
    (h : Learned log engine settings notes) :
    ∀ i cp, notes.checkpoints.get? i = some cp → Fits log (reference engine settings) i cp := by
  induction h with
  | nothing => exact fun i cp found => absurd found (by simp [Notes.empty])
  | replay _ fastForward takeCheckpoints demands ih =>
    exact ((fresh_along fastForward takeCheckpoints ih).driven ordered rfl
      (reference_standing engine settings) demands).known

/-- A driven playback keeps to the course of the reference. -/
theorem Learned.along {notes : Notes ObjectRef SandboxSnapshot} (ordered : log.Ordered)
    (learned : Learned log engine settings notes) (fastForward takeCheckpoints : Bool)
    (demands : List Demand) :
    let made := drive demands (fresh log engine settings fastForward takeCheckpoints notes)
    Along log (reference engine settings) engine.contexts (errorsOf made.1) made.2 :=
  (fresh_along fastForward takeCheckpoints (learned.fits ordered)).driven ordered rfl
    (reference_standing engine settings) demands

end Fresh

/-! ## Two playbacks -/

/-- The playbacks have come to the same: in the engine, in the session, in the log. -/
structure Agree (p q : OfSandbox) : Prop where
  heap : p.session.engine.heap = q.session.engine.heap
  calls : p.session.engine.calls = q.session.engine.calls
  lastStatement : p.session.engine.lastStatement = q.session.engine.lastStatement
  /-- The tables are equal with their handles. -/
  tags : p.session.tags = q.session.tags
  callbacks : p.session.callbacks = q.session.callbacks
  pending : p.session.pending = q.session.pending
  frames : p.session.stack.frames = q.session.stack.frames
  root : p.session.stack.root = q.session.stack.root
  rootCallback : p.session.stack.rootCallback = q.session.stack.rootCallback
  last : p.last = q.last

section Two

variable {log : Log} {start : SandboxSession} {contexts : Option (List Context)}
variable {errs errs' : List ReplayError} {p q : OfSandbox}

theorem Along.keeps (h : Along log start contexts errs p) (sound : p.phase ≠ .faulted) :
    Keeps log start contexts errs p :=
  h.state.resolve_right fun broken => sound broken.faulted

theorem Along.broken (h : Along log start contexts errs p) (faulted : p.phase = .faulted) :
    Broken log start errs p :=
  h.state.resolve_left fun keeps => keeps.sound faulted

/-- Playbacks that keep to one course agree where they meet. -/
theorem Keeps.agree (h : Keeps log start contexts errs p) (h' : Keeps log start contexts errs' q)
    (meet : p.position = q.position) :
    Agree p q ∧ errs.filter ReplayError.isUncaught = errs'.filter ReplayError.isUncaught := by
  obtain ⟨c, here, left, uncaught⟩ := h.course
  obtain ⟨c', here', right, uncaught'⟩ := h'.course
  rw [meet] at here
  obtain rfl : c = c' := Except.ok.inj (here.symm.trans here')
  refine ⟨⟨?_, ?_, ?_, left.tags.symm.trans right.tags, left.callbacks.symm.trans right.callbacks,
    left.pending.symm.trans right.pending, left.frames.symm.trans right.frames,
    left.root.symm.trans right.root, left.rootCallback.symm.trans right.rootCallback, ?_⟩,
    uncaught.trans uncaught'.symm⟩
  · exact left.engine.heap.symm.trans right.engine.heap
  · exact left.engine.calls.symm.trans right.engine.calls
  · exact left.engine.lastStatement.symm.trans right.engine.lastStatement
  · rw [h.last, h'.last, meet]

/-- Where the course ends by an error, no playback comes to the end of the log in peace. -/
theorem Keeps.not_finished (h : Keeps log start contexts errs p) {position : Nat}
    {err : ReplayError} (fault : log.FaultsAt start position err) (target : Option Time) :
    advance target p ≠ .ok none p := by
  intro done
  have advanced := advance_advanced target p
  rw [done] at advanced
  obtain ⟨c, here, abreast, -⟩ := h.course
  cases advanced with
  | finished _ none closed =>
    have outside : log.size ≤ p.position := Array.getElem?_eq_none_iff.1 (h.isLog ▸ none)
    obtain atEnd : p.position = log.size := Nat.le_antisymm h.within outside
    rw [atEnd] at here
    cases fault with
    | event inside _ broken =>
      exact absurd (here.symm.trans (Log.course_of_error broken inside)) (by simp)
    | atEnd here' isOpen =>
      obtain rfl := Except.ok.inj (here.symm.trans here')
      have closed' : c.session.stack.outermost? = .none := by
        rw [CallStack.outermost?, abreast.frames]
        exact closed
      exact absurd (isOpen.symm.trans closed') (by simp)

/-- A playback that is asked often enough to run comes to the end of the log, if it meets no error
    that ends the replay. -/
theorem Along.rests (h : Along log start contexts errs p) (ordered : log.Ordered)
    (empty : start.stack = .empty) (standing : start.Standing contexts) (free : p.stopped = false)
    (clean : firstTerminal (drive (List.replicate (log.size + 2) .run) p).1 = none) :
    let onward := (drive (List.replicate (log.size + 2) .run) p).2
    ∃ target, advance target onward = .ok none onward := by
  have isLog : p.log = log := h.state.elim Keeps.isLog Broken.isLog
  have ends := h.finishes ordered empty standing free (some p.horizon)
  exact ⟨some p.horizon, rests_of_finishes ends (Nat.le_of_eq (isLog ▸ rfl)) clean⟩

/-- Where the course ends by an error, every playback ends by it, if it is made to go on. -/
theorem Along.faults (h : Along log start contexts errs p) (ordered : log.Ordered)
    (empty : start.stack = .empty) (standing : start.Standing contexts) {position : Nat}
    {err : ReplayError} (fault : log.FaultsAt start position err) :
    let onward := drive (.goOn :: List.replicate (log.size + 2) .run) p
    onward.2.phase = .faulted ∧ onward.2.position = position ∧
      onward.2.last = log.timeBefore? position ∧
      (errs ++ errorsOf onward.1).find? ReplayError.isTerminal = some err := by
  intro onward
  have ended : Along log start contexts (errs ++ errorsOf onward.1) onward.2 :=
    h.driven ordered empty standing _
  by_cases faulted : onward.2.phase = .faulted
  · have broken := ended.broken faulted
    obtain ⟨err', reported, place⟩ := broken.fault
    obtain ⟨same, rfl⟩ := fault.unique place
    exact ⟨faulted, same.symm, same ▸ broken.last, reported⟩
  · -- it would have come to the end of the log, which the course never does
    have keeps := ended.keeps faulted
    have clean := keeps.clean
    rw [List.find?_append] at clean
    let going : OfSandbox := { p with stopped := false }
    have first : onward = (.ok none :: (drive (List.replicate (log.size + 2) .run) going).1,
        (drive (List.replicate (log.size + 2) .run) going).2) := rfl
    rw [first] at clean keeps
    obtain ⟨target, rests⟩ := (h.toggle false).rests ordered empty standing rfl
      (Option.or_eq_none_iff.1 clean).2
    exact absurd rests (keeps.not_finished fault target)

/-! ## A log without faults -/

/-- A step that does not fault comes one event further. -/
theorem Along.step_on (along : Along log start contexts errs p) (ordered : log.Ordered)
    (empty : start.stack = .empty) (standing : start.Standing contexts)
    (sound : ∀ position err, ¬ log.FaultsAt start position err) (free : p.stopped = false)
    (inside : p.position < log.size) :
    let next := (answered (serve .step p)).2
    (∃ errs', Along log start contexts errs' next) ∧ next.stopped = false ∧
      next.position = p.position + 1 := by
  have kept := along.kept ordered empty standing none
  have advanced := advance_advanced none p
  -- nothing faults on the course, so nothing faults along it
  have keeps (errs' : List ReplayError) (q : OfSandbox)
      (h : Along log start contexts errs' q) : q.phase ≠ .faulted := by
    intro faulted
    obtain ⟨err, -, place⟩ := (h.broken faulted).fault
    exact sound _ _ place
  intro next
  have served : next = (answered (advance none p)).2 := rfl
  rw [served]
  generalize Playback.advance none p = r at kept advanced
  cases advanced with
  | refused fault => exact absurd fault (keeps _ _ along)
  | aborted _ stopped => exact absurd stopped (by simp [free])
  | finished _ none =>
    have outside : log.size ≤ p.position :=
      Array.getElem?_eq_none_iff.1 ((along.keeps (keeps _ _ along)).isLog ▸ none)
    omega
  | played _ e facing _ session =>
    obtain ⟨-, -, -, position, -, stopped⟩ := withCheckpoint_frame (p.past e session) e
    exact ⟨⟨_, kept⟩, stopped.trans free, position⟩
  | playedRaising _ e facing _ session =>
    obtain ⟨-, -, -, position, -, stopped⟩ := withCheckpoint_frame (p.past e session) e
    exact ⟨⟨_, kept⟩, stopped.trans free, position⟩
  | truncated => exact absurd rfl (keeps _ _ kept)
  | outOfOrder => exact absurd rfl (keeps _ _ kept)
  | unrestored => exact absurd rfl (keeps _ _ kept)
  | failed => exact absurd rfl (keeps _ _ kept)
  | passed _ _ _ _ _ _ _ _ shortcut => exact absurd shortcut (by simp)
  | passedRaising _ _ _ _ _ _ _ _ shortcut => exact absurd shortcut (by simp)

/-- Step by step, a playback that never faults comes by every position. -/
theorem Along.steps_to (along : Along log start contexts errs p) (ordered : log.Ordered)
    (empty : start.stack = .empty) (standing : start.Standing contexts)
    (sound : ∀ position err, ¬ log.FaultsAt start position err) (free : p.stopped = false)
    {k : Nat} (inside : p.position + k ≤ log.size) :
    (drive (List.replicate k .step) p).2.position = p.position + k := by
  induction k generalizing errs p with
  | zero => rfl
  | succ k ih =>
    obtain ⟨⟨errs', along⟩, free, position⟩ :=
      along.step_on ordered empty standing sound free (by omega)
    rw [List.replicate_succ, drive]
    dsimp only
    rw [ih along free (by omega), position]
    omega

end Two

/-- **Neither fast-forward nor the way of going through a log changes what comes of it.** Take any
    two playbacks of a log whose times increase, on sandboxes that start alike, with any checkpoints
    that playbacks before them took. Each may restore checkpoints or not, take them or not, and be
    asked for anything in any order. Where both stand at the same position and have not faulted,
    they agree, and the same exceptions were reported. Where one has faulted, the other one, made to
    go on to the end, faults at the same place by the same error. -/
theorem fast_forward_changes_nothing {log : Log} (ordered : log.Ordered) {engine : Sandbox}
    {settings : Settings} {notes notes' : Notes ObjectRef SandboxSnapshot}
    (learned : Learned log engine settings notes) (learned' : Learned log engine settings notes')
    (fastForward takeCheckpoints fastForward' takeCheckpoints' : Bool)
    (demands demands' : List Demand) :
    let one := drive demands (fresh log engine settings fastForward takeCheckpoints notes)
    let other := drive demands' (fresh log engine settings fastForward' takeCheckpoints' notes')
    (one.2.phase ≠ .faulted → other.2.phase ≠ .faulted → one.2.position = other.2.position →
      Agree one.2 other.2 ∧ (errorsOf one.1).filter ReplayError.isUncaught =
        (errorsOf other.1).filter ReplayError.isUncaught) ∧
    (one.2.phase = .faulted →
      let onward := drive (.goOn :: List.replicate (log.size + 2) .run) other.2
      onward.2.phase = .faulted ∧ onward.2.position = one.2.position ∧
        onward.2.last = one.2.last ∧
        ∃ err, firstTerminal one.1 = some err ∧ firstTerminal (other.1 ++ onward.1) = some err) := by
  intro one other
  have standing := reference_standing engine settings
  have along := learned.along ordered fastForward takeCheckpoints demands
  have along' := learned'.along ordered fastForward' takeCheckpoints' demands'
  refine ⟨fun sound sound' meet => (along.keeps sound).agree (along'.keeps sound') meet, ?_⟩
  intro faulted onward
  obtain ⟨err, reported, place⟩ := (along.broken faulted).fault
  obtain ⟨faults, same, last, told⟩ := along'.faults ordered rfl standing place
  refine ⟨faults, same, last.trans (along.broken faulted).last.symm, err, reported, ?_⟩
  rw [firstTerminal, errorsOf_append]
  exact told

/-- A log of one root call. -/
def oneCall : Log :=
  ⟨#[⟨⟨1⟩, ⟨0⟩, .allocateFunction none⟩,
    ⟨⟨2⟩, ⟨0⟩, .callBegin ⟨0, .none, ⟨1⟩, ⟨0⟩, none, [.bool true]⟩⟩,
    ⟨⟨3⟩, ⟨0⟩, .callEnd ⟨⟨2⟩, 0, false, false, ⟨0⟩⟩⟩]⟩

/-- What the first playback of `oneCall` learns: the checkpoint behind the call. -/
def oneCallNotes : Notes ObjectRef SandboxSnapshot :=
  (drive [.run] (fresh oneCall (.fresh none) {} false true .empty)).2.session.notes

/-- A second playback passes the call by, so that two demands bring it behind three events, and
    agrees there with one that goes step by step. -/
theorem oneCall_passed_by :
    let one := drive [.step, .stepToward ⟨3⟩] (fresh oneCall (.fresh none) {} true false oneCallNotes)
    let other := drive [.step, .step, .step] (fresh oneCall (.fresh none) {} true false oneCallNotes)
    one.2.position = 3 ∧ Agree one.2 other.2 := by
  have learned : Learned oneCall (.fresh none) {} oneCallNotes := .replay .nothing false true [.run]
  intro one other
  refine ⟨by decide +kernel, ?_⟩
  exact ((fast_forward_changes_nothing (by decide +kernel) learned learned true false true false
    [.step, .stepToward ⟨3⟩] [.step, .step, .step]).1 (by decide +kernel) (by decide +kernel)
    (by decide +kernel)).1

end Playback

end Retrace
