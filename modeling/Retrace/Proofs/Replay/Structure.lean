import Retrace.Log.Structure
import Retrace.Proofs.Replay.Ending

/-!
# Replay faults where the structure of the log does

Two checkers look at the calls of a log. `Log.problems` reads the events alone, keeps the times at
which the open calls began, and goes on after everything it finds. A replay keeps frames with depths
of their own, resets them at root calls, and ends at the first error. They are *not* the same
algorithm, and yet they name the same first fault: `Log.replay_faults_at_first_problem`.

What relates them is `Tracks`. Up to the first problem, the times that the checker keeps are the
begins of the frames that the replay keeps, the frames are numbered from the outermost in, and none
of them began after the last event. So an end that names the innermost call is later than its begin
(`Tracks.callEnd_later`), which is a test that only replay makes.

`Log.located` are the problems of a log with the positions at which they are found. A call that
never ends is found at the end of the log.
-/

namespace Retrace

/-! ## Where problems are -/

/-- What is wrong with the rest of a log that goes on at a position, and at which positions. -/
def Nesting.located (n : Nesting) (position : Nat) : List Event → List (Nat × Problem)
  | [] => ((n.openCalls.getLast?.map Problem.neverEnds).toList).map fun problem => (position, problem)
  | e :: rest =>
    (n.step e).1.map (fun problem => (position, problem)) ++
      (n.step e).2.located (position + 1) rest

/-- What is wrong with a log, and at which positions. -/
def Log.located (log : Log) : List (Nat × Problem) := Nesting.start.located 0 log.events.toList

theorem Nesting.located_problems (n : Nesting) (position : Nat) (events : List Event) :
    (n.located position events).map Prod.snd = n.problems events := by
  induction events generalizing n position with
  | nil => simp [located, problems, Function.comp_def]
  | cons e rest ih =>
    rw [located, problems, List.map_append, List.map_map, ih]
    simp [Function.comp_def]

/-- The problems with their positions are the problems. -/
theorem Log.located_problems (log : Log) : log.located.map Prod.snd = log.problems :=
  Nesting.start.located_problems 0 log.events.toList

theorem Nesting.position_le {n : Nesting} {position : Nat} {events : List Event}
    {found : Nat × Problem} (h : found ∈ n.located position events) : position ≤ found.1 := by
  induction events generalizing n position with
  | nil =>
    obtain ⟨problem, _, rfl⟩ := List.mem_map.1 h
    exact Nat.le_refl _
  | cons e rest ih =>
    rcases List.mem_append.1 h with here | later
    · obtain ⟨problem, _, rfl⟩ := List.mem_map.1 here
      exact Nat.le_refl _
    · exact Nat.le_of_succ_le (ih later)

/-! ## What errors say about the structure -/

/-- Errors that are about the order and the nesting of the events. -/
def ReplayError.isStructural : ReplayError → Bool
  | .outOfOrder .. | .callMismatch .. | .depthMismatch .. | .truncatedLog .. => true
  | _ => false

/-- The error by which a replay meets a problem. Both say the same, down to the times and depths
    that they name. -/
def Problem.error : Problem → ReplayError
  | .timeNotLater time previous => .outOfOrder previous time
  | .beginDepth time recorded expected => .depthMismatch time recorded expected
  | .endDepth time recorded expected => .depthMismatch time recorded expected
  | .wrongCallEnds time named innermost => .callMismatch time named (some innermost)
  | .noCallEnds time named => .callMismatch time named none
  | .neverEnds begun => .truncatedLog begun

theorem ReplayError.IsOperational.not_structural {e : ReplayError} (h : e.IsOperational) :
    e.isStructural = false := by
  cases e <;> first | rfl | exact h.elim

/-! ## One event, seen by both -/

section Stack

variable {η : Type} {n : Nesting} {e : Event} {k k' : CallStack η}

/-- An event that replay has taken has no problem as a begin or end of a call, and both go on with
    the same open calls. -/
theorem CallStep.callProblems (h : CallStep e k k') (same : n.openCalls = k.frames.map Frame.begun)
    (numbered : Numbered k.frames) :
    n.callProblems e = ([], k'.frames.map Frame.begun) := by
  cases h with
  | inner hbegin hend left =>
    unfold Nesting.callProblems
    cases ha : e.action with
    | callBegin call => exact absurd hbegin (by simp [Event.callBegin?, ha])
    | callEnd call => exact absurd hend (by simp [Event.callEnd?, ha])
    | _ => rw [left, ← same]
  | begins call frame action deep begun _ frames =>
    have expected : call.depth.toNat = n.openCalls.length := by
      rw [same, List.length_map]
      exact deep
    rw [frames, List.map_cons, begun, ← same]
    simp only [Nesting.callProblems, action, expected, if_true]
  | finishes call frame frames action top begun later depth left =>
    rw [top] at same numbered
    have around : call.depth.toNat = (frames.map Frame.begun).length := by
      rw [List.length_map, ← depth]
      exact numbered.1
    rw [left]
    simp only [Nesting.callProblems, action, same, List.map_cons, begun, ne_eq, not_true_eq_false,
      if_false, around, if_true]

end Stack

theorem Nesting.timeProblems_eq_nil {n : Nesting} {time : Time}
    (ordered : ∀ previous, n.previous = some previous → previous < time) :
    n.timeProblems time = [] := by
  unfold timeProblems
  cases hp : n.previous with
  | none => rfl
  | some previous => exact if_neg (Time.not_le.2 (ordered previous hp))

namespace Playback

variable {ρ η σ : Type}

/-- What a checker has seen of the events before the playback's position, where it has found
    nothing, and what the playback keeps of them. -/
structure Tracks (n : Nesting) (p : Playback ρ η σ) : Prop where
  ready : p.Ready
  plain : p.session.settings.fastForward = false
  previous : n.previous = p.last
  openCalls : n.openCalls = p.session.stack.frames.map Frame.begun
  numbered : Numbered p.session.stack.frames
  begun : ∀ frame ∈ p.session.stack.frames, ∃ last, p.last = some last ∧ frame.begun ≤ last

theorem Tracks.start (log : Log) (engine : ρ) (settings : Settings) (notes : Notes η σ) :
    Tracks Nesting.start
      (start log (Session.start engine { settings with fastForward := false } notes)) :=
  ⟨⟨by simp [Playback.start], rfl⟩, rfl, rfl, rfl, trivial,
    fun frame h => absurd h (by simp [Playback.start, Session.start, CallStack.empty])⟩

/-- An event that follows the last one follows the begins of all open calls. -/
theorem Tracks.callEnd_later {n : Nesting} {p : Playback ρ η σ} {e : Event} (h : Tracks n p)
    (facing : p.Facing e) {frame : Frame η} (isOpen : frame ∈ p.session.stack.frames) :
    frame.begun < e.time := by
  obtain ⟨last, isLast, before⟩ := h.begun frame isOpen
  have after := Time.lt_iff.1 (facing.ordered last isLast)
  have before := Time.le_iff.1 before
  exact Time.lt_iff.2 (by omega)

theorem Tracks.timeProblems {n : Nesting} {p : Playback ρ η σ} {e : Event} (h : Tracks n p)
    (facing : p.Facing e) : n.timeProblems e.time = [] :=
  Nesting.timeProblems_eq_nil fun previous hp => facing.ordered previous (h.previous ▸ hp)

/-- Behind an event that was replayed, both have come past the event. -/
theorem Tracks.past {n : Nesting} {p q : Playback ρ η σ} {e : Event} (h : Tracks n p)
    (facing : p.Facing e) {session : Session ρ η σ}
    (step : CallStep e p.session.stack session.stack)
    (settings : session.settings = p.session.settings)
    (ready : q.Ready) (same : q.session.settings = session.settings)
    (stack : q.session.stack = session.stack) (last : q.last = some e.time) :
    (n.step e).1 = [] ∧ Tracks (n.step e).2 q := by
  have calls := step.callProblems h.openCalls h.numbered
  simp only [Nesting.step, calls, h.timeProblems facing, List.append_nil]
  have began : ∀ frame ∈ session.stack.frames, frame.begun ≤ e.time := by
    intro frame hf
    cases step with
    | inner _ _ left =>
      exact Time.le_of_lt (h.callEnd_later facing (left ▸ hf))
    | begins call opened _ _ begun _ frames =>
      rw [frames] at hf
      rcases List.mem_cons.1 hf with rfl | old
      · exact begun ▸ Time.le_refl _
      · exact Time.le_of_lt (h.callEnd_later facing old)
    | finishes call closed frames _ top _ _ _ left =>
      rw [left] at hf
      exact Time.le_of_lt (h.callEnd_later facing (top ▸ List.mem_cons_of_mem _ hf))
  refine ⟨trivial, ready, by rw [same, settings, h.plain], last.symm, by rw [stack],
    stack ▸ step.numbered h.numbered, fun frame hf => ⟨e.time, last, began frame (stack ▸ hf)⟩⟩

/-- The events that are left. -/
def rest (p : Playback ρ η σ) : List Event := p.log.events.toList.drop p.position

theorem rest_of_next {p : Playback ρ η σ} {e : Event} (next : p.next? = some e) :
    p.rest = e :: p.log.events.toList.drop (p.position + 1) := by
  have found : p.log.events.toList[p.position]? = some e := by
    rw [Array.getElem?_toList]
    exact next
  obtain ⟨inside, rfl⟩ := List.getElem?_eq_some_iff.1 found
  exact List.drop_eq_getElem_cons inside

theorem rest_of_end {p : Playback ρ η σ} (none : p.next? = none) : p.rest = [] := by
  have outside : p.log.events.size ≤ p.position := Array.getElem?_eq_none_iff.1 none
  exact List.drop_eq_nil_of_le (by rwa [Array.length_toList])

/-- Where nothing is found at an event, the problems are those of the events behind it. -/
theorem located_of_clean {n : Nesting} {p next : Playback ρ η σ} {e : Event}
    (hn : p.next? = some e) (clean : (n.step e).1 = []) (log : next.log = p.log)
    (position : next.position = p.position + 1) :
    n.located p.position p.rest = (n.step e).2.located next.position next.rest := by
  rw [rest_of_next hn, Nesting.located, clean, List.map_nil, List.nil_append, rest, log, position]

theorem shortcut?_plain {p : Playback ρ η σ} (plain : p.session.settings.fastForward = false)
    (e : Event) (target : Option Time) : target.bind (p.shortcut? e) = none := by
  cases target with
  | none => rfl
  | some t =>
    simp only [Option.bind_some, shortcut?, plain, Bool.false_eq_true, false_and, if_false,
      Option.bind_eq_bind]
    cases e.callBegin? with
    | none => rfl
    | some call => cases p.session.notes.checkpoints.get? p.position <;> simp

/-- What an error that ends a replay says about the problems of the event that it happens at. -/
def Reports (n : Nesting) (e : Event) (err : ReplayError) : Prop :=
  err.isStructural = true → ∃ problem rest, (n.step e).1 = problem :: rest ∧ problem.error = err

theorem Tracks.failed {n : Nesting} {p : Playback ρ η σ} {e : Event} (h : Tracks n p)
    (facing : p.Facing e) {session : Session ρ η σ} {err : ReplayError}
    (executed : Session.Executed e p.session (.error err session))
    (terminal : err.isTerminal = true) : Reports n e err := by
  intro structural
  have untimely := h.timeProblems facing
  cases executed with
  | uncaught => exact absurd terminal (by simp [ReplayError.isTerminal])
  | failed _ _ operational => exact absurd structural (by simp [operational.not_structural])
  | tooDeep => exact absurd structural (by simp [ReplayError.isStructural])
  | diverged => exact absurd structural (by simp [ReplayError.isStructural])
  | beginDepth _ call action deep =>
    have other : call.depth.toNat ≠ n.openCalls.length := by
      rw [h.openCalls, List.length_map]
      exact deep
    refine ⟨.beginDepth e.time call.depth n.openCalls.length, [], ?_, ?_⟩
    · simp only [Nesting.step, Nesting.callProblems, action, untimely, other, if_false,
        List.nil_append]
    · rw [Problem.error, h.openCalls, List.length_map]
      rfl
  | noneOpen _ call action top =>
    refine ⟨.noCallEnds e.time call.begun, [], ?_, rfl⟩
    simp only [Nesting.step, Nesting.callProblems, action, untimely, h.openCalls, top,
      List.map_nil, List.nil_append]
  | otherOpen _ call frame frames action top other =>
    -- the begin comes before the end, so it can only be another call's
    have later := h.callEnd_later facing (top ▸ List.mem_cons_self)
    have named : frame.begun ≠ call.begun := by
      rcases other with named | early
      · exact named
      · exact fun same => Time.not_le.2 later (same ▸ early)
    refine ⟨.wrongCallEnds e.time call.begun frame.begun, [], ?_, rfl⟩
    simp only [Nesting.step, Nesting.callProblems, action, untimely, h.openCalls, top,
      List.map_cons, named, ne_eq, not_false_eq_true, if_true, List.nil_append]
  | endDepth _ call frame frames action top begun depth =>
    have numbered := h.numbered
    rw [top] at numbered
    have around : call.depth.toNat ≠ frames.length := by
      rw [← numbered.1]
      exact fun same => depth (UInt32.toNat_inj.1 same.symm)
    refine ⟨.endDepth e.time call.depth frames.length, [], ?_, ?_⟩
    · simp only [Nesting.step, Nesting.callProblems, action, untimely, h.openCalls, top,
        List.map_cons, begun, ne_eq, not_true_eq_false, if_false, List.length_map, around,
        List.nil_append]
    · rw [Problem.error, numbered.1]

variable [Engine ρ η σ]

theorem Tracks.played {n : Nesting} {p : Playback ρ η σ} {e : Event} (h : Tracks n p)
    (facing : p.Facing e) {session : Session ρ η σ}
    (step : CallStep e p.session.stack session.stack)
    (settings : session.settings = p.session.settings) :
    (n.step e).1 = [] ∧ Tracks (n.step e).2 ((p.past e session).withCheckpoint e).atRest := by
  obtain ⟨same, stack, last, -, -, stopped⟩ := withCheckpoint_frame (p.past e session) e
  refine h.past facing step settings ⟨?_, stopped.trans h.ready.going⟩ same stack last
  show (if _ then Phase.idle else Phase.inCall) ≠ .faulted
  split <;> simp

variable [DecidableEq η]

/-- How an advance to an event compares with the checker's look at it: both find nothing and go on
    past it, or the replay ends. -/
def Meets (n : Nesting) (e : Event) (p : Playback ρ η σ) :
    EStateM.Result ReplayError (Playback ρ η σ) (Option Step) → Prop
  | .ok made q => made.isSome = true ∧ (n.step e).1 = [] ∧ Tracks (n.step e).2 q ∧
      q.position = p.position + 1
  | .error err q =>
    if err.isTerminal then Reports n e err
    else (n.step e).1 = [] ∧ Tracks (n.step e).2 q ∧ q.position = p.position + 1

/-- **At every event, either both find nothing and go on alike, or the replay ends**, and if this is
    about the structure, then by the first thing that the checker finds there. -/
theorem Tracks.meets {n : Nesting} {p : Playback ρ η σ} {e : Event} (h : Tracks n p)
    (next : p.next? = some e) {target : Option Time}
    {r : EStateM.Result ReplayError (Playback ρ η σ) (Option Step)} (advanced : Advanced target p r) :
    Meets n e p r := by
  have plain (e : Event) : target.bind (p.shortcut? e) = none := shortcut?_plain h.plain e target
  -- nothing is passed by without checkpoints, so an advance is late, or plays the event
  cases advanced with
  | refused fault => exact absurd fault h.ready.sound
  | aborted _ stopped => exact absurd stopped (by simp [h.ready.going])
  | finished _ none => exact absurd (next.symm.trans none) (by simp)
  | truncated _ none => exact absurd (next.symm.trans none) (by simp)
  | outOfOrder _ e' previous next' last late =>
    obtain rfl := Option.some.inj (next.symm.trans next')
    intro _
    refine ⟨.timeNotLater e.time previous, (n.callProblems e).1, ?_, rfl⟩
    simp only [Nesting.step, Nesting.timeProblems, h.previous, last, late, if_true,
      List.singleton_append]
  | unrestored _ e' _ _ _ _ _ _ shortcut => exact absurd (plain e') (by simp [shortcut])
  | passed _ e' _ _ _ _ _ _ shortcut => exact absurd (plain e') (by simp [shortcut])
  | passedRaising _ e' _ _ _ _ _ _ shortcut => exact absurd (plain e') (by simp [shortcut])
  | played _ e' facing _ session run =>
    obtain rfl := Option.some.inj (next.symm.trans facing.next)
    have executed := Session.execute_executed p.position e p.session
    rw [run] at executed
    cases executed with
    | done _ step settings =>
      obtain ⟨clean, tracks⟩ := h.played facing step settings
      exact ⟨rfl, clean, tracks, (withCheckpoint_frame (p.past e session) e).2.2.2.1⟩
  | playedRaising _ e' facing _ session root ended terminating run =>
    obtain rfl := Option.some.inj (next.symm.trans facing.next)
    have executed := Session.execute_executed p.position e p.session
    rw [run] at executed
    cases executed with
    | uncaught _ call _ step settings =>
      obtain ⟨clean, tracks⟩ := h.played facing step settings
      exact ⟨clean, tracks, (withCheckpoint_frame (p.past e session) e).2.2.2.1⟩
    | failed _ _ operational => exact operational.elim
  | failed _ e' facing _ session err run terminal =>
    obtain rfl := Option.some.inj (next.symm.trans facing.next)
    have executed := Session.execute_executed p.position e p.session
    rw [run] at executed
    rw [Meets, if_pos terminal]
    exact h.failed facing executed terminal

/-- At the end of the log, replay finds the outermost open call, which never ends. -/
theorem Tracks.atEnd {n : Nesting} {p : Playback ρ η σ} (h : Tracks n p) (none : p.next? = none)
    {target : Option Time} {r : EStateM.Result ReplayError (Playback ρ η σ) (Option Step)}
    (advanced : Advanced target p r) :
    match r with
    | .ok made q => made = .none ∧ q = p ∧ n.openCalls.getLast? = .none
    | .error err _ => ∃ begun, n.openCalls.getLast? = some begun ∧ err = .truncatedLog begun := by
  have outermost : n.openCalls.getLast? = p.session.stack.outermost?.map Frame.begun := by
    rw [h.openCalls, List.getLast?_map]
    rfl
  cases advanced with
  | refused fault => exact absurd fault h.ready.sound
  | aborted _ stopped => exact absurd stopped (by simp [h.ready.going])
  | finished _ _ closed => exact ⟨rfl, rfl, by rw [outermost, closed]; rfl⟩
  | truncated _ _ frame isOpen => exact ⟨frame.begun, by rw [outermost, isOpen]; rfl, rfl⟩
  | outOfOrder _ e _ next => exact absurd (next.symm.trans none) (by simp)
  | unrestored _ e facing => exact absurd (facing.next.symm.trans none) (by simp)
  | passed _ e facing => exact absurd (facing.next.symm.trans none) (by simp)
  | passedRaising _ e facing => exact absurd (facing.next.symm.trans none) (by simp)
  | played _ e facing => exact absurd (facing.next.symm.trans none) (by simp)
  | playedRaising _ e facing => exact absurd (facing.next.symm.trans none) (by simp)
  | failed _ e facing => exact absurd (facing.next.symm.trans none) (by simp)

/-- An advance that does not end the replay comes past an event with which nothing is wrong. -/
structure Onward (n : Nesting) (p next : Playback ρ η σ) (e : Event) : Prop where
  event : p.next? = some e
  clean : (n.step e).1 = []
  tracks : Tracks (n.step e).2 next
  position : next.position = p.position + 1

theorem Tracks.went {n : Nesting} {p next : Playback ρ η σ} {target : Option Time} {made : Step}
    (h : Tracks n p) (at_ : Playback.advance target p = .ok (some made) next) :
    ∃ e, Onward n p next e := by
  have advanced := advance_advanced target p
  rw [at_] at advanced
  cases hn : p.next? with
  | none => exact absurd (h.atEnd hn advanced).1 (by simp)
  | some e =>
    obtain ⟨-, clean, tracks, position⟩ := h.meets hn advanced
    exact ⟨e, hn, clean, tracks, position⟩

theorem Tracks.raised {n : Nesting} {p next : Playback ρ η σ} {target : Option Time}
    {err : ReplayError} (h : Tracks n p) (at_ : Playback.advance target p = .error err next)
    (passing : err.isTerminal = false) : ∃ e, Onward n p next e := by
  have advanced := advance_advanced target p
  rw [at_] at advanced
  cases hn : p.next? with
  | none =>
    obtain ⟨begun, -, rfl⟩ := h.atEnd hn advanced
    exact absurd passing (by simp [ReplayError.isTerminal])
  | some e =>
    have meets := h.meets hn advanced
    rw [Meets, if_neg (by simp [passing])] at meets
    obtain ⟨clean, tracks, position⟩ := meets
    exact ⟨e, hn, clean, tracks, position⟩

/-! ## The whole log -/

/-- What the problems of the rest of a log have to do with how its replay ends: `m` advances on, by
    the error `err` or at the end of the log. -/
def Explains (located : List (Nat × Problem)) (position : Nat) : Option ReplayError → Prop
  | none => located = []
  | some err =>
    if err.isStructural then
      ∃ problem, located.head? = some (position, problem) ∧ problem.error = err
    else ∀ found ∈ located, position ≤ found.1

theorem Tracks.finishes {p q : Playback ρ η σ} {m : Nat} {errs : List ReplayError}
    {target : Option Time} (course : Finishes target p m errs q) :
    ∀ {n : Nesting}, Tracks n p → Explains (n.located p.position p.rest) (p.position + m)
      (errs.find? ReplayError.isTerminal) := by
  -- as long as replay goes on, the checker has found nothing
  induction course with
  | @ended p q at_ =>
    intro n h
    have advanced := advance_advanced target p
    rw [at_] at advanced
    cases hn : p.next? with
    | none =>
      rw [rest_of_end hn, Nesting.located, (h.atEnd hn advanced).2.2]
      rfl
    | some e => exact absurd (h.meets hn advanced).1 (by simp)
  | @broke p q err at_ terminal =>
    intro n h
    have advanced := advance_advanced target p
    rw [at_] at advanced
    rw [List.find?_cons_of_pos terminal]
    cases hn : p.next? with
    | none =>
      obtain ⟨begun, never, rfl⟩ := h.atEnd hn advanced
      rw [rest_of_end hn, Nesting.located, never]
      exact ⟨.neverEnds begun, rfl, rfl⟩
    | some e =>
      have reports := h.meets hn advanced
      rw [Meets, if_pos terminal] at reports
      rw [rest_of_next hn, Explains]
      split
      · rename_i structural
        obtain ⟨problem, others, found, same⟩ := reports structural
        exact ⟨problem, by rw [Nesting.located, found]; rfl, same⟩
      · exact fun found hf => Nesting.position_le hf
  | @went p next q step m errs at_ course ih =>
    intro n h
    obtain ⟨e, onward⟩ := h.went at_
    have place : p.position + (m + 1) = next.position + m := by have := onward.position; omega
    rw [located_of_clean onward.event onward.clean (log_of_ok at_) onward.position, place]
    exact ih onward.tracks
  | @raised p next q err m errs at_ passing course ih =>
    intro n h
    obtain ⟨e, onward⟩ := h.raised at_ passing
    have place : p.position + (m + 1) = next.position + m := by have := onward.position; omega
    rw [located_of_clean onward.event onward.clean (log_of_error at_) onward.position, place,
      List.find?_cons_of_neg (by simp [passing])]
    exact ih onward.tracks

/-- Without checkpoints to restore, how far a playback is asked to go makes no difference. -/
theorem advance_plain {p : Playback ρ η σ} (plain : p.session.settings.fastForward = false)
    (target : Option Time) : Playback.advance target p = Playback.advance none p := by
  simp only [Playback.advance, bind_run, get_run, shortcut?_plain plain]

theorem Tracks.retarget {p q : Playback ρ η σ} {m : Nat} {errs : List ReplayError}
    (course : Finishes none p m errs q) (target : Option Time) :
    ∀ {n : Nesting}, Tracks n p → Finishes target p m errs q := by
  induction course with
  | ended at_ => exact fun h => .ended ((advance_plain h.plain target).trans at_)
  | broke at_ terminal => exact fun h => .broke ((advance_plain h.plain target).trans at_) terminal
  | @went p next q step m errs at_ course ih =>
    intro n h
    obtain ⟨e, onward⟩ := h.went at_
    exact .went ((advance_plain h.plain target).trans at_) (ih onward.tracks)
  | @raised p next q err m errs at_ passing course ih =>
    intro n h
    obtain ⟨e, onward⟩ := h.raised at_ passing
    exact .raised ((advance_plain h.plain target).trans at_) passing (ih onward.tracks)

/-- A replay of a log comes to an end. -/
theorem Tracks.ends {n : Nesting} {p : Playback ρ η σ} (h : Tracks n p) :
    ∃ m errs q, Finishes none p m errs q ∧ m ≤ p.left := by
  have less {p next : Playback ρ η σ} {n : Nesting} {e : Event} (onward : Onward n p next e)
      (log : next.log = p.log) : next.left < p.left := by
    have inside : p.position < p.log.size := (Array.getElem?_eq_some_iff.1 onward.event).1
    have position := onward.position
    unfold left
    rw [log]
    omega
  -- every advance plays one event
  refine finishes_of_progress (M := fun p => ∃ n, Tracks n p) ?_ ⟨n, h⟩
  rintro p ⟨n, h⟩
  cases at_ : Playback.advance none p with
  | ok made next =>
    cases made with
    | none => trivial
    | some step =>
      obtain ⟨e, onward⟩ := h.went at_
      exact ⟨⟨_, onward.tracks⟩, less onward (log_of_ok at_)⟩
  | error err next =>
    intro passing
    obtain ⟨e, onward⟩ := h.raised at_ passing
    exact ⟨⟨_, onward.tracks⟩, less onward (log_of_error at_)⟩

end Playback

/-- **The first error that ends a replay is the first problem of the log, if it is about the
    structure of the log at all.** A host may go step by step, so that it knows the place of every
    error, or ask the replay to run, going on after everything the scripts did not catch. Either way
    it is told of the same error. If there is none, the log has no problems. If the error is about
    the structure, the first problem is found at the same place, and says the same. If it is not, no
    problem is found before its place. -/
theorem Log.replay_faults_at_first_problem {ρ η σ : Type} [Engine ρ η σ] [DecidableEq η] (log : Log)
    (engine : ρ) (settings : Settings) (notes : Notes η σ) :
    let p := Playback.start log (Session.start engine { settings with fastForward := false } notes)
    let stepped := p.drive (List.replicate (log.size + 1) .step)
    let ran := p.drive (List.replicate (log.size + 2) .run)
    firstTerminal ran.1 = (firstFault stepped.1).map Prod.snd ∧
      match firstFault stepped.1 with
      | none => log.problems = [] ∧ stepped.2.next? = none ∧ ran.2.next? = none
      | some (k, err) =>
        if err.isStructural then
          ∃ problem, log.located.head? = some (k, problem) ∧ problem.error = err
        else ∀ found ∈ log.located, k ≤ found.1 := by
  intro p stepped ran
  have tracks : Playback.Tracks Nesting.start p := .start log engine settings notes
  obtain ⟨m, errs, q, course, few⟩ := tracks.ends
  have size : p.left = log.size := rfl
  have steps := course.drive_steps (k := log.size + 1) (by omega)
  have fuel := p.left_lt_enoughSteps
  have runs := (tracks.retarget course (some p.horizon)).drive_runs (k := log.size + 2)
    (by omega) (by have := course.errors_le; omega)
  have explains := tracks.finishes course
  have whole : Nesting.start.located p.position p.rest = log.located := rfl
  have first : p.position + m = m := Nat.zero_add m
  rw [whole, first] at explains
  refine ⟨?_, ?_⟩
  · rw [runs.2, steps.2, Option.map_map]
    exact Option.map_id'.symm
  · rw [steps.2]
    cases hf : errs.find? ReplayError.isTerminal with
    | none =>
      rw [hf] at explains
      have done := Playback.finished_of_none (course.rests hf)
      refine ⟨?_, steps.1 ▸ done, runs.1 ▸ done⟩
      rw [← log.located_problems, explains]
      rfl
    | some err =>
      rw [hf] at explains
      exact explains

end Retrace
