import Retrace.Log.Basic
import Retrace.Proofs.Replay.Calls

/-!
# The course of a replay

`Log.course` is replay at its plainest: every event is executed, one after the other, and nothing is
ever passed by. Whatever a playback does can be compared with it, since the course of a log is a
function of the session that it starts with.

The course knows where its root calls began. While calls are open, the outermost of them is a call
of depth zero that began at a certain event, it is the current root, and nothing went uncaught since
(`Course.Rooted`). So when a root call ends, all of its run lies between two positions of the
course, and the only thing that may have gone uncaught in between is the call itself.
-/

namespace Retrace

/-! ## Logs whose times increase -/

/-- Every event is later than those before it. -/
def Log.Ordered (log : Log) : Prop :=
  log.events.toList.Pairwise fun e f => e.time < f.time

instance (log : Log) : Decidable log.Ordered :=
  inferInstanceAs (Decidable (log.events.toList.Pairwise fun e f => e.time < f.time))

theorem Log.Ordered.lt {log : Log} (h : log.Ordered) {i j : Nat} {e f : Event} (less : i < j)
    (hi : log.get? i = some e) (hj : log.get? j = some f) : e.time < f.time := by
  obtain ⟨insideI, rfl⟩ := Array.getElem?_eq_some_iff.1 hi
  obtain ⟨insideJ, rfl⟩ := Array.getElem?_eq_some_iff.1 hj
  rw [← Array.getElem_toList, ← Array.getElem_toList]
  exact List.pairwise_iff_getElem.1 h i j (by simpa using insideI) (by simpa using insideJ) less

theorem Log.Ordered.position_unique {log : Log} (h : log.Ordered) {i j : Nat} {e f : Event}
    (hi : log.get? i = some e) (hj : log.get? j = some f) (same : e.time = f.time) : i = j := by
  rcases Nat.lt_trichotomy i j with less | rfl | more
  · exact absurd same (Time.ne_of_lt (h.lt less hi hj))
  · rfl
  · exact absurd same.symm (Time.ne_of_lt (h.lt more hj hi))

theorem Log.get?_lt {log : Log} {i : Nat} {e : Event} (h : log.get? i = some e) : i < log.size :=
  (Array.getElem?_eq_some_iff.1 h).1

/-- What is found is there. -/
theorem Log.findBelow?_spec {log : Log} {p : Event → Bool} {bound i : Nat} {e : Event}
    (h : log.findBelow? p bound = some (i, e)) : log.get? i = some e ∧ p e = true := by
  induction bound with
  | zero => exact absurd h (by simp [findBelow?])
  | succ bound ih =>
    rw [findBelow?] at h
    cases found : log.get? bound with
    | none => rw [found] at h; exact ih h
    | some f =>
      rw [found] at h
      dsimp only at h
      by_cases hp : p f = true
      · rw [if_pos hp] at h
        obtain ⟨rfl, rfl⟩ := Prod.mk.inj (Option.some.inj h)
        exact ⟨found, hp⟩
      · rw [if_neg hp] at h
        exact ih h

/-- The time of the event right before a position. -/
def Log.timeBefore? (log : Log) : Nat → Option Time
  | 0 => none
  | position + 1 => (log.get? position).map Event.time

theorem Log.timeBefore?_succ {log : Log} {position : Nat} {e : Event}
    (here : log.get? position = some e) : log.timeBefore? (position + 1) = some e.time := by
  rw [timeBefore?, here]
  rfl

theorem Log.Ordered.timeBefore_lt {log : Log} (h : log.Ordered) {position : Nat} {e : Event}
    (next : log.get? position = some e) {previous : Time}
    (before : log.timeBefore? position = some previous) : previous < e.time := by
  cases position with
  | zero => exact absurd before (by simp [timeBefore?])
  | succ position =>
    obtain ⟨f, found, rfl⟩ := Option.map_eq_some_iff.1 before
    exact h.lt (Nat.lt_succ_self _) found next

/-! ## The course -/

/-- What a replay has come to: the session, and the exceptions that went uncaught. -/
structure Course (ρ η σ : Type) where
  session : Session ρ η σ
  uncaught : List ReplayError

section Course

variable {ρ η σ : Type} [Engine ρ η σ] [DecidableEq η]

/-- The course behind one more event. -/
def Course.after (c : Course ρ η σ) (position : Nat) (e : Event) :
    Except ReplayError (Course ρ η σ) :=
  match Session.execute position e c.session with
  | .ok () session => .ok { c with session }
  | .error err session =>
    if err.isTerminal then .error err else .ok ⟨session, c.uncaught ++ [err]⟩

section

variable {c : Course ρ η σ} {position : Nat} {e : Event} {session : Session ρ η σ}
  {err : ReplayError}

theorem Course.after_of_ok (run : Session.execute position e c.session = .ok () session) :
    c.after position e = .ok { c with session } := by
  unfold Course.after
  rw [run]

/-- The course goes on past an error that does not end it. -/
theorem Course.after_of_passing (run : Session.execute position e c.session = .error err session)
    (passing : err.isTerminal = false) :
    c.after position e = .ok ⟨session, c.uncaught ++ [err]⟩ := by
  unfold Course.after
  rw [run]
  exact if_neg (by simp [passing])

theorem Course.after_of_terminal (run : Session.execute position e c.session = .error err session)
    (terminal : err.isTerminal = true) : c.after position e = .error err := by
  unfold Course.after
  rw [run]
  exact if_pos terminal

end

/-- The course of a replay up to a position, or the error that ended it before. -/
def Log.course (log : Log) (start : Session ρ η σ) : Nat → Except ReplayError (Course ρ η σ)
  | 0 => .ok ⟨start, []⟩
  | position + 1 =>
    match log.course start position, log.get? position with
    | .ok c, some e => c.after position e
    | other, _ => other

variable {log : Log} {start : Session ρ η σ}

theorem Log.course_succ {position : Nat} {c : Course ρ η σ} {e : Event}
    (here : log.course start position = .ok c) (next : log.get? position = some e) :
    log.course start (position + 1) = c.after position e := by
  rw [Log.course, here, next]

theorem Log.course_of_error {position : Nat} {err : ReplayError}
    (broken : log.course start position = .error err) {later : Nat} (le : position ≤ later) :
    log.course start later = .error err := by
  induction le with
  | refl => exact broken
  | step _ ih => rw [Log.course, ih]

/-- The course comes up to every position before one that it comes up to. -/
theorem Log.course_of_le {position : Nat} {c : Course ρ η σ}
    (here : log.course start position = .ok c) {earlier : Nat} (le : earlier ≤ position) :
    ∃ b, log.course start earlier = .ok b := by
  cases hb : log.course start earlier with
  | ok b => exact ⟨b, rfl⟩
  | error err => exact absurd (here.symm.trans (Log.course_of_error hb le)) (by simp)

/-- What every event preserves, holds everywhere on the course. -/
theorem Log.course_induction {P : Nat → Course ρ η σ → Prop} (first : P 0 ⟨start, []⟩)
    (step : ∀ position c e d, log.course start position = .ok c → P position c →
      log.get? position = some e → c.after position e = .ok d → P (position + 1) d)
    (stay : ∀ position c, log.get? position = none → P position c → P (position + 1) c)
    {position : Nat} {c : Course ρ η σ} (here : log.course start position = .ok c) :
    P position c := by
  induction position generalizing c with
  | zero =>
    obtain rfl := Except.ok.inj here
    exact first
  | succ position ih =>
    obtain ⟨b, before⟩ := Log.course_of_le here (Nat.le_succ position)
    cases next : log.get? position with
    | none =>
      rw [Log.course, before, next] at here
      obtain rfl := Except.ok.inj here
      exact stay position b next (ih before)
    | some e =>
      rw [Log.course_succ before next] at here
      exact step position b e c before (ih before) next here

/-! ## How one event takes the course on -/

/-- What the course has come to behind an event. -/
structure Course.Went (c : Course ρ η σ) (e : Event) (d : Course ρ η σ) : Prop where
  step : CallStep e c.session.stack d.session.stack
  settings : d.session.settings = c.session.settings
  uncaught : d.uncaught = c.uncaught ++ (match e.callEnd? with
    | some call => if call.depth = 0 ∧ call.raised then
        [.uncaughtException call.begun e.time call.terminatingException] else []
    | none => [])

theorem Course.went_of_after {c d : Course ρ η σ} {position : Nat} {e : Event}
    (h : c.after position e = .ok d) : c.Went e d := by
  have executed := Session.execute_executed position e c.session
  unfold Course.after at h
  cases hx : Session.execute position e c.session with
  | ok u session =>
    rw [hx] at h executed
    obtain rfl := Except.ok.inj h
    cases executed with
    | done _ step settings _ quiet =>
      refine ⟨step, settings, ?_⟩
      cases he : e.callEnd? with
      | none => exact (List.append_nil _).symm
      | some call =>
        dsimp only
        rw [if_neg (quiet call (Event.callEnd?_eq_some.1 he)), List.append_nil]
  | error err session =>
    rw [hx] at h executed
    dsimp only at h
    by_cases terminal : err.isTerminal = true
    · rw [if_pos terminal] at h; exact absurd h (by simp)
    · rw [if_neg terminal] at h
      obtain rfl := Except.ok.inj h
      cases executed with
      | uncaught _ call action step settings _ depth raised =>
        refine ⟨step, settings, ?_⟩
        rw [Event.callEnd?_eq_some.2 action]
        dsimp only
        rw [if_pos ⟨depth, raised⟩]
      | failed _ _ operational => exact absurd operational.terminal terminal
      | _ => exact absurd rfl terminal

/-! ## Root calls -/

/-- The outermost open call began at position `i` of the course, as a root call, and nothing went
    uncaught since. -/
structure Course.Rooted (log : Log) (start : Session ρ η σ) (c : Course ρ η σ) (frame : Frame η)
    (i : Nat) (begin_ : Event) (call : CallBegin) (b : Course ρ η σ) : Prop where
  event : log.get? i = some begin_
  action : begin_.action = .callBegin call
  depth : call.depth = 0
  begun : frame.begun = begin_.time
  root : c.session.stack.root = some begin_.time
  rootCallback : c.session.stack.rootCallback = call.callback
  course : log.course start i = .ok b
  uncaught : b.uncaught = c.uncaught

/-- What is known of the open calls at a position of the course. -/
structure Course.Calls (log : Log) (start : Session ρ η σ) (position : Nat)
    (c : Course ρ η σ) : Prop where
  numbered : Numbered c.session.stack.frames
  rooted : ∀ frame, c.session.stack.outermost? = some frame → ∃ i begin_ call b, i < position ∧
    Course.Rooted log start c frame i begin_ call b

theorem Course.Calls.after {position : Nat} {c d : Course ρ η σ} {e : Event}
    (h : c.Calls log start position) (here : log.course start position = .ok c)
    (next : log.get? position = some e) (went : c.Went e d) : d.Calls log start (position + 1) := by
  refine ⟨went.step.numbered h.numbered, ?_⟩
  intro outermost isOpen
  have uncaught := went.uncaught
  unfold CallStack.outermost? at isOpen
  cases went.step with
  -- an event within the calls leaves them, and raises nothing
  | inner hbegin hend same =>
    rw [same] at isOpen
    obtain ⟨i, begin_, call, b, before, r⟩ := h.rooted outermost isOpen
    rw [hend, List.append_nil] at uncaught
    exact ⟨i, begin_, call, b, Nat.lt_succ_of_lt before, { r with
      root := same ▸ r.root
      rootCallback := same ▸ r.rootCallback
      uncaught := r.uncaught.trans uncaught.symm }⟩
  | begins call frame action deep begun depth frames _ root rootCallback =>
    have quiet : e.callEnd? = none := by simp [Event.callEnd?, action]
    rw [quiet, List.append_nil] at uncaught
    rw [frames] at isOpen
    cases around : c.session.stack.frames with
    | nil =>
      -- the call is a root call
      have zero : call.depth = 0 := by
        unfold CallStack.depth at deep
        rw [around] at deep
        exact UInt32.toNat_inj.1 deep
      rw [around] at isOpen
      obtain rfl := Option.some.inj isOpen
      rw [if_pos zero] at root rootCallback
      exact ⟨position, e, call, c, Nat.lt_succ_self _, ⟨next, action, zero, begun, root, rootCallback,
        here, uncaught.symm⟩⟩
    | cons inner frames' =>
      have deeper : call.depth ≠ 0 := by
        intro zero
        unfold CallStack.depth at deep
        rw [around, zero] at deep
        exact absurd deep (by simp)
      rw [if_neg deeper] at root rootCallback
      have isOpen' : c.session.stack.outermost? = some outermost := by
        rw [CallStack.outermost?, around]
        rw [around] at isOpen
        simpa using isOpen
      obtain ⟨i, begin_, call', b, before, r⟩ := h.rooted outermost isOpen'
      exact ⟨i, begin_, call', b, Nat.lt_succ_of_lt before, { r with
        root := root.trans r.root
        rootCallback := rootCallback.trans r.rootCallback
        uncaught := r.uncaught.trans uncaught.symm }⟩
  | finishes call frame frames action top begun later depth left =>
    rw [left] at isOpen
    -- a call is open still, so the one that ended is no root call
    cases around : frames with
    | nil => rw [around] at isOpen; exact absurd isOpen (by simp)
    | cons inner frames' =>
      have deeper : call.depth ≠ 0 := by
        intro zero
        have numbered := h.numbered
        rw [top, around] at numbered
        have position := numbered.1
        rw [depth, zero] at position
        exact absurd position (by simp)
      have quiet : e.callEnd? = some call := Event.callEnd?_eq_some.2 action
      rw [quiet] at uncaught
      dsimp only at uncaught
      rw [if_neg (fun both => deeper both.1), List.append_nil] at uncaught
      have isOpen' : c.session.stack.outermost? = some outermost := by
        rw [CallStack.outermost?, top, around]
        rw [around] at isOpen
        simpa using isOpen
      obtain ⟨i, begin_, call', b, before, r⟩ := h.rooted outermost isOpen'
      exact ⟨i, begin_, call', b, Nat.lt_succ_of_lt before, { r with
        root := left ▸ r.root
        rootCallback := left ▸ r.rootCallback
        uncaught := r.uncaught.trans uncaught.symm }⟩

/-- **Everywhere on its course a replay knows the root call that it is in.** -/
theorem Log.course_calls (empty : start.stack = .empty) {position : Nat} {c : Course ρ η σ}
    (here : log.course start position = .ok c) : c.Calls log start position := by
  refine Log.course_induction (P := fun k c => c.Calls log start k) ⟨?_, fun frame isOpen => ?_⟩
    (fun k c e d before calls next after => calls.after before next (Course.went_of_after after))
    (fun k c _ calls => ⟨calls.numbered, fun frame isOpen => ?_⟩) here
  · show Numbered start.stack.frames
    rw [empty]
    trivial
  · have isOpen : start.stack.outermost? = some frame := isOpen
    rw [empty] at isOpen
    exact absurd isOpen (by simp [CallStack.outermost?, CallStack.empty])
  · obtain ⟨i, begin_, call, b, less, r⟩ := calls.rooted frame isOpen
    exact ⟨i, begin_, call, b, Nat.lt_succ_of_lt less, r⟩

theorem Log.course_settings {position : Nat} {c : Course ρ η σ}
    (here : log.course start position = .ok c) : c.session.settings = start.settings := by
  refine Log.course_induction (P := fun _ c => c.session.settings = start.settings) rfl
    (fun k c e d _ same _ after => ?_) (fun _ _ _ same => same) here
  exact (Course.went_of_after after).settings.trans same

/-- A root call on the course, from its begin at `i` to its end at `j`. -/
structure Log.RootCall (log : Log) (start : Session ρ η σ) (i j : Nat) (begin_ ending : Event)
    (call : CallBegin) (callEnd : CallEnd) (b d : Course ρ η σ) : Prop where
  less : i < j
  first : log.get? i = some begin_
  begins : begin_.action = .callBegin call
  depth : call.depth = 0
  final : log.get? j = some ending
  ends : ending.action = .callEnd callEnd
  named : callEnd.begun = begin_.time
  before : log.course start i = .ok b
  after : log.course start (j + 1) = .ok d
  closed : d.session.stack.frames = []
  root : d.session.stack.root = some begin_.time
  rootCallback : d.session.stack.rootCallback = call.callback
  uncaught : d.uncaught = b.uncaught ++ (if callEnd.raised then
    [.uncaughtException begin_.time ending.time callEnd.terminatingException] else [])

/-- An end of depth zero ends a root call, of which the course knows the begin. -/
theorem Log.rootCall_of_end (empty : start.stack = .empty) {position : Nat} {c d : Course ρ η σ}
    {e : Event} {callEnd : CallEnd} (here : log.course start position = .ok c)
    (next : log.get? position = some e) (after : c.after position e = .ok d)
    (action : e.action = .callEnd callEnd) (depth : callEnd.depth = 0) :
    ∃ i begin_ call b, log.RootCall start i position begin_ e call callEnd b d := by
  have went := Course.went_of_after after
  have calls := Log.course_calls empty here
  have uncaught := went.uncaught
  rw [Event.callEnd?_eq_some.2 action] at uncaught
  simp only [depth, true_and] at uncaught
  cases went.step with
  | inner _ hend => exact absurd (Event.callEnd?_eq_some.2 action) (by simp [hend])
  | begins _ _ other => exact absurd (other.symm.trans action) (by simp)
  | finishes call' frame frames action' top begun later frameDepth left =>
    obtain rfl := Action.callEnd.inj (action.symm.trans action')
    have numbered := calls.numbered
    rw [top] at numbered
    -- frames are numbered by their depth, so none lies below one of depth zero
    have alone : frames = [] := by
      have position := numbered.1
      rw [frameDepth, depth] at position
      exact List.length_eq_zero_iff.1 position.symm
    obtain ⟨i, begin_, call, b, before, r⟩ := calls.rooted frame (by
      rw [CallStack.outermost?, top, alone]
      rfl)
    have named : callEnd.begun = begin_.time := begun.symm.trans r.begun
    exact ⟨i, begin_, call, b, before, r.event, r.action, r.depth, next, action, named, r.course,
      by rw [Log.course_succ here next, after], by rw [left]; exact alone, by rw [left]; exact r.root,
      by rw [left]; exact r.rootCallback, by rw [uncaught, ← r.uncaught, named]⟩

/-! ## Where it ends -/

/-- The place at which a replay comes to its end by an error: behind an event that fails, or at the
    end of the log, where a call is open still. -/
inductive Log.FaultsAt (log : Log) (start : Session ρ η σ) : Nat → ReplayError → Prop
  | event {position : Nat} {c : Course ρ η σ} {err : ReplayError} (inside : position < log.size)
      (before : log.course start position = .ok c)
      (broken : log.course start (position + 1) = .error err) :
      log.FaultsAt start (position + 1) err
  | atEnd {c : Course ρ η σ} {frame : Frame η} (course : log.course start log.size = .ok c)
      (isOpen : c.session.stack.outermost? = some frame) :
      log.FaultsAt start log.size (.truncatedLog frame.begun)

theorem Log.FaultsAt.unique {i j : Nat} {err err' : ReplayError} (h : log.FaultsAt start i err)
    (h' : log.FaultsAt start j err') : i = j ∧ err = err' := by
  -- behind the first place with an error the course has no more sessions, so no second place
  cases h with
  | @event position c _ inside before broken =>
    cases h' with
    | @event position' c' _ inside' before' broken' =>
      rcases Nat.lt_trichotomy position position' with less | rfl | more
      · have failed := Log.course_of_error broken less
        exact absurd (before'.symm.trans failed) (by simp)
      · exact ⟨rfl, Except.error.inj (broken.symm.trans broken')⟩
      · have failed := Log.course_of_error broken' more
        exact absurd (before.symm.trans failed) (by simp)
    | atEnd course =>
      have failed := Log.course_of_error broken inside
      exact absurd (course.symm.trans failed) (by simp)
  | atEnd course isOpen =>
    cases h' with
    | event inside _ broken =>
      have failed := Log.course_of_error broken inside
      exact absurd (course.symm.trans failed) (by simp)
    | atEnd course' isOpen' =>
      obtain rfl := Except.ok.inj (course.symm.trans course')
      obtain rfl := Option.some.inj (isOpen.symm.trans isOpen')
      exact ⟨rfl, rfl⟩

/-- A log faults no earlier than its course has come. -/
theorem Log.FaultsAt.behind {position : Nat} {err : ReplayError}
    (fault : log.FaultsAt start position err) {k : Nat} {c : Course ρ η σ}
    (here : log.course start k = .ok c) (inside : k ≤ log.size) : k ≤ position := by
  cases fault with
  | @event position _ _ _ _ broken =>
    refine Nat.le_of_not_lt fun before => ?_
    obtain ⟨b, ran⟩ := Log.course_of_le here (Nat.le_of_lt before)
    exact absurd (broken.symm.trans ran) (by simp)
  | atEnd => exact inside

/-- Where the course comes to the end of the log and leaves no call open, nothing faults. -/
theorem Log.not_faultsAt {c : Course ρ η σ} (here : log.course start log.size = .ok c)
    (closed : c.session.stack.frames = []) {position : Nat} {err : ReplayError} :
    ¬ log.FaultsAt start position err := by
  intro fault
  cases fault with
  | event inside _ broken =>
    obtain ⟨b, before⟩ := Log.course_of_le here inside
    exact absurd (broken.symm.trans before) (by simp)
  | atEnd course isOpen =>
    obtain rfl := Except.ok.inj (here.symm.trans course)
    rw [CallStack.outermost?, closed] at isOpen
    exact absurd isOpen (by simp)

end Course

end Retrace
