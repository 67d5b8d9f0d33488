import Retrace.Proofs.Replay.Nesting
import Retrace.Proofs.Replay.OpenCalls

/-!
# Which ends a playback has matched

A playback that executes every event matches every end with its begin. One that passes a root call
by takes note of the root call's own end, and of none of those within: a checkpoint holds nothing of
the table. So the table of a playback that came to the end of its log has exactly the calls that do
not lie within a root call that was passed by (`Playback.Tabulates`), and each of them rightly. That
root calls themselves are never missing is what is left of completeness.

Here *rightly* has a meaning because the log is well formed. It is, since the first of all playbacks
that came to the end of it knew of no checkpoints and executed everything
(`Playback.Gathered.clean`); what engine that was on, and what was asked of it, plays no part.
-/

namespace Retrace

section Clean

variable {log : Log}

/-- **Every call of a log with which nothing is wrong has an end.** -/
theorem Log.end_of_begin (clean : log.problems = []) {n : Nat} {e : Event} {call : CallBegin}
    (first : log.get? n = some e) (begins : e.action = .callBegin call) :
    ∃ j ending callEnd, n < j ∧ log.get? j = some ending ∧ ending.action = .callEnd callEnd ∧
      callEnd.begun = e.time := by
  -- the call is open from its begin on until its end, and nothing is open in the end
  have stays (m : Nat) (inside : n + 1 + m ≤ log.size) :
      (∃ j ending callEnd, n < j ∧ log.get? j = some ending ∧ ending.action = .callEnd callEnd ∧
        callEnd.begun = e.time) ∨ ∃ around, e.time :: around <:+ log.openCalls (n + 1 + m) := by
    induction m with
    | zero =>
      cases Log.nests clean first with
      | inner other => exact absurd (Event.callBegin?_eq_some.2 begins) (by simp [other])
      | begins _ _ _ within => exact Or.inr ⟨log.openCalls n, within ▸ List.suffix_rfl⟩
      | ends _ other => exact absurd (begins.symm.trans other) (by simp)
    | succ m ih =>
      rcases ih (by omega) with ended | ⟨around, isOpen⟩
      · exact Or.inl ended
      have less : n + 1 + m < log.events.size := inside
      have next : log.get? (n + 1 + m) = some log.events[n + 1 + m] :=
        Array.getElem?_eq_getElem less
      rw [← Nat.add_assoc (n + 1) m 1]
      cases Log.nests clean next with
      | inner _ _ same => exact Or.inr ⟨around, same ▸ isOpen⟩
      | begins _ _ _ within =>
        exact Or.inr ⟨around, within ▸ isOpen.trans (List.suffix_cons _ _)⟩
      | ends callEnd action _ inside =>
        rcases List.suffix_cons_iff.1 (inside ▸ isOpen) with here | below
        · exact Or.inl ⟨n + 1 + m, _, callEnd, by omega, next, action, (List.cons.inj here).1.symm⟩
        · exact Or.inr ⟨around, below⟩
  have within := Log.get?_lt first
  obtain ⟨m, size⟩ : ∃ m, log.size = n + 1 + m := ⟨log.size - (n + 1), by omega⟩
  rcases stays m (by omega) with ended | ⟨around, isOpen⟩
  · exact ended
  have rest := Log.problems_drop clean (Nat.le_refl log.size)
  have none_left : log.events.toList.drop log.size = [] := List.drop_length ..
  rw [none_left, Nesting.problems] at rest
  have closed : log.openCalls log.size = [] := by
    cases left : (log.nesting log.size).openCalls.getLast? with
    | none => exact List.getLast?_eq_none_iff.1 left
    | some last => rw [left] at rest; exact absurd rest (by simp)
  rw [← size, closed] at isOpen
  exact absurd (List.suffix_nil.1 isOpen) (by simp)

/-- **The call that begins at a position has one end, the one that is found for it.** -/
theorem Log.matchingEnd?_of_begin (clean : log.problems = []) {n : Nat} {e : Event}
    {call : CallBegin} (first : log.get? n = some e) (begins : e.action = .callBegin call) :
    ∃ j ending, n < j ∧ log.matchingEnd? e.time = some (j, ending) := by
  obtain ⟨j, ending, callEnd, less, final, ends, named⟩ := Log.end_of_begin clean first begins
  exact ⟨j, ending, less, named ▸ Log.matchingEnd?_of_end clean final ends⟩

theorem Log.matchingEnd?_spec {begun : Time} {j : Nat} {ending : Event}
    (found : log.matchingEnd? begun = some (j, ending)) :
    log.get? j = some ending ∧
      ∃ callEnd, ending.action = .callEnd callEnd ∧ callEnd.begun = begun := by
  obtain ⟨final, ends⟩ := Log.findBelow?_spec found
  exact ⟨final, Event.endsCall_iff.1 ends⟩

/-- A root call begins at a position, and its end is found at another. -/
structure Log.RootCallAt (log : Log) (i j : Nat) : Prop where
  calls : ∃ begin_ call ending, log.get? i = some begin_ ∧ begin_.action = .callBegin call ∧
    call.depth = 0 ∧ log.matchingEnd? begin_.time = some (j, ending)

theorem Log.RootCallAt.span (clean : log.problems = []) {i j : Nat} (root : log.RootCallAt i j) :
    ∃ ending callEnd, log.RootSpan i j ending callEnd := by
  obtain ⟨begin_, call, ending, first, begins, depth, found⟩ := root.calls
  obtain ⟨final, callEnd, ends, named⟩ := Log.matchingEnd?_spec found
  exact ⟨ending, callEnd, Log.rootSpan clean first begins depth final ends named⟩

/-- Between its begin and its end a call is open. -/
theorem Log.openCalls_ne_nil (clean : log.problems = []) {n m : Nat} {e ending : Event}
    (first : log.get? n = some e) (found : log.matchingEnd? e.time = some (m, ending)) {k : Nat}
    (after : n < k) (le : k ≤ m) : log.openCalls k ≠ [] := by
  obtain ⟨final, callEnd, ends, named⟩ := Log.matchingEnd?_spec found
  obtain ⟨-, i, since⟩ := Log.openSince_of_end clean final ends
  obtain ⟨b, _, there, -, begun⟩ := since.begins
  obtain rfl : i = n :=
    (Log.ordered_of_clean clean).position_unique there first (begun.trans named)
  intro closed
  exact absurd (List.suffix_nil.1 (closed ▸ since.stays k after le)) (by simp)

/-- A call begins within a root call just if it ends within it. -/
theorem Log.RootCallAt.within_iff (clean : log.problems = []) {i j n m : Nat} {e ending : Event}
    {call : CallBegin} (root : log.RootCallAt i j) (first : log.get? n = some e)
    (begins : e.action = .callBegin call) (found : log.matchingEnd? e.time = some (m, ending)) :
    (i < n ∧ n < j) ↔ (i < m ∧ m < j) := by
  obtain ⟨_, _, span⟩ := root.span clean
  obtain ⟨begin_, call', ending', first', begins', -, found'⟩ := root.calls
  have less : n < m := by
    obtain ⟨j, _, less, found''⟩ := Log.matchingEnd?_of_begin clean first begins
    obtain ⟨rfl, -⟩ := Prod.mk.inj (Option.some.inj (found''.symm.trans found))
    exact less
  -- no call is open before a root call or behind it, so none reaches in or out
  constructor
  · rintro ⟨after, inside⟩
    refine ⟨by omega, ?_⟩
    by_contra behind
    rcases Nat.lt_or_eq_of_le (Nat.le_of_not_lt behind) with beyond | rfl
    · exact Log.openCalls_ne_nil clean first found (Nat.lt_succ_of_lt inside) beyond span.closed
    · obtain ⟨final, callEnd, ends, named⟩ := Log.matchingEnd?_spec found
      obtain ⟨final', callEnd', ends', named'⟩ := Log.matchingEnd?_spec found'
      obtain rfl := Option.some.inj (final.symm.trans final')
      obtain rfl := Action.callEnd.inj (ends.symm.trans ends')
      have same := (Log.ordered_of_clean clean).position_unique first first'
        (named.symm.trans named')
      omega
  · rintro ⟨after, inside⟩
    refine ⟨?_, by omega⟩
    by_contra early
    rcases Nat.lt_or_eq_of_le (Nat.le_of_not_lt early) with before | rfl
    · exact Log.openCalls_ne_nil clean first found before (Nat.le_of_lt after) span.opened
    · obtain rfl := Option.some.inj (first.symm.trans first')
      have same := (Prod.mk.inj (Option.some.inj (found.symm.trans found'))).1
      omega

end Clean

/-! ## Playbacks -/

namespace Playback

variable {ρ η σ : Type}

/-- A playback has come to the end of its log, with no call open, and has not faulted. -/
structure Arrived (p : Playback ρ η σ) : Prop where
  atEnd : p.next? = none
  idle : p.phase = .idle

/-- The root call between two positions may be passed by: the playback was set to do this, and a
    checkpoint was known for the call at the start. -/
structure MayPass (log : Log) (settings : Settings) (notes : Notes η σ) (i j : Nat) : Prop where
  root : log.RootCallAt i j
  on : settings.fastForward = true
  known : ∃ c, notes.checkpoints.get? i = some c

/-- The playback has matched the ends before its position with their begins, but for those within
    root calls that it has passed by, and nothing else. -/
structure Matching (log : Log) (settings : Settings) (notes : Notes η σ) (passed : Nat → Nat → Prop)
    (p : Playback ρ η σ) : Prop where
  isLog : p.log = log
  under : p.session.settings = settings
  ahead : ∀ i c, p.position ≤ i → p.session.notes.checkpoints.get? i = some c →
    ∃ c', notes.checkpoints.get? i = some c'
  passes : ∀ i j, passed i j → MayPass log settings notes i j ∧ j < p.position
  matched : ∀ begun ended, p.session.stack.matchingEnd? begun = some ended ↔
    ∃ m ending, m < p.position ∧ log.get? m = some ending ∧ ending.endsCall begun = true ∧
      ending.time = ended ∧ ¬ ∃ i j, passed i j ∧ i < m ∧ m < j

variable {log : Log} {settings : Settings} {notes : Notes η σ} {passed : Nat → Nat → Prop}
variable {p q : Playback ρ η σ} {target : Option Time}

theorem Matching.start (log : Log) (engine : ρ) (settings : Settings) (notes : Notes η σ) :
    Matching log settings notes (fun _ _ => False)
      (start log (Session.start engine settings notes)) where
  isLog := rfl
  under := rfl
  ahead i c _ known := ⟨c, known⟩
  passes i j none := none.elim
  matched begun ended := by
    refine ⟨fun matched => absurd matched (by simp [CallStack.matchingEnd?, Playback.start,
      Session.start, CallStack.empty]), ?_⟩
    rintro ⟨m, ending, less, -⟩
    exact absurd less (Nat.not_lt_zero m)

/-- An end that has not been replayed is not in the table. -/
theorem Matching.unmatched (h : Matching log settings notes passed p) (clean : log.problems = [])
    {j : Nat} {ending : Event} {callEnd : CallEnd} (final : log.get? j = some ending)
    (ends : ending.action = .callEnd callEnd) (left : p.position ≤ j) :
    p.session.stack.matchingEnd? callEnd.begun = none := by
  cases matched : p.session.stack.matchingEnd? callEnd.begun with
  | none => rfl
  | some ended =>
    obtain ⟨m, other, before, there, ends', -⟩ := (h.matched _ _).1 matched
    obtain ⟨call', action', named⟩ := Event.endsCall_iff.1 ends'
    have same := Log.end_unique clean there final action' ends named
    omega

/-! ## At the end of the log -/

/-- What the table of a playback says about a log of which it has passed some calls by. -/
structure Tabulates (log : Log) (passed : Nat → Nat → Prop) (p : Playback ρ η σ) : Prop where
  /-- The end of a call is there, unless the call lies within one that was passed by. -/
  calls : ∀ n e call, log.get? n = some e → e.action = .callBegin call →
    ∃ j ending, n < j ∧ log.matchingEnd? e.time = some (j, ending) ∧
      ((¬ ∃ i k, passed i k ∧ i < n ∧ n < k) →
        p.session.stack.matchingEnd? e.time = some ending.time) ∧
      ((∃ i k, passed i k ∧ i < n ∧ n < k) → p.session.stack.matchingEnd? e.time = none)
  /-- The ends of root calls are there. -/
  roots : ∀ i j, log.RootCallAt i j → ∃ begin_ ending, log.get? i = some begin_ ∧
    log.get? j = some ending ∧ p.session.stack.matchingEnd? begin_.time = some ending.time
  /-- Nothing else is there. -/
  right : ∀ begun ended, p.session.stack.matchingEnd? begun = some ended →
    ∃ j ending, log.matchingEnd? begun = some (j, ending) ∧ ending.time = ended

theorem Matching.tabulates (h : Matching log settings notes passed p) (clean : log.problems = [])
    (atEnd : p.next? = none) : Tabulates log passed p := by
  have outside : log.size ≤ p.position := Array.getElem?_eq_none_iff.1 (h.isLog ▸ atEnd)
  -- an end is in the table unless it lies within a call that was passed
  have matched {n j : Nat} {e ending : Event} {call : CallBegin} (first : log.get? n = some e)
      (begins : e.action = .callBegin call) (found : log.matchingEnd? e.time = some (j, ending))
      (apart : ¬ ∃ i k, passed i k ∧ i < n ∧ n < k) :
      p.session.stack.matchingEnd? e.time = some ending.time := by
    obtain ⟨final, callEnd, ends⟩ := Log.matchingEnd?_spec found
    have inside := Log.get?_lt final
    refine (h.matched _ _).2
      ⟨j, ending, by omega, final, Event.endsCall_iff.2 ⟨callEnd, ends⟩, rfl, ?_⟩
    rintro ⟨i, k, through, within⟩
    have root := (h.passes i k through).1.root
    exact apart ⟨i, k, through, (root.within_iff clean first begins found).2 within⟩
  refine ⟨fun n e call first begins => ?_, fun i j root => ?_, fun begun ended there => ?_⟩
  · obtain ⟨j, ending, less, found⟩ := Log.matchingEnd?_of_begin clean first begins
    refine ⟨j, ending, less, found, matched first begins found, ?_⟩
    rintro ⟨i, k, through, within⟩
    have root := (h.passes i k through).1.root
    have within := (root.within_iff clean first begins found).1 within
    obtain ⟨final, callEnd, ends, named⟩ := Log.matchingEnd?_spec found
    -- the call's only end lies where nothing was replayed
    cases there : p.session.stack.matchingEnd? e.time with
    | none => rfl
    | some ended =>
      obtain ⟨m, f, -, there', ends', -, apart⟩ := (h.matched _ _).1 there
      obtain ⟨callEnd', action', named'⟩ := Event.endsCall_iff.1 ends'
      obtain rfl := Log.end_unique clean there' final action' ends (named'.trans named.symm)
      exact absurd ⟨i, k, through, within⟩ apart
  · obtain ⟨begin_, call, ending, first, begins, depth, found⟩ := root.calls
    refine ⟨begin_, ending, first, (Log.matchingEnd?_spec found).1, matched first begins found ?_⟩
    rintro ⟨i', k, through, after, inside⟩
    -- no root call begins within another
    obtain ⟨_, _, span⟩ := root.span clean
    obtain ⟨begin', _, _, first', -, -, found'⟩ := (h.passes i' k through).1.root.calls
    exact Log.openCalls_ne_nil clean first' found' after (Nat.le_of_lt inside) span.opened
  · obtain ⟨m, ending, -, final, ends, time, -⟩ := (h.matched _ _).1 there
    obtain ⟨callEnd, action, named⟩ := Event.endsCall_iff.1 ends
    exact ⟨m, ending, named ▸ Log.matchingEnd?_of_end clean final action, time⟩

/-! ## One advance -/

variable [Engine ρ η σ]

theorem restore_frame {c : Checkpoint η σ} {s s' : Session ρ η σ}
    (restore : Session.restore c s = .ok () s') :
    s'.stack = s.stack.clearFrames ∧ s'.settings = s.settings ∧ s'.notes = s.notes := by
  unfold Session.restore at restore
  cases back : Engine.restore c.snapshot s.engine with
  | ok u engine =>
    rw [back] at restore
    obtain ⟨-, rfl⟩ := EStateM.Result.ok.inj restore
    exact ⟨rfl, rfl, rfl⟩
  | error fault engine => rw [back] at restore; exact absurd restore (by simp)

theorem Matching.executed (h : Matching log settings notes passed p) (clean : log.problems = [])
    {e : Event} {session : Session ρ η σ} (facing : p.Facing e)
    (step : CallStep e p.session.stack session.stack)
    (same : session.settings = p.session.settings)
    (checkpoints : session.notes.checkpoints = p.session.notes.checkpoints) :
    Matching log settings notes passed ((p.past e session).withCheckpoint e).atRest := by
  obtain ⟨settings', stack, -, position, isLog, -⟩ := withCheckpoint_frame (p.past e session) e
  have next : log.get? p.position = some e := h.isLog ▸ facing.next
  refine ⟨isLog.trans h.isLog, settings'.trans (same.trans h.under), ?_, ?_, ?_⟩
  · show ∀ i c, ((p.past e session).withCheckpoint e).position ≤ i →
      ((p.past e session).withCheckpoint e).session.notes.checkpoints.get? i = some c → _
    rw [position]
    intro i c after known
    have before : p.position ≤ i := Nat.le_of_succ_le after
    rcases withCheckpoint_cases (p.past e session) e with
      unchanged | ⟨call, taken, k, begin_, isEnd, -, -, begun, noted⟩
    · rw [unchanged] at known
      exact h.ahead i c before (checkpoints ▸ known)
    rw [noted] at known
    rcases Notes.get?_once known with old | ⟨rfl, -⟩
    · exact h.ahead i c before (checkpoints ▸ old)
    -- a new checkpoint is noted where the call began that has just ended, so it lies behind
    obtain ⟨f, there, named, -⟩ := callBegin?_spec begun
    obtain ⟨-, k, since⟩ := Log.openSince_of_end clean next (Event.callEnd?_eq_some.1 isEnd)
    obtain ⟨b, _, there', -, named'⟩ := since.begins
    have place := (Log.ordered_of_clean clean).position_unique (h.isLog ▸ there) there'
      (named.trans named'.symm)
    have less := since.before
    have after : p.position + 1 ≤ i := after
    omega
  · intro i j passed
    obtain ⟨may, less⟩ := h.passes i j passed
    refine ⟨may, ?_⟩
    show j < ((p.past e session).withCheckpoint e).position
    rw [position]
    exact Nat.lt_succ_of_lt less
  · intro begun ended
    show ((p.past e session).withCheckpoint e).session.stack.matchingEnd? begun = some ended ↔
      ∃ m ending, m < ((p.past e session).withCheckpoint e).position ∧ _
    rw [stack, position]
    show session.stack.matchingEnd? begun = some ended ↔ ∃ m ending, m < p.position + 1 ∧ _
    -- the table grows by what the event ends, and by nothing if it ends no call
    have new (call : CallEnd) (action : e.action = .callEnd call) :
        p.session.stack.matchingEnd? call.begun = none :=
      h.unmatched clean next action (Nat.le_refl _)
    rw [step.matchingEnd?_iff new, h.matched]
    constructor
    · rintro (⟨m, ending, less, old⟩ | ⟨ends, time⟩)
      · exact ⟨m, ending, Nat.lt_succ_of_lt less, old⟩
      -- no call that was passed reaches as far as the event
      · refine ⟨p.position, e, Nat.lt_succ_self _, next, ends, time, ?_⟩
        rintro ⟨i, j, passed, -, inside⟩
        have less := (h.passes i j passed).2
        omega
    · rintro ⟨m, ending, less, there, ends, time, outside⟩
      rcases Nat.lt_or_eq_of_le (Nat.le_of_lt_succ less) with before | rfl
      · exact Or.inl ⟨m, ending, before, there, ends, time, outside⟩
      · obtain rfl := Option.some.inj (there.symm.trans next)
        exact Or.inr ⟨ends, time⟩

theorem Matching.beyond (h : Matching log settings notes passed p) (clean : log.problems = [])
    {e ending : Event} {call : CallBegin} {c : Checkpoint η σ} {endPosition : Nat}
    {callEnd : CallEnd} {session : Session ρ η σ} (facing : p.Facing e)
    (shortcut : target.bind (p.shortcut? e) = some (call, c, endPosition, ending, callEnd))
    (restore : Session.restore c p.session = .ok () session) :
    Matching log settings notes (fun i j => passed i j ∨ i = p.position ∧ j = endPosition)
      (p.beyond e call endPosition ending session) := by
  have leads := shortcut?_leads shortcut
  obtain ⟨stack, same, noted⟩ := restore_frame restore
  have next : log.get? p.position = some e := h.isLog ▸ facing.next
  have begins := Event.callBegin?_eq_some.1 leads.isBegin
  have final : log.get? endPosition = some ending := h.isLog ▸ leads.final
  have ends := Event.callEnd?_eq_some.1 leads.isEnd
  have span := Log.rootSpan clean next begins leads.depth final ends leads.named
  have found := leads.named ▸ Log.matchingEnd?_of_end clean final ends
  refine ⟨h.isLog, same.trans h.under, ?_, ?_, ?_⟩
  · intro i c' after known
    refine h.ahead i c' ?_ (noted ▸ known)
    have after : endPosition + 1 ≤ i := after
    have less := span.less
    omega
  · rintro i j (before | ⟨rfl, rfl⟩)
    · obtain ⟨may, less⟩ := h.passes i j before
      exact ⟨may, Nat.lt_trans less (Nat.lt_succ_of_lt span.less)⟩
    · refine ⟨⟨⟨e, call, ending, next, begins, leads.depth, found⟩, ?_,
        h.ahead _ c (Nat.le_refl _) leads.noted⟩, Nat.lt_succ_self _⟩
      by_contra off
      have plain : p.session.settings.fastForward = false := by
        rw [h.under]
        simpa using off
      exact absurd shortcut (by simp [shortcut?_plain plain])
  -- of the call that is passed only the call itself comes into the table
  · intro begun ended
    have new : p.session.stack.ends.get? e.time = none :=
      leads.named ▸ h.unmatched clean final ends (Nat.le_of_lt span.less)
    show (session.stack.ends.insert e.time ending.time).get? begun = some ended ↔
      ∃ m f, m < endPosition + 1 ∧ _
    rw [stack]
    refine (OrderedMap.get?_insert_new new ending.time).trans ?_
    show p.session.stack.matchingEnd? begun = some ended ∨ _ ↔ _
    rw [h.matched]
    constructor
    · rintro (⟨m, f, less, there, isEnd, time, outside⟩ | ⟨rfl, rfl⟩)
      · refine ⟨m, f, Nat.lt_trans less (Nat.lt_succ_of_lt span.less), there, isEnd, time, ?_⟩
        rintro ⟨i, j, old | ⟨rfl, rfl⟩, after, inside⟩
        · exact outside ⟨i, j, old, after, inside⟩
        · omega
      · refine ⟨endPosition, ending, Nat.lt_succ_self _, final, ?_, rfl, ?_⟩
        · rw [Event.endsCall_of_end ends, leads.named, decide_eq_true rfl]
        · rintro ⟨i, j, old | ⟨rfl, rfl⟩, after, inside⟩
          · have less := (h.passes i j old).2
            have less' := span.less
            omega
          · omega
    · rintro ⟨m, f, less, there, isEnd, time, outside⟩
      -- the end lies before the call, or is its own: what lies within is left out
      by_cases before : m < p.position
      · refine Or.inl ⟨m, f, before, there, isEnd, time, ?_⟩
        rintro ⟨i, j, old, inside⟩
        exact outside ⟨i, j, Or.inl old, inside⟩
      by_cases own : m = endPosition
      · subst own
        obtain rfl := Option.some.inj (there.symm.trans final)
        rw [Event.endsCall_of_end ends, decide_eq_true_eq, leads.named] at isEnd
        exact Or.inr ⟨isEnd.symm, time.symm⟩
      by_cases here : m = p.position
      · subst here
        obtain rfl := Option.some.inj (there.symm.trans next)
        obtain ⟨_, other, -⟩ := Event.endsCall_iff.1 isEnd
        exact absurd (begins.symm.trans other) (by simp)
      · exact absurd ⟨p.position, endPosition, Or.inr ⟨rfl, rfl⟩, by omega, by omega⟩ outside

theorem Matching.moves (h : Matching log settings notes passed p) (clean : log.problems = [])
    (moves : Moves target p q) (sound : q.phase ≠ .faulted) :
    ∃ passed', Matching log settings notes passed' q := by
  cases moves with
  | stays => exact ⟨passed, h⟩
  | faults _ faulted => exact absurd faulted sound
  | executes e session facing step same checkpoints _ =>
    exact ⟨passed, h.executed clean facing step same checkpoints⟩
  | passes e call c endPosition ending callEnd session facing shortcut restore =>
    exact ⟨_, h.beyond clean facing shortcut restore⟩

/-! ## Whole runs -/

variable [DecidableEq η]

/-- What can be known of a log from earlier playbacks that came to its end: nothing, or what one of
    them knew there. -/
inductive Gathered (ρ : Type) {η σ : Type} [DecidableEq η] [Engine ρ η σ] (log : Log) :
    Notes η σ → Prop
  | nothing : Gathered ρ log .empty
  | replay {notes : Notes η σ} (before : Gathered ρ log notes) (engine : ρ) (settings : Settings)
      (demands : List Demand)
      (arrived : Arrived (drive demands (start log (Session.start engine settings notes))).2) :
      Gathered ρ log
        (drive demands (start log (Session.start engine settings notes))).2.session.notes

/-- Nothing is wrong with a log that a playback came to the end of without passing calls by. -/
theorem clean_of_arrived {engine : ρ} {demands : List Demand}
    (arrived : Arrived (drive demands
      (start log (Session.start engine settings (.empty : Notes η σ)))).2) : log.problems = [] := by
  have first : Accounting log settings (start log (Session.start engine settings .empty)) :=
    .start log engine settings (.empty : Notes η σ)
  have unaided : (start log (Session.start engine settings (.empty : Notes η σ))).Unaided :=
    Or.inr fun i c known => absurd known (by simp [Playback.start, Session.start, Notes.empty])
  have sound :
      (drive demands (start log (Session.start engine settings .empty))).2.phase ≠ .faulted := by
    rw [arrived.idle]
    simp
  obtain ⟨accounting, -⟩ := first.driven unaided demands sound
  have closed : (drive demands (start log (Session.start engine settings
      (.empty : Notes η σ)))).2.session.stack.frames = [] := by
    have rests := accounting.rests
    rw [arrived.idle] at rests
    split at rests
    · rename_i empty
      exact List.isEmpty_iff.1 empty
    · exact absurd rests (by simp)
  rw [accounting.problems, rest_of_end arrived.atEnd, closed]
  rfl

/-- Nothing is wrong with a log that a playback came to the end of, over what was known from others
    that did. -/
theorem Gathered.clean (gathered : Gathered ρ log notes) :
    ∀ {engine : ρ} {settings : Settings} {demands : List Demand},
      Arrived (drive demands (start log (Session.start engine settings notes))).2 →
        log.problems = [] := by
  induction gathered with
  | nothing => exact clean_of_arrived
  | replay _ engine settings demands arrived ih => exact fun _ => ih arrived

/-- **At the end of a log, the table has every call but those within root calls that were passed
    by.** Take a playback from a new session, on any engine, that came to the end of its log, over
    checkpoints known from earlier ones that did; each of them under any settings and asked for
    anything. Every call of the log has its end. For a root call, and for a call within a root call
    that was not passed by, the table has this end; for any other call it has none, and it has
    nothing else. A root call can only have been passed by if the playback was set to do so and a
    checkpoint was known for it: without, the table is complete. -/
theorem matches_outside_passed_calls (log : Log) (engine : ρ) (settings : Settings)
    (notes : Notes η σ) (gathered : Gathered ρ log notes) (demands : List Demand)
    (arrived : Arrived (drive demands (start log (Session.start engine settings notes))).2) :
    ∃ passed : Nat → Nat → Prop, (∀ i j, passed i j → MayPass log settings notes i j) ∧
      Tabulates log passed (drive demands (start log (Session.start engine settings notes))).2 := by
  have clean := gathered.clean arrived
  have sound :
      (drive demands (start log (Session.start engine settings notes))).2.phase ≠ .faulted := by
    rw [arrived.idle]
    simp
  obtain ⟨passed, matching⟩ := WhileSound.driven
    (I := fun p : Playback ρ η σ => ∃ passed, Matching log settings notes passed p)
    (fun _ => ⟨_, .start log engine settings notes⟩)
    (fun _ _ _ ⟨_, h⟩ moves sound => h.moves clean moves sound)
    (fun _ _ ⟨passed, h⟩ => ⟨passed, { h with }⟩) demands sound
  exact ⟨passed, fun i j through => (matching.passes i j through).1,
    matching.tabulates clean arrived.atEnd⟩

/-- A log of one root call, with a call within it. -/
def callInCall : Log :=
  ⟨#[⟨⟨1⟩, ⟨0⟩, .allocateFunction none⟩,
    ⟨⟨2⟩, ⟨0⟩, .callBegin ⟨0, .none, ⟨1⟩, ⟨0⟩, none, []⟩⟩,
    ⟨⟨3⟩, ⟨0⟩, .callBegin ⟨1, .none, ⟨1⟩, ⟨0⟩, none, []⟩⟩,
    ⟨⟨4⟩, ⟨0⟩, .callEnd ⟨⟨3⟩, 1, false, false, ⟨0⟩⟩⟩,
    ⟨⟨5⟩, ⟨0⟩, .callEnd ⟨⟨2⟩, 0, false, false, ⟨0⟩⟩⟩]⟩

/-- The start of a playback of `callInCall`, over what is known of it. -/
def callInCallStart (notes : Notes ObjectRef SandboxSnapshot) : OfSandbox :=
  start callInCall (Session.start (.fresh none) { takeCheckpoints := true } notes)

/-- What the first playback of `callInCall` knows in the end: the checkpoint of the root call. -/
def callInCallNotes : Notes ObjectRef SandboxSnapshot :=
  (drive [.run] (callInCallStart .empty)).2.session.notes

theorem callInCallNotes_gathered : Gathered Sandbox callInCall callInCallNotes := by
  have arrived : Arrived (drive [.run] (callInCallStart .empty)).2 :=
    ⟨by decide +kernel, by decide +kernel⟩
  unfold callInCallStart at arrived
  have gathered := Gathered.replay .nothing (.fresh none : Sandbox) { takeCheckpoints := true }
    [.run] arrived
  unfold callInCallNotes callInCallStart
  exact gathered

/-- The second playback passes the root call by, and has its end. -/
theorem callInCall_root_matched :
    (∃ passed : Nat → Nat → Prop,
      (∀ i j, passed i j → MayPass callInCall { takeCheckpoints := true } callInCallNotes i j) ∧
        Tabulates callInCall passed (drive [.run] (callInCallStart callInCallNotes)).2) ∧
      (drive [.run] (callInCallStart callInCallNotes)).2.session.stack.matchingEnd? ⟨2⟩ =
        some ⟨5⟩ := by
  have arrived : Arrived (drive [.run] (callInCallStart callInCallNotes)).2 :=
    ⟨by decide +kernel, by decide +kernel⟩
  have matched := matches_outside_passed_calls callInCall (.fresh none : Sandbox)
    { takeCheckpoints := true } callInCallNotes callInCallNotes_gathered [.run] arrived
  exact ⟨matched, by decide +kernel⟩

/-- It does not have the end of the call within. The first playback, which executed every event,
    does, and both came to the end of the log. -/
theorem callInCall_inner_missing :
    Gathered Sandbox callInCall callInCallNotes ∧
      Arrived (drive [.run] (callInCallStart callInCallNotes)).2 ∧
      (callInCall.matchingEnd? ⟨3⟩).map (fun found => found.2.time) = some ⟨4⟩ ∧
      (drive [.run] (callInCallStart .empty)).2.session.stack.matchingEnd? ⟨3⟩ = some ⟨4⟩ ∧
      (drive [.run] (callInCallStart callInCallNotes)).2.session.stack.matchingEnd? ⟨3⟩ = none :=
  ⟨callInCallNotes_gathered, ⟨by decide +kernel, by decide +kernel⟩, by decide +kernel,
    by decide +kernel, by decide +kernel⟩

end Playback
end Retrace
