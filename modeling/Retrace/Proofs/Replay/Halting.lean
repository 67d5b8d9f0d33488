import Retrace.Proofs.Replay.Course

/-!
# Where a replay stops

The times of a log may do what they like. A replay that executes every event still stops at one
place and in one way: at the end of the log, with a call open or not; before an event that is not
later than the one before it; or behind an event that fails. `Log.StopsAt` says so of the course of
a log, which itself does not look at times, and the place is unique (`Log.StopsAt.unique`). Up to
there the log is in order (`Log.Timely`), and so a time names one event of those that were replayed.
-/

namespace Retrace

/-! ## Logs in order up to a position -/

/-- Before a position, every event is later than those before it. -/
def Log.Timely (log : Log) (n : Nat) : Prop :=
  ∀ i j e f, i < j → j < n → log.get? i = some e → log.get? j = some f → e.time < f.time

/-- The events end the same call at the same time. -/
def Event.sameEnd (e f : Event) : Bool :=
  match e.callEnd?, f.callEnd? with
  | some call, some call' => decide (call.begun = call'.begun ∧ e.time = f.time)
  | _, _ => false

/-- No end of a call is recorded twice at the same time. -/
def Log.EndsOnce (log : Log) : Prop :=
  log.events.toList.Pairwise fun e f => e.sameEnd f = false

instance (log : Log) : Decidable log.EndsOnce :=
  inferInstanceAs (Decidable (log.events.toList.Pairwise fun e f => e.sameEnd f = false))

section Order

variable {log : Log}

theorem Log.Timely.mono {m n : Nat} (h : log.Timely n) (le : m ≤ n) : log.Timely m :=
  fun i j e f less inside hi hj => h i j e f less (Nat.lt_of_lt_of_le inside le) hi hj

theorem Log.Timely.unique {n i j : Nat} {e f : Event} (h : log.Timely n) (insideI : i < n)
    (insideJ : j < n) (hi : log.get? i = some e) (hj : log.get? j = some f)
    (same : e.time = f.time) : i = j := by
  rcases Nat.lt_trichotomy i j with less | rfl | more
  · exact absurd same (Time.ne_of_lt (h i j e f less insideJ hi hj))
  · rfl
  · exact absurd same.symm (Time.ne_of_lt (h j i f e more insideI hj hi))

theorem Log.Timely.follows {n i : Nat} {e : Event} {previous : Time} (h : log.Timely n)
    (inside : i < n) (here : log.get? i = some e) (before : log.timeBefore? i = some previous) :
    previous < e.time := by
  cases i with
  | zero => exact absurd before (by simp [Log.timeBefore?])
  | succ i =>
    obtain ⟨f, there, rfl⟩ := Option.map_eq_some_iff.1 before
    exact h i (i + 1) f e (Nat.lt_succ_self i) inside there here

/-- An event that follows the one before it follows all. -/
theorem Log.Timely.succ {n : Nat} {e : Event} (h : log.Timely n) (next : log.get? n = some e)
    (follows : ∀ previous, log.timeBefore? n = some previous → previous < e.time) :
    log.Timely (n + 1) := by
  intro i j f g less inside hi hj
  rcases Nat.lt_or_eq_of_le (Nat.le_of_lt_succ inside) with before | rfl
  · exact h i j f g less before hi hj
  obtain rfl := Option.some.inj (hj.symm.trans next)
  obtain ⟨k, rfl⟩ : ∃ k, j = k + 1 := ⟨j - 1, by omega⟩
  have within : k < log.events.size := by
    have := Log.get?_lt hj
    unfold Log.size at this
    omega
  have there : log.get? k = some log.events[k] := Array.getElem?_eq_getElem within
  have last := follows log.events[k].time (by rw [Log.timeBefore?, there]; rfl)
  rcases Nat.lt_or_eq_of_le (Nat.le_of_lt_succ less) with earlier | rfl
  · have before := Time.lt_iff.1 (h i k f _ earlier (Nat.lt_succ_self k) hi there)
    have last := Time.lt_iff.1 last
    exact Time.lt_iff.2 (by omega)
  · obtain rfl := Option.some.inj (hi.symm.trans there)
    exact last

theorem Log.EndsOnce.unique {i j : Nat} {e f : Event} {call call' : CallEnd} (once : log.EndsOnce)
    (hi : log.get? i = some e) (hj : log.get? j = some f) (ends : e.action = .callEnd call)
    (ends' : f.action = .callEnd call') (begun : call.begun = call'.begun)
    (time : e.time = f.time) : i = j := by
  -- of two positions, the first would hold an end that is recorded again at the second
  have apart {i j : Nat} {e f : Event} {call call' : CallEnd} (hi : log.get? i = some e)
      (hj : log.get? j = some f) (ends : e.action = .callEnd call)
      (ends' : f.action = .callEnd call') (begun : call.begun = call'.begun)
      (time : e.time = f.time) : ¬ i < j := by
    intro less
    obtain ⟨insideI, rfl⟩ := Array.getElem?_eq_some_iff.1 hi
    obtain ⟨insideJ, rfl⟩ := Array.getElem?_eq_some_iff.1 hj
    have other := List.pairwise_iff_getElem.1 once i j (by simpa using insideI)
      (by simpa using insideJ) less
    rw [Array.getElem_toList, Array.getElem_toList, Event.sameEnd, Event.callEnd?_eq_some.2 ends,
      Event.callEnd?_eq_some.2 ends'] at other
    exact absurd ⟨begun, time⟩ (of_decide_eq_false other)
  rcases Nat.lt_trichotomy i j with less | rfl | more
  · exact absurd less (apart hi hj ends ends' begun time)
  · rfl
  · exact absurd more (apart hj hi ends' ends begun.symm time.symm)

end Order

/-! ## Where a replay stops -/

section Stop

variable {ρ η σ : Type} [Engine ρ η σ] [DecidableEq η] {log : Log} {start : Session ρ η σ}

/-- The course comes up to a position, and the events are in order so far. -/
structure Log.Reaches (log : Log) (start : Session ρ η σ) (n : Nat) (c : Course ρ η σ) : Prop where
  timely : log.Timely n
  within : n ≤ log.size
  course : log.course start n = .ok c

/-- The error by which the course ends at an event, if it does. -/
def Course.failure? (c : Course ρ η σ) (position : Nat) (e : Event) : Option ReplayError :=
  match c.after position e with
  | .ok _ => none
  | .error err => some err

/-- Where a replay stops that cannot go on from a position, and by which error. -/
def Log.stop (log : Log) (n : Nat) (c : Course ρ η σ) : Nat × Option ReplayError :=
  match log.get? n, log.timeBefore? n with
  | none, _ => (n, c.session.stack.outermost?.map fun frame => .truncatedLog frame.begun)
  | some e, some previous =>
    if e.time ≤ previous then (n, some (.outOfOrder previous e.time))
    else (n + 1, c.failure? n e)
  | some e, none => (n + 1, c.failure? n e)

/-- A replay that executes every event stops at a position, by an error or at the end. -/
def Log.StopsAt (log : Log) (start : Session ρ η σ) (position : Nat) (err : Option ReplayError) :
    Prop :=
  ∃ n c, log.Reaches start n c ∧ (∀ d, ¬ log.Reaches start (n + 1) d) ∧
    log.stop n c = (position, err)

theorem Log.Reaches.before {n : Nat} {c : Course ρ η σ} (h : log.Reaches start n c) {m : Nat}
    (le : m ≤ n) : ∃ b, log.Reaches start m b := by
  obtain ⟨b, here⟩ := Log.course_of_le h.course le
  exact ⟨b, h.timely.mono le, Nat.le_trans le h.within, here⟩

/-- An event that fails in order is where a replay stops. -/
theorem Log.stopsAt_of_failure {n : Nat} {c : Course ρ η σ} {e : Event} {err : ReplayError}
    (here : log.course start n = .ok c) (timely : log.Timely (n + 1)) (next : log.get? n = some e)
    (after : c.after n e = .error err) : log.StopsAt start (n + 1) (some err) := by
  have within : n < log.size := Log.get?_lt next
  refine ⟨n, c, ⟨timely.mono (Nat.le_succ n), Nat.le_of_lt within, here⟩, fun d further => ?_, ?_⟩
  · have failed := (Log.course_succ here next).trans after
    exact absurd (further.course.symm.trans failed) (by simp)
  · have failure : c.failure? n e = some err := by rw [Course.failure?, after]
    unfold Log.stop
    rw [next]
    cases before : log.timeBefore? n with
    | none => exact congrArg _ failure
    | some previous =>
      dsimp only
      rw [if_neg (Time.not_le.2 (timely.follows (Nat.lt_succ_self n) next before)), failure]

/-- A course that ends between two positions does so at one event. -/
theorem Log.course_breaks {i k : Nat} {b : Course ρ η σ} {err : ReplayError}
    (here : log.course start i = .ok b) (failed : log.course start k = .error err) :
    ∃ n c e, i ≤ n ∧ n < k ∧ log.course start n = .ok c ∧ log.get? n = some e ∧
      c.after n e = .error err := by
  induction k with
  | zero => exact absurd failed (by simp [Log.course])
  | succ k ih =>
    cases before : log.course start k with
    | error err' =>
      obtain rfl : err' = err := Except.error.inj
        ((Log.course_of_error before (Nat.le_succ k)).symm.trans failed)
      obtain ⟨n, c, e, reached, inside, rest⟩ := ih before
      exact ⟨n, c, e, reached, Nat.lt_succ_of_lt inside, rest⟩
    | ok c =>
      have reached : i ≤ k := by
        refine Nat.le_of_not_lt fun beyond => ?_
        have broken := Log.course_of_error failed beyond
        exact absurd (here.symm.trans broken) (by simp)
      cases next : log.get? k with
      | none =>
        rw [Log.course, before, next] at failed
        exact absurd failed (by simp)
      | some e =>
        rw [Log.course_succ before next] at failed
        exact ⟨k, c, e, reached, Nat.lt_succ_self k, before, next, failed⟩

/-- A replay that stops without an error is at the end of the log. -/
theorem Log.StopsAt.atEnd {position : Nat} (h : log.StopsAt start position none) :
    position = log.size := by
  obtain ⟨n, c, reaches, stuck, stops⟩ := h
  unfold Log.stop at stops
  cases next : log.get? n with
  | none =>
    have outside : log.size ≤ n := Array.getElem?_eq_none_iff.1 next
    rw [next] at stops
    exact (Prod.mk.inj stops).1.symm.trans (Nat.le_antisymm reaches.within outside)
  | some e =>
    -- nothing is wrong with the event, so the course would go on
    have onward (timely : log.Timely (n + 1)) : c.failure? n e ≠ none := by
      unfold Course.failure?
      cases after : c.after n e with
      | ok d =>
        exact absurd ⟨timely, Log.get?_lt next, (Log.course_succ reaches.course next).trans after⟩
          (stuck d)
      | error err => simp
    rw [next] at stops
    cases before : log.timeBefore? n with
    | none =>
      rw [before] at stops
      have timely := reaches.timely.succ next (by simp [before])
      exact absurd (Prod.mk.inj stops).2 (onward timely)
    | some previous =>
      rw [before] at stops
      dsimp only at stops
      split at stops
      · exact absurd (Prod.mk.inj stops).2 (by simp)
      · rename_i follows
        have timely := reaches.timely.succ next fun t isLast =>
          Option.some.inj (before.symm.trans isLast) ▸ Time.not_le.1 follows
        exact absurd (Prod.mk.inj stops).2 (onward timely)

theorem Log.StopsAt.unique {i j : Nat} {a b : Option ReplayError} (h : log.StopsAt start i a)
    (h' : log.StopsAt start j b) : i = j ∧ a = b := by
  obtain ⟨n, c, reaches, stuck, stops⟩ := h
  obtain ⟨m, d, reaches', stuck', stops'⟩ := h'
  have place : n = m := by
    rcases Nat.lt_trichotomy n m with less | same | more
    · obtain ⟨b, further⟩ := reaches'.before less
      exact absurd further (stuck b)
    · exact same
    · obtain ⟨b, further⟩ := reaches.before more
      exact absurd further (stuck' b)
  subst place
  obtain rfl := Except.ok.inj (reaches.course.symm.trans reaches'.course)
  exact Prod.mk.inj (stops.symm.trans stops')

end Stop

end Retrace
