import Retrace.Proofs.Recording.Histories
import Retrace.Proofs.Replay.OpenCalls

/-!
# Clock, open calls and log

A recorder keeps three things that have to say the same: the log, the clock, and the times at which
the open calls began. The clock and the open calls are never computed from the log; they are carried
along, by reports that may fail halfway and by events from outside whose times are anything. Still
they can be read off the log at any time (`Recorder.InStep`), whatever the recorder was told.

What the open calls are is defined by the events alone (`stillOpen`): a call is open as long as no
event behind its begin names it. It is for the recorder to see to it that an end names the call that
is innermost then.
-/

namespace Retrace

/-! ## Calls without an end -/

/-- The begins of the calls that no later event ends, outermost first. -/
def stillOpen : List Event → List Event
  | [] => []
  | e :: later =>
    if e.callBegin?.isSome && !later.any (·.endsCall e.time) then e :: stillOpen later
    else stillOpen later

section Events

variable {events : List Event} {e : Event}

theorem stillOpen_sublist (events : List Event) : (stillOpen events).Sublist events := by
  induction events with
  | nil => exact .slnil
  | cons e later ih =>
    rw [stillOpen]
    split
    · exact ih.cons_cons e
    · exact ih.cons e

/-- An event that begins no call closes those that it ends. -/
theorem stillOpen_append (noBegin : e.callBegin? = none) :
    stillOpen (events ++ [e]) = (stillOpen events).filter fun b => !e.endsCall b.time := by
  induction events with
  | nil => simp [stillOpen, noBegin]
  | cons b later ih =>
    rw [List.cons_append, stillOpen, stillOpen, ih, List.any_append, List.any_cons, List.any_nil,
      Bool.or_false, Bool.not_or]
    cases b.callBegin?.isSome <;> cases later.any (·.endsCall b.time) <;>
      cases h : e.endsCall b.time <;> simp [h]

/-- A call that begins is open. -/
theorem stillOpen_append_begin {call : CallBegin} (action : e.action = .callBegin call) :
    stillOpen (events ++ [e]) = stillOpen events ++ [e] := by
  have isBegin : e.callBegin?.isSome = true := by simp [Event.callBegin?, action]
  have noEnd (begun : Time) : e.endsCall begun = false := by
    simp [Event.endsCall, Event.callEnd?, action]
  induction events with
  | nil => simp [stillOpen, isBegin]
  | cons b later ih =>
    rw [List.cons_append, stillOpen, stillOpen, ih, List.any_append, List.any_cons, List.any_nil,
      noEnd, Bool.or_false, Bool.or_false]
    split <;> rfl

/-- The end of the innermost call closes this one only. -/
theorem stillOpen_append_end (ordered : events.Pairwise fun e f => e.time < f.time)
    {call : CallEnd} (action : e.action = .callEnd call) {outer : List Event} {b : Event}
    (isOpen : stillOpen events = outer ++ [b]) (named : b.time = call.begun) :
    stillOpen (events ++ [e]) = outer := by
  have before : ∀ o ∈ outer, o.time < b.time := by
    have inOrder := ordered.sublist (stillOpen_sublist events)
    rw [isOpen, List.pairwise_append] at inOrder
    exact fun o mem => inOrder.2.2 o mem b List.mem_cons_self
  rw [stillOpen_append (by simp [Event.callBegin?, action]), isOpen, List.filter_append]
  have last : List.filter (fun b => !e.endsCall b.time) [b] = [] := by
    simp [Event.endsCall_of_end action, named]
  have rest : outer.filter (fun b => !e.endsCall b.time) = outer := by
    refine List.filter_eq_self.2 fun o mem => ?_
    have other : call.begun ≠ o.time := by
      rw [← named]
      exact (Time.ne_of_lt (before o mem)).symm
    simp [Event.endsCall_of_end action, other]
  rw [last, rest, List.append_nil]

/-- An event leaves open what has no end behind it, where this was open before. -/
theorem Event.Leaves.stillOpen {calls calls' : List Time} (leaves : e.Leaves calls calls')
    (ordered : events.Pairwise fun e f => e.time < f.time)
    (isOpen : calls.reverse = (stillOpen events).map Event.time) :
    calls'.reverse = (Retrace.stillOpen (events ++ [e])).map Event.time := by
  cases leaves with
  | inner noBegin noEnd =>
    have all : ∀ b ∈ Retrace.stillOpen events, (!e.endsCall b.time) = true := by
      simp [Event.endsCall, noEnd]
    rw [stillOpen_append noBegin, List.filter_eq_self.2 all]
    exact isOpen
  | begins call action =>
    rw [stillOpen_append_begin action, List.map_append, ← isOpen, List.reverse_cons]
    rfl
  | ends call action _ innermost =>
    rw [innermost, List.reverse_cons] at isOpen
    obtain ⟨outer, last, split, outer_eq, last_eq⟩ := List.map_eq_append_iff.1 isOpen.symm
    obtain ⟨b, rfl, named⟩ := List.map_eq_singleton_iff.1 last_eq
    rw [stillOpen_append_end ordered action split named, outer_eq]

end Events

namespace Log

variable {log : Log} {e : Event}

theorem before_push {position : Nat} (inside : position ≤ log.size) :
    (log.push e).before position = log.before position := by
  rw [before, events_push, List.take_append_of_le_length (by rwa [Array.length_toList])]
  rfl

theorem before_size (log : Log) : log.before log.size = log.events.toList :=
  List.take_of_length_le (Nat.le_of_eq Array.length_toList)

end Log

/-! ## The recorder -/

namespace Recorder

variable {η : Type} {r r' : Recorder η} {e : Event}

/-- The clock and the open calls of a recorder are what its log makes of them. -/
structure InStep (r : Recorder η) : Prop where
  ordered : r.log.Ordered
  last : r.last = r.log.lastTime?
  /-- The clock starts at the first time there is, goes on from the last event, and stops only behind
      the last time there is. -/
  first : r.log.isEmpty = true → r.next = some .first
  successor : ∀ last next, r.log.lastTime? = some last → r.next = some next →
    next.ticks.toInt = last.ticks.toInt + 1
  exhausted : r.next = none ↔ r.log.lastTime? = some .last
  openCalls : r.openCalls.reverse = (stillOpen r.log.events.toList).map Event.time
  /-- Every end names the call that is innermost right before it. -/
  innermost : ∀ position e call, r.log.get? position = some e → e.action = .callEnd call →
    (stillOpen (r.log.before position)).getLast?.map Event.time = some call.begun

theorem start_inStep (keepsNames : Bool) : (start keepsNames : Recorder η).InStep where
  ordered := .nil
  last := rfl
  first _ := rfl
  successor _ _ isLast := absurd isLast (by simp [start, Log.lastTime?, Log.empty])
  exhausted := by simp [start, Log.lastTime?, Log.empty]
  openCalls := rfl
  innermost _ _ _ found := absurd found (by simp [start, Log.get?, Log.empty])

/-- The next event is later than all before it, be it from the clock or from outside. -/
theorem InStep.later (h : r.InStep) (took : r.Took r' e) {last : Time}
    (isLast : r.log.lastTime? = some last) : last < e.time := by
  rcases took.timely with clocked | compared
  · have after := h.successor last e.time isLast clocked
    exact Time.lt_iff.2 (by omega)
  · exact compared last (h.last.trans isLast)

theorem InStep.took (h : r.InStep) (took : r.Took r' e) : r'.InStep := by
  have isLast : r'.log.lastTime? = some e.time := by rw [took.log, Log.lastTime?_push]
  refine ⟨?_, ?_, ?_, ?_, ?_, ?_, ?_⟩
  · rw [took.log]
    exact h.ordered.push fun last => h.later took
  · rw [took.last, isLast]
  · intro empty
    rw [took.log] at empty
    exact absurd empty (by simp [Log.isEmpty, Log.push])
  -- the clock is set to the moment behind the event, if there is one
  · intro last next same after
    obtain rfl := Option.some.inj (isLast.symm.trans same)
    exact next?_toInt (took.next.symm.trans after)
  · rw [isLast, took.next, Option.some.injEq, Time.next?]
    split <;> simp_all
  · rw [took.log, Log.events_push]
    exact took.calls.stillOpen h.ordered h.openCalls
  · intro position f call found isEnd
    rw [took.log, Log.get?_push] at found
    rw [took.log]
    split at found
    · -- the new event is an end, so it named the call that was innermost
      rename_i here
      obtain rfl := Option.some.inj found
      rw [here, Log.before_push (Nat.le_refl _), Log.before_size, ← List.getLast?_map,
        ← h.openCalls, List.getLast?_reverse]
      have leaves := took.calls
      generalize r.openCalls = calls, r'.openCalls = calls' at leaves
      cases leaves with
      | inner _ noEnd => exact absurd (Event.callEnd?_eq_some.2 isEnd) (by simp [noEnd])
      | begins _ action => exact absurd (isEnd.symm.trans action) (by simp)
      | ends call' action around innermost =>
        rw [innermost, Action.callEnd.inj (isEnd.symm.trans action)]
        rfl
    · have inside : position < r.log.size := Log.get?_lt found
      rw [Log.before_push (Nat.le_of_lt inside)]
      exact h.innermost position f call found isEnd

variable [DecidableEq η]

/-- **A recorder keeps its clock, its open calls and its log in step**, whatever it is told, and
    whether it takes it or not. -/
theorem clock_calls_and_log_in_step (keepsNames : Bool) (reports : List (Report η)) :
    (reports.foldl heard (start keepsNames)).InStep := by
  have goesOn (r : Recorder η) (h : r.InStep) : (reports.foldl heard r).InStep := by
    induction reports generalizing r with
    | nil => exact h
    | cons report reports ih =>
      rw [List.foldl_cons]
      apply ih
      rcases r.heard_cases report with refused | ⟨e, took⟩
      · rw [refused]
        exact h
      · exact h.took took
  exact goesOn _ (start_inStep keepsNames)

end Recorder
end Retrace
