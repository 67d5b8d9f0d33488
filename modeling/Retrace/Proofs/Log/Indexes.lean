import Mathlib.Algebra.Ring.Nat
import Retrace.Log.Indexed
import Retrace.Proofs.Recording.Reports

/-!
# Indexes agree with the events

A log with indexes finds the event of a time and the end of a call without looking at the events.
Times may repeat in a log, and so may the ends of one call; then it is the last that counts, as it
is for `Log`, which does look. What one more event does to a search is `Log.findBelow?_push`: it is
found, or else what was found before. The indexes do the same (`Agrees.push`), so they agree with
the events in every log that came about by putting events at the end and giving all of them up, in
any order (`behind_agrees`).

The result says it without a search: what is found is the last event of its kind since all events
were given up, and nothing is found only where there is none (`finds_the_last`).
-/

namespace Retrace

/-- The event ends the call that began at a time. -/
def Event.Ends (begun : Time) (e : Event) : Prop :=
  ∃ call, e.action = .callEnd call ∧ call.begun = begun

theorem Event.ends_iff {begun : Time} {e : Event} :
    (e.callEnd?.any fun call => call.begun = begun) = true ↔ e.Ends begun := by
  simp only [Option.any_eq_true, decide_eq_true_eq, Event.callEnd?_eq_some]
  exact Iff.rfl

/-! ## Searching for the last event -/

namespace Log

variable {log : Log} {p : Event → Bool} {q : Event → Prop} {bound position : Nat} {e : Event}

/-- An event, at its position, is the last one in the log that fulfils a condition. -/
structure IsLast (log : Log) (q : Event → Prop) (position : Nat) (e : Event) : Prop where
  there : log.get? position = some e
  holds : q e
  last : ∀ later f, position < later → log.get? later = some f → ¬ q f

theorem findBelow?_eq_none_iff :
    log.findBelow? p bound = none ↔ ∀ i < bound, ∀ e, log.get? i = some e → p e = false := by
  induction bound with
  | zero => simp [findBelow?]
  | succ bound ih =>
    have below : (∀ i < bound + 1, ∀ e, log.get? i = some e → p e = false) ↔
        (∀ e, log.get? bound = some e → p e = false) ∧
          ∀ i < bound, ∀ e, log.get? i = some e → p e = false :=
      Nat.forall_lt_succ_right.trans and_comm
    rw [below, ← ih, findBelow?]
    cases log.get? bound with
    | none => simp
    | some f => cases holds : p f <;> simp [holds]

/-- Behind what is found, nothing fulfils the condition. -/
theorem findBelow?_last (found : log.findBelow? p bound = some (position, e)) :
    ∀ later < bound, position < later → ∀ f, log.get? later = some f → p f = false := by
  induction bound with
  | zero => exact fun _ less => absurd less (Nat.not_lt_zero _)
  | succ bound ih =>
    intro later less behind f there
    rw [findBelow?] at found
    rcases Nat.lt_or_eq_of_le (Nat.le_of_lt_succ less) with earlier | rfl
    · refine ih ?_ later earlier behind f there
      cases here : log.get? bound with
      | none => rwa [here] at found
      | some g =>
        simp only [here] at found
        split at found
        · obtain ⟨rfl, -⟩ := Prod.mk.inj (Option.some.inj found)
          exact absurd earlier (Nat.lt_asymm behind)
        · exact found
    · simp only [there] at found
      split at found
      · obtain ⟨rfl, -⟩ := Prod.mk.inj (Option.some.inj found)
        exact absurd behind (Nat.lt_irrefl _)
      · rename_i other
        exact Bool.eq_false_iff.2 other

theorem IsLast.unique {i j : Nat} {f : Event} (h : log.IsLast q i e) (h' : log.IsLast q j f) :
    i = j ∧ e = f := by
  rcases Nat.lt_trichotomy i j with less | rfl | more
  · exact absurd h'.holds (h.last j f less h'.there)
  · exact ⟨rfl, Option.some.inj (h.there.symm.trans h'.there)⟩
  · exact absurd h.holds (h'.last i e more h.there)

/-- **A search finds the last event that fulfils its condition**, if there is one. -/
theorem findBelow?_eq_some_iff (same : ∀ e, p e = true ↔ q e) :
    log.findBelow? p log.size = some (position, e) ↔ log.IsLast q position e := by
  have isLast {i : Nat} {f : Event} (found : log.findBelow? p log.size = some (i, f)) :
      log.IsLast q i f := by
    obtain ⟨there, holds⟩ := findBelow?_spec found
    refine ⟨there, (same f).1 holds, fun later g behind final other => ?_⟩
    have none := findBelow?_last found later (get?_lt final) behind g final
    exact absurd ((same g).2 other) (by simp [none])
  refine ⟨isLast, fun h => ?_⟩
  cases found : log.findBelow? p log.size with
  | none =>
    have none := findBelow?_eq_none_iff.1 found position (get?_lt h.there) e h.there
    exact absurd ((same e).2 h.holds) (by simp [none])
  | some other =>
    obtain ⟨rfl, rfl⟩ := (isLast found).unique h
    rfl

theorem findBelow?_size_eq_none_iff (same : ∀ e, p e = true ↔ q e) :
    log.findBelow? p log.size = none ↔ ∀ e ∈ log.events.toList, ¬ q e := by
  have member {e : Event} : e ∈ log.events.toList ↔ ∃ i, log.get? i = some e := by
    rw [Array.mem_toList_iff, Array.mem_iff_getElem?]
    exact Iff.rfl
  rw [findBelow?_eq_none_iff]
  constructor
  · intro none e mem holds
    obtain ⟨i, there⟩ := member.1 mem
    exact absurd ((same e).2 holds) (by simp [none i (get?_lt there) e there])
  · intro none i _ e there
    exact Bool.eq_false_iff.2 fun holds => none e (member.2 ⟨i, there⟩) ((same e).1 holds)

/-- The search is the same in a log with more events, if it begins in front of them. -/
theorem findBelow?_push_below (below : bound ≤ log.size) :
    (log.push e).findBelow? p bound = log.findBelow? p bound := by
  induction bound with
  | zero => rfl
  | succ bound ih =>
    have earlier : bound ≠ log.size := Nat.ne_of_lt below
    rw [findBelow?, findBelow?, ih (Nat.le_of_succ_le below), get?_push, if_neg earlier]

/-- **One event more**: it is what is found, or else what was found before. -/
theorem findBelow?_push (log : Log) (e : Event) (p : Event → Bool) :
    (log.push e).findBelow? p (log.push e).size =
      if p e then some (log.size, e) else log.findBelow? p log.size := by
  have size : (log.push e).size = log.size + 1 := Array.size_push e
  rw [size, findBelow?, get?_push, if_pos rfl, findBelow?_push_below (Nat.le_refl _)]

theorem positionOf?_push (log : Log) (e : Event) (time : Time) :
    (log.push e).positionOf? time =
      if e.time = time then some log.size else log.positionOf? time := by
  unfold positionOf?
  rw [findBelow?_push]
  by_cases same : e.time = time <;> simp [same]

theorem matchingEnd?_push (log : Log) (e : Event) (begun : Time) :
    (log.push e).matchingEnd? begun =
      if e.callEnd?.any fun call => call.begun = begun then some (log.size, e)
      else log.matchingEnd? begun :=
  findBelow?_push log e _

theorem payloadBytes_eq (log : Log) :
    log.payloadBytes = (log.events.toList.map fun e => e.action.payloadBytes).sum := by
  rw [payloadBytes, List.sum, List.foldr_map]

theorem payloadBytes_push (log : Log) (e : Event) :
    (log.push e).payloadBytes = log.payloadBytes + e.action.payloadBytes := by
  simp [payloadBytes_eq, events_push]

end Log

/-! ## The indexes -/

namespace IndexedLog

variable {indexed : IndexedLog}

/-- What is kept beside the events agrees with them. -/
structure Agrees (indexed : IndexedLog) : Prop where
  byTime : ∀ time, indexed.byTime.get? time = indexed.log.positionOf? time
  callEnds : ∀ begun, indexed.callEnds.get? begun = (indexed.log.matchingEnd? begun).map Prod.fst
  payloadBytes : indexed.payloadBytes = indexed.log.payloadBytes

theorem empty_agrees : empty.Agrees := ⟨fun _ => rfl, fun _ => rfl, rfl⟩

/-- One event more is noted in the indexes just as a search comes upon it. -/
theorem Agrees.push (agrees : indexed.Agrees) (e : Event) : (indexed.push e).2.Agrees where
  byTime := by
    intro time
    have noted : (indexed.push e).2.byTime.get? time =
        if time = e.time then some indexed.log.size else indexed.byTime.get? time :=
      OrderedMap.get?_insert ..
    refine noted.trans ?_
    rw [agrees.byTime]
    refine Eq.trans ?_ (Log.positionOf?_push indexed.log e time).symm
    simp only [eq_comm]
  callEnds := by
    intro begun
    refine Eq.trans ?_ (congrArg (Option.map Prod.fst)
      (Log.matchingEnd?_push indexed.log e begun)).symm
    unfold IndexedLog.push
    cases e.callEnd? with
    | none => exact agrees.callEnds begun
    | some call =>
      refine (OrderedMap.get?_insert ..).trans ?_
      rw [agrees.callEnds]
      by_cases same : call.begun = begun
      · simp [same, size]
      · simp [same, Ne.symm same]
  payloadBytes := by
    have sum : (indexed.push e).2.payloadBytes = indexed.payloadBytes + e.action.payloadBytes := rfl
    rw [sum, agrees.payloadBytes]
    exact (Log.payloadBytes_push indexed.log e).symm

/-- Where the indexes agree, they answer what a search does. -/
theorem Agrees.positionOf?_eq (agrees : indexed.Agrees) :
    indexed.positionOf? = indexed.log.positionOf? :=
  funext agrees.byTime

theorem Agrees.matchingEnd?_eq (agrees : indexed.Agrees) :
    indexed.matchingEnd? = indexed.log.matchingEnd? := by
  funext begun
  unfold matchingEnd?
  rw [agrees.callEnds]
  cases found : indexed.log.matchingEnd? begun with
  | none => rfl
  | some ending =>
    obtain ⟨position, e⟩ := ending
    have there : indexed.get? position = some e := (Log.findBelow?_spec found).1
    simp [there]

/-! ## What was done to it -/

/-- What can be done to a log with indexes. -/
inductive Step where
  | push (e : Event)
  | release
deriving DecidableEq, Repr

def after (indexed : IndexedLog) : Step → IndexedLog
  | .push e => (indexed.push e).2
  | .release => indexed.release.2

/-- The log to which all this was done, the latest first. -/
def behind : List Step → IndexedLog
  | [] => empty
  | step :: past => (behind past).after step

/-- The events that were put at the end since all were given up, the earliest first. -/
def sinceRelease : List Step → List Event
  | [] => []
  | .push e :: past => sinceRelease past ++ [e]
  | .release :: _ => []

theorem behind_log (past : List Step) : (behind past).log.events.toList = sinceRelease past := by
  induction past with
  | nil => rfl
  | cons step past ih =>
    cases step with
    | push e =>
      have events : (behind (.push e :: past)).log.events.toList =
          (behind past).log.events.toList ++ [e] := Log.events_push ..
      rw [events, ih, sinceRelease]
    | release => rfl

theorem behind_agrees (past : List Step) : (behind past).Agrees := by
  induction past with
  | nil => exact empty_agrees
  | cons step past ih =>
    cases step with
    | push e => exact ih.push e
    | release => exact empty_agrees

/-- **Indexes find the last event**, whatever was put at the end and given up before.

    What is found under a time is the position of the last event of this time among those that are
    there since all were given up, and what is found for a begin is the last end that names it;
    nothing is found only where there is none. The bytes are the sum of those of the events. To give
    up all events answers this sum, and leaves a new log. If times increase, each event is found at
    its own position. -/
theorem finds_the_last (past : List Step) :
    let indexed := behind past
    let bytes := ((sinceRelease past).map fun e => e.action.payloadBytes).sum
    indexed.log.events.toList = sinceRelease past ∧
    (∀ time position, indexed.positionOf? time = some position ↔
      ∃ e, indexed.log.IsLast (fun e => e.time = time) position e) ∧
    (∀ time, indexed.positionOf? time = none ↔ ∀ e ∈ sinceRelease past, e.time ≠ time) ∧
    (∀ begun position e, indexed.matchingEnd? begun = some (position, e) ↔
      indexed.log.IsLast (Event.Ends begun) position e) ∧
    (∀ begun, indexed.matchingEnd? begun = none ↔ ∀ e ∈ sinceRelease past, ¬ e.Ends begun) ∧
    indexed.payloadBytes = bytes ∧ indexed.release = (bytes, empty) ∧
    (indexed.log.Ordered → ∀ time position, indexed.positionOf? time = some position ↔
      ∃ e, indexed.get? position = some e ∧ e.time = time) := by
  intro indexed bytes
  have agrees : indexed.Agrees := behind_agrees past
  have events : indexed.log.events.toList = sinceRelease past := behind_log past
  have total : indexed.payloadBytes = bytes := by
    rw [agrees.payloadBytes, Log.payloadBytes_eq, events]
  have isTime (time : Time) (e : Event) : decide (e.time = time) = true ↔ e.time = time :=
    decide_eq_true_iff
  -- the index answers as a search from the end does, and that finds the last
  have found (time : Time) (position : Nat) : indexed.positionOf? time = some position ↔
      ∃ e, indexed.log.IsLast (fun e => e.time = time) position e := by
    rw [agrees.positionOf?_eq, Log.positionOf?, Option.map_eq_some_iff]
    constructor
    · rintro ⟨⟨_, e⟩, found, rfl⟩
      exact ⟨e, (Log.findBelow?_eq_some_iff (isTime time)).1 found⟩
    · rintro ⟨e, isLast⟩
      exact ⟨(position, e), (Log.findBelow?_eq_some_iff (isTime time)).2 isLast, rfl⟩
  refine ⟨events, found, fun time => ?_, fun begun position e => ?_, fun begun => ?_, total, ?_,
    fun ordered time position => ?_⟩
  · rw [agrees.positionOf?_eq, Log.positionOf?, Option.map_eq_none_iff, ← events]
    exact Log.findBelow?_size_eq_none_iff (isTime time)
  · rw [agrees.matchingEnd?_eq]
    exact Log.findBelow?_eq_some_iff fun e => Event.ends_iff
  · rw [agrees.matchingEnd?_eq, ← events]
    exact Log.findBelow?_size_eq_none_iff fun e => Event.ends_iff
  · rw [release, total]
    rfl
  -- where times increase, no two events share one
  · rw [found]
    constructor
    · rintro ⟨e, isLast⟩
      exact ⟨e, isLast.there, isLast.holds⟩
    · rintro ⟨e, there, holds⟩
      refine ⟨e, there, holds, fun later f behind final same => ?_⟩
      exact absurd (ordered.position_unique there final (holds.trans same.symm))
        (Nat.ne_of_lt behind)

/-- A call that began at time 1 ends at time 2, and once more at time 3. What was there before was
    given up, with its begin. -/
def endedAgain : List Step :=
  [.push ⟨⟨3⟩, ⟨0⟩, .callEnd ⟨⟨1⟩, 0, true, false, ⟨0⟩⟩⟩,
    .push ⟨⟨2⟩, ⟨0⟩, .callEnd ⟨⟨1⟩, 0, false, false, ⟨0⟩⟩⟩, .release,
    .push ⟨⟨1⟩, ⟨0⟩, .callBegin ⟨0, .none, ⟨1⟩, ⟨0⟩, none, []⟩⟩]

/-- The call has ended where it ended last, each end is found at its own time, and the begin is not
    found any more. -/
theorem endedAgain_found : (behind endedAgain).log.Ordered ∧
    (behind endedAgain).positionOf? ⟨2⟩ = some 0 ∧ (behind endedAgain).positionOf? ⟨1⟩ = none ∧
    ∃ e, (behind endedAgain).matchingEnd? ⟨1⟩ = some (1, e) := by
  obtain ⟨-, -, unknown, ends, -, -, -, inverse⟩ := finds_the_last endedAgain
  have ordered : (behind endedAgain).log.Ordered := by decide
  refine ⟨ordered, (inverse ordered ⟨2⟩ 0).2 ⟨_, rfl, rfl⟩, (unknown ⟨1⟩).2 (by decide), _,
    (ends ⟨1⟩ 1 _).2 ⟨rfl, ⟨_, rfl, rfl⟩, fun later f behind there => ?_⟩⟩
  exact absurd (Log.get?_lt there) (Nat.not_lt.2 behind)

end IndexedLog
end Retrace
