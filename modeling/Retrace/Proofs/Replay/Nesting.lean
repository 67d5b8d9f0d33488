import Retrace.Log.Structure
import Retrace.Proofs.Replay.Course

/-!
# Logs with which nothing is wrong

The checker of `Log.problems` goes through the events of a log once and keeps the times at which the
open calls began. Here its result is read the other way: if it finds nothing, then it was right
about all of the log. Every call that is open at a position began at *one* event before it, with the
same calls around it, and is open at every position in between (`Log.OpenSince`). Nothing here
depends on how a log is replayed.

From that follows what a root call is made of (`Log.RootSpan`). No other call of depth zero ends
between its begin and its end, so of all that it does only one exception can be a root exception:
its own.
-/

namespace Retrace

/-! ## Root exceptions -/

/-- The exception that an event reports, if it ends a root call that was recorded to end in one. -/
def Event.rootException? (e : Event) : Option ReplayError :=
  e.callEnd?.bind fun call =>
    if call.depth = 0 ∧ call.raised then
      some (.uncaughtException call.begun e.time call.terminatingException)
    else none

/-- The exceptions of the root calls that end before a position. -/
def Log.rootExceptionsBefore (log : Log) (position : Nat) : List ReplayError :=
  (log.events.toList.take position).filterMap Event.rootException?

/-- The exceptions of the root calls that do not. -/
def Log.rootExceptionsFrom (log : Log) (position : Nat) : List ReplayError :=
  (log.events.toList.drop position).filterMap Event.rootException?

/-- The exceptions of all root calls, in the order of the log. -/
def Log.rootExceptions (log : Log) : List ReplayError :=
  log.events.toList.filterMap Event.rootException?

theorem Event.rootException?_of_end {e : Event} {call : CallEnd} (action : e.action = .callEnd call) :
    e.rootException? = if call.depth = 0 ∧ call.raised then
      some (.uncaughtException call.begun e.time call.terminatingException) else none := by
  rw [rootException?, Event.callEnd?_eq_some.2 action]
  rfl

theorem Event.rootException?_eq_some {e : Event} {err : ReplayError}
    (h : e.rootException? = some err) : ∃ call, e.action = .callEnd call ∧ call.depth = 0 ∧
      call.raised = true ∧ err = .uncaughtException call.begun e.time call.terminatingException := by
  obtain ⟨call, isEnd, h⟩ := Option.bind_eq_some_iff.1 h
  split at h
  · rename_i root
    exact ⟨call, Event.callEnd?_eq_some.1 isEnd, root.1, root.2, (Option.some.inj h).symm⟩
  · exact absurd h (by simp)

section Exceptions

variable {log : Log}

theorem Log.rootExceptionsBefore_append_from (log : Log) (position : Nat) :
    log.rootExceptionsBefore position ++ log.rootExceptionsFrom position = log.rootExceptions := by
  rw [rootExceptionsBefore, rootExceptionsFrom, rootExceptions, ← List.filterMap_append,
    List.take_append_drop]

theorem Log.rootExceptionsBefore_succ {position : Nat} {e : Event}
    (next : log.get? position = some e) :
    log.rootExceptionsBefore (position + 1) =
      log.rootExceptionsBefore position ++ e.rootException?.toList := by
  have found : log.events.toList[position]? = some e := by
    rw [Array.getElem?_toList]
    exact next
  rw [rootExceptionsBefore, rootExceptionsBefore, List.take_add_one, found, List.filterMap_append]
  cases h : e.rootException? <;> simp [h]

/-- Behind the last event, all of them have ended. -/
theorem Log.rootExceptionsBefore_of_end {position : Nat} (none : log.get? position = none) :
    log.rootExceptionsBefore position = log.rootExceptions := by
  have outside : log.events.size ≤ position := Array.getElem?_eq_none_iff.1 none
  rw [rootExceptionsBefore, List.take_of_length_le (by rwa [Array.length_toList]), rootExceptions]

theorem Log.mem_rootExceptions {err : ReplayError} (h : err ∈ log.rootExceptions) :
    ∃ position e, log.get? position = some e ∧ e.rootException? = some err := by
  obtain ⟨e, mem, raised⟩ := List.mem_filterMap.1 h
  obtain ⟨position, found⟩ := List.mem_iff_getElem?.1 mem
  rw [Array.getElem?_toList] at found
  exact ⟨position, e, found, raised⟩

end Exceptions

/-! ## What the checker has seen -/

/-- What the checker has seen of a log before a position. -/
def Log.nesting (log : Log) : Nat → Nesting
  | 0 => .start
  | position + 1 =>
    match log.get? position with
    | some e => ((log.nesting position).step e).2
    | none => log.nesting position

/-- When the calls began that are open at a position, innermost first. -/
def Log.openCalls (log : Log) (position : Nat) : List Time := (log.nesting position).openCalls

/-- What an event with which nothing is wrong does to the open calls. -/
inductive Nests (e : Event) (calls calls' : List Time) : Prop
  | inner (hbegin : e.callBegin? = none) (hend : e.callEnd? = none) (same : calls' = calls)
  | begins (call : CallBegin) (action : e.action = .callBegin call)
      (depth : call.depth.toNat = calls.length) (within : calls' = e.time :: calls)
  | ends (call : CallEnd) (action : e.action = .callEnd call)
      (depth : call.depth.toNat = calls'.length) (around : calls = call.begun :: calls')

theorem Nesting.nests_of_clean {n : Nesting} {e : Event} (clean : (n.callProblems e).1 = []) :
    Nests e n.openCalls (n.callProblems e).2 := by
  unfold callProblems at clean ⊢
  cases action : e.action with
  | callBegin call =>
    simp only [action] at clean ⊢
    split at clean
    · rename_i depth
      exact .begins call action depth rfl
    · exact absurd clean (by simp)
  | callEnd call =>
    simp only [action] at clean ⊢
    cases isOpen : n.openCalls with
    | nil => rw [isOpen] at clean; exact absurd clean (by simp)
    | cons innermost around =>
      rw [isOpen] at clean
      dsimp only at clean
      split at clean
      · exact absurd clean (by simp)
      · rename_i named
        split at clean
        · rename_i depth
          exact .ends call action depth (by rw [Decidable.not_not.1 named])
        · exact absurd clean (by simp)
  | _ => exact .inner (by simp [Event.callBegin?, action]) (by simp [Event.callEnd?, action]) rfl

/-- A replay opens and ends the calls that the checker does. -/
theorem CallStep.openCalls {η : Type} {e : Event} {k k' : CallStack η} {calls calls' : List Time}
    (step : CallStep e k k') (nests : Nests e calls calls')
    (same : k.frames.map Frame.begun = calls) : k'.frames.map Frame.begun = calls' := by
  cases step with
  | inner hbegin hend left =>
    cases nests with
    | inner _ _ stay => rw [left, same, stay]
    | begins call action => exact absurd (Event.callBegin?_eq_some.2 action) (by simp [hbegin])
    | ends call action => exact absurd (Event.callEnd?_eq_some.2 action) (by simp [hend])
  | begins call frame action _ begun _ frames =>
    cases nests with
    | inner other => exact absurd (Event.callBegin?_eq_some.2 action) (by simp [other])
    | begins _ _ _ within => rw [frames, List.map_cons, begun, same, within]
    | ends _ other => exact absurd (action.symm.trans other) (by simp)
  | finishes call frame frames action top _ _ _ left =>
    cases nests with
    | inner _ other => exact absurd (Event.callEnd?_eq_some.2 action) (by simp [other])
    | begins _ other => exact absurd (action.symm.trans other) (by simp)
    | ends _ _ _ around =>
      rw [top, around, List.map_cons] at same
      rw [left]
      exact (List.cons.inj same).2

section Clean

variable {log : Log}

theorem Log.nesting_succ {position : Nat} {e : Event} (next : log.get? position = some e) :
    log.nesting (position + 1) = ((log.nesting position).step e).2 := by
  rw [nesting, next]

/-- Where nothing is wrong with a log, nothing is wrong with what is left of it at a position. -/
theorem Log.problems_drop (clean : log.problems = []) {position : Nat} (le : position ≤ log.size) :
    (log.nesting position).problems (log.events.toList.drop position) = [] := by
  induction position with
  | zero => exact clean
  | succ position ih =>
    have rest := ih (Nat.le_of_succ_le le)
    have inside : position < log.events.toList.length := by
      rw [Array.length_toList]
      exact le
    rw [List.drop_eq_getElem_cons inside, Nesting.problems] at rest
    have next : log.get? position = some log.events.toList[position] := by
      rw [get?, ← Array.getElem?_toList]
      exact List.getElem?_eq_getElem inside
    rw [log.nesting_succ next]
    exact (List.append_eq_nil_iff.1 rest).2

theorem Log.step_clean (clean : log.problems = []) {position : Nat} {e : Event}
    (next : log.get? position = some e) : ((log.nesting position).step e).1 = [] := by
  have inside : position < log.events.toList.length := by
    rw [Array.length_toList]
    exact Log.get?_lt next
  have rest := Log.problems_drop clean (Nat.le_of_lt (Log.get?_lt next))
  rw [List.drop_eq_getElem_cons inside, Nesting.problems] at rest
  obtain rfl : log.events.toList[position] = e := by
    rw [get?, ← Array.getElem?_toList, List.getElem?_eq_getElem inside] at next
    exact Option.some.inj next
  exact (List.append_eq_nil_iff.1 rest).1

/-- Every event of such a log begins a call, ends the innermost one, or does neither. -/
theorem Log.nests (clean : log.problems = []) {position : Nat} {e : Event}
    (next : log.get? position = some e) :
    Nests e (log.openCalls position) (log.openCalls (position + 1)) := by
  rw [openCalls, openCalls, log.nesting_succ next]
  exact Nesting.nests_of_clean (List.append_eq_nil_iff.1 (Log.step_clean clean next)).2

theorem Log.follows (clean : log.problems = []) {position : Nat} {e : Event}
    (next : log.get? position = some e) {previous : Time}
    (before : (log.nesting position).previous = some previous) : previous < e.time := by
  have timely := (List.append_eq_nil_iff.1 (Log.step_clean clean next)).1
  rw [Nesting.timeProblems, before] at timely
  dsimp only at timely
  split at timely
  · exact absurd timely (by simp)
  · rename_i late
    exact Time.not_le.1 late

/-- The event before a position is the last of those before it. -/
theorem Log.previous_le (clean : log.problems = []) {position i : Nat} {e : Event}
    (less : i < position) (first : log.get? i = some e) :
    ∃ previous, (log.nesting position).previous = some previous ∧ e.time ≤ previous := by
  induction position with
  | zero => exact absurd less (Nat.not_lt_zero i)
  | succ position ih =>
    cases next : log.get? position with
    | none =>
      have outside : log.size ≤ position := Array.getElem?_eq_none_iff.1 next
      have inside := Log.get?_lt first
      rw [nesting, next]
      exact ih (by omega)
    | some f =>
      rw [log.nesting_succ next]
      refine ⟨f.time, rfl, ?_⟩
      rcases Nat.lt_or_eq_of_le (Nat.le_of_lt_succ less) with earlier | rfl
      · obtain ⟨previous, before, le⟩ := ih earlier
        have le := Time.le_iff.1 le
        have follows := Time.lt_iff.1 (Log.follows clean next before)
        exact Time.le_iff.2 (by omega)
      · obtain rfl := Option.some.inj (first.symm.trans next)
        exact Time.le_refl _

/-- The times of a log with which nothing is wrong increase. -/
theorem Log.ordered_of_clean (clean : log.problems = []) : log.Ordered := by
  refine List.pairwise_iff_getElem.2 fun i j insideI insideJ less => ?_
  have found {k : Nat} (inside : k < log.events.toList.length) :
      log.get? k = some log.events.toList[k] := by
    rw [get?, ← Array.getElem?_toList, List.getElem?_eq_getElem inside]
  obtain ⟨previous, before, le⟩ := Log.previous_le clean less (found insideI)
  have le := Time.le_iff.1 le
  have follows := Time.lt_iff.1 (Log.follows clean (found insideJ) before)
  exact Time.lt_iff.2 (by omega)

/-! ## Open calls -/

/-- The call that began at a time is open at a position since the event at `i`, within the calls
    `around`. -/
structure Log.OpenSince (log : Log) (position : Nat) (begun : Time) (around : List Time)
    (i : Nat) : Prop where
  before : i < position
  begins : ∃ e call, log.get? i = some e ∧ e.action = .callBegin call ∧ e.time = begun
  opened : log.openCalls i = around
  stays : ∀ m, i < m → m ≤ position → begun :: around <:+ log.openCalls m

theorem Log.OpenSince.succ {position i : Nat} {begun : Time} {around : List Time}
    (h : log.OpenSince position begun around i)
    (still : begun :: around <:+ log.openCalls (position + 1)) :
    log.OpenSince (position + 1) begun around i := by
  refine { h with before := Nat.lt_succ_of_lt h.before, stays := fun m after le => ?_ }
  rcases Nat.lt_or_eq_of_le le with less | rfl
  · exact h.stays m after (Nat.le_of_lt_succ less)
  · exact still

/-- **A call that is open at a position began at an event before, and was open ever since.** -/
theorem Log.openSince (clean : log.problems = []) {position : Nat} {begun : Time}
    {around : List Time} (isOpen : begun :: around <:+ log.openCalls position) :
    ∃ i, log.OpenSince position begun around i := by
  induction position with
  | zero => exact absurd (List.suffix_nil.1 isOpen) (by simp)
  | succ position ih =>
    have earlier (was : begun :: around <:+ log.openCalls position) :
        ∃ i, log.OpenSince (position + 1) begun around i := by
      obtain ⟨i, since⟩ := ih was
      exact ⟨i, since.succ isOpen⟩
    cases next : log.get? position with
    | none =>
      have same : log.openCalls (position + 1) = log.openCalls position := by
        rw [openCalls, nesting, next]
        rfl
      exact earlier (same ▸ isOpen)
    | some e =>
      cases Log.nests clean next with
      | inner _ _ same => exact earlier (same ▸ isOpen)
      | begins call action depth within =>
        rcases List.suffix_cons_iff.1 (within ▸ isOpen) with here | was
        · -- this is the call that begins with the event
          obtain ⟨rfl, rfl⟩ := List.cons.inj here
          refine ⟨position, Nat.lt_succ_self _, ⟨e, call, next, action, rfl⟩, rfl, ?_⟩
          intro m after le
          obtain rfl : m = position + 1 := Nat.le_antisymm le after
          exact isOpen
        · exact earlier was
      | ends call action depth inside =>
        exact earlier (inside ▸ isOpen.trans (List.suffix_cons _ _))

/-- The call that an end names, seen from the end. -/
theorem Log.openSince_of_end (clean : log.problems = []) {j : Nat} {ending : Event}
    {callEnd : CallEnd} (final : log.get? j = some ending)
    (ends : ending.action = .callEnd callEnd) :
    callEnd.depth.toNat = (log.openCalls (j + 1)).length ∧
      ∃ i, log.OpenSince j callEnd.begun (log.openCalls (j + 1)) i := by
  cases Log.nests clean final with
  | inner _ other => exact absurd (Event.callEnd?_eq_some.2 ends) (by simp [other])
  | begins _ other => exact absurd (ends.symm.trans other) (by simp)
  | ends call action depth around =>
    obtain rfl := Action.callEnd.inj (ends.symm.trans action)
    exact ⟨depth, Log.openSince clean (around ▸ List.suffix_rfl)⟩

/-- There are no two ends of one call. -/
theorem Log.end_unique (clean : log.problems = []) {j k : Nat} {e f : Event} {call call' : CallEnd}
    (he : log.get? j = some e) (hf : log.get? k = some f) (ends : e.action = .callEnd call)
    (ends' : f.action = .callEnd call') (same : call.begun = call'.begun) : j = k := by
  have ordered := Log.ordered_of_clean clean
  -- behind the first of two ends the call would be open still, within itself
  have later {j k : Nat} {e f : Event} {call call' : CallEnd} (he : log.get? j = some e)
      (hf : log.get? k = some f) (ends : e.action = .callEnd call)
      (ends' : f.action = .callEnd call') (same : call.begun = call'.begun) : ¬ j < k := by
    intro less
    obtain ⟨-, i, since⟩ := Log.openSince_of_end clean he ends
    obtain ⟨-, i', since'⟩ := Log.openSince_of_end clean hf ends'
    obtain ⟨b, _, there, -, named⟩ := since.begins
    obtain ⟨b', _, there', -, named'⟩ := since'.begins
    obtain rfl := ordered.position_unique there there' (named.trans (same.trans named'.symm))
    have still := since'.stays (j + 1) (Nat.lt_succ_of_lt since.before) less
    have short := still.length_le
    rw [← since'.opened, since.opened, List.length_cons] at short
    omega
  rcases Nat.lt_trichotomy j k with less | rfl | more
  · exact absurd less (later he hf ends ends' same)
  · rfl
  · exact absurd more (later hf he ends' ends same.symm)

/-! ## Root calls -/

/-- A root call lies between two positions of a log: no call is open before it or behind it, and
    the exception in which it may have ended is all that root calls raise there. -/
structure Log.RootSpan (log : Log) (i j : Nat) (ending : Event) (callEnd : CallEnd) : Prop where
  less : i < j
  opened : log.openCalls i = []
  closed : log.openCalls (j + 1) = []
  depth : callEnd.depth = 0
  raises : log.rootExceptionsBefore (j + 1) =
    log.rootExceptionsBefore i ++ ending.rootException?.toList

/-- While a call is open, no root call ends. -/
theorem Log.OpenSince.quiet (clean : log.problems = []) {position i : Nat} {begun : Time}
    {around : List Time} (h : log.OpenSince position begun around i) {m : Nat} (after : i ≤ m)
    (le : m ≤ position) : log.rootExceptionsBefore m = log.rootExceptionsBefore i := by
  induction after with
  | refl => rfl
  | @step m after ih =>
    have before := ih (Nat.le_of_succ_le le)
    cases next : log.get? m with
    | none =>
      have same : log.rootExceptionsBefore (m + 1) = log.rootExceptionsBefore m := by
        rw [Log.rootExceptionsBefore_of_end next, Log.rootExceptionsBefore_of_end]
        exact Array.getElem?_eq_none_iff.2
          (Nat.le_succ_of_le (Array.getElem?_eq_none_iff.1 next))
      exact same.trans before
    | some e =>
      have none : e.rootException? = .none := by
        cases raised : e.rootException? with
        | none => rfl
        | some err =>
          obtain ⟨call, ends, root, -⟩ := Event.rootException?_eq_some raised
          obtain ⟨depth, -⟩ := Log.openSince_of_end clean next ends
          have still := (h.stays (m + 1) (Nat.lt_succ_of_le after) le).length_le
          rw [← depth, root] at still
          exact absurd still (by simp)
      rw [Log.rootExceptionsBefore_succ next, none, before]
      exact List.append_nil _

/-- **An end that names the begin of a root call is the end of this root call.** -/
theorem Log.rootSpan (clean : log.problems = []) {i j : Nat} {e ending : Event} {call : CallBegin}
    {callEnd : CallEnd} (first : log.get? i = some e) (begins : e.action = .callBegin call)
    (root : call.depth = 0) (final : log.get? j = some ending)
    (ends : ending.action = .callEnd callEnd) (named : callEnd.begun = e.time) :
    log.RootSpan i j ending callEnd := by
  obtain ⟨depth, k, since⟩ := Log.openSince_of_end clean final ends
  obtain ⟨b, _, there, -, begun⟩ := since.begins
  obtain rfl : k = i :=
    (Log.ordered_of_clean clean).position_unique there first (begun.trans named)
  have opened : log.openCalls k = [] := by
    cases Log.nests clean first with
    | inner other => exact absurd (Event.callBegin?_eq_some.2 begins) (by simp [other])
    | begins call' action depth =>
      obtain rfl := Action.callBegin.inj (begins.symm.trans action)
      rw [root] at depth
      exact List.length_eq_zero_iff.1 depth.symm
    | ends _ other => exact absurd (begins.symm.trans other) (by simp)
  have closed : log.openCalls (j + 1) = [] := since.opened.symm.trans opened
  refine ⟨since.before, opened, closed, ?_, ?_⟩
  · rw [closed] at depth
    exact UInt32.toNat_inj.1 depth
  · rw [Log.rootExceptionsBefore_succ final,
      since.quiet clean (Nat.le_of_lt since.before) (Nat.le_refl j)]

/-- What is there is found. -/
theorem Log.findBelow?_isSome {p : Event → Bool} {bound i : Nat} {e : Event} (less : i < bound)
    (there : log.get? i = some e) (holds : p e = true) : (log.findBelow? p bound).isSome = true := by
  induction bound with
  | zero => exact absurd less (Nat.not_lt_zero i)
  | succ bound ih =>
    rw [findBelow?]
    rcases Nat.lt_or_eq_of_le (Nat.le_of_lt_succ less) with earlier | rfl
    · cases log.get? bound with
      | none => exact ih earlier
      | some f =>
        dsimp only
        split
        · rfl
        · exact ih earlier
    · rw [there]
      dsimp only
      rw [if_pos holds]
      rfl

/-- An end is the one that is found for the begin that it names. -/
theorem Log.matchingEnd?_of_end (clean : log.problems = []) {j : Nat} {ending : Event}
    {callEnd : CallEnd} (final : log.get? j = some ending)
    (ends : ending.action = .callEnd callEnd) :
    log.matchingEnd? callEnd.begun = some (j, ending) := by
  let names (e : Event) : Bool := e.callEnd?.any fun call => call.begun = callEnd.begun
  have here : names ending = true := by simp [names, Event.callEnd?_eq_some.2 ends]
  obtain ⟨⟨k, f⟩, found⟩ := Option.isSome_iff_exists.1
    (Log.findBelow?_isSome (Log.get?_lt final) final here)
  obtain ⟨there, named⟩ := Log.findBelow?_spec found
  obtain ⟨call', isEnd, same⟩ := (Option.any_eq_true _ _).1 named
  obtain rfl := Log.end_unique clean there final (Event.callEnd?_eq_some.1 isEnd) ends
    (of_decide_eq_true same)
  obtain rfl := Option.some.inj (there.symm.trans final)
  exact found

/-- **A root exception belongs to a root call of the log**: it names the call's begin, and the end
    that matches it. -/
theorem Log.begin_of_rootException (clean : log.problems = []) {root ended : Time}
    {terminating : Bool} (h : .uncaughtException root ended terminating ∈ log.rootExceptions) :
    ∃ i j begin_ ending call, i < j ∧ log.get? i = some begin_ ∧ begin_.time = root ∧
      begin_.action = .callBegin call ∧ call.depth = 0 ∧
      log.matchingEnd? root = some (j, ending) ∧ ending.time = ended := by
  obtain ⟨j, ending, final, raised⟩ := Log.mem_rootExceptions h
  obtain ⟨callEnd, ends, depth, -, same⟩ := Event.rootException?_eq_some raised
  obtain ⟨rfl, rfl, rfl⟩ := ReplayError.uncaughtException.inj same
  obtain ⟨deep, i, since⟩ := Log.openSince_of_end clean final ends
  obtain ⟨begin_, call, first, begins, begun⟩ := since.begins
  refine ⟨i, j, begin_, ending, call, since.before, first, begun, begins, ?_,
    Log.matchingEnd?_of_end clean final ends, rfl⟩
  cases Log.nests clean first with
  | inner other => exact absurd (Event.callBegin?_eq_some.2 begins) (by simp [other])
  | begins call' action around =>
    obtain rfl := Action.callBegin.inj (begins.symm.trans action)
    rw [since.opened, ← deep, depth] at around
    exact UInt32.toNat_inj.1 around
  | ends _ other => exact absurd (begins.symm.trans other) (by simp)

end Clean

end Retrace
