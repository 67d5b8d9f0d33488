import Retrace.Proofs.Recording.InStep
import Retrace.Proofs.Replay.Nesting
import Retrace.Proofs.Replay.Structure

/-!
# What may be wrong with a recorded log

A log has three things that may be wrong with it: times that do not increase, calls that do not
nest, and depths that are not those at which the calls stand. A recorder sees to the first two, be
the event its own or from outside, so in its log only the third can be wrong. And it sees to the
third where it makes the event itself, with as many bits as a depth has. An event that is handed
over finished brings its depth along, and nothing compares it with the calls that are open.

So what a checker finds in a finished recording is what those who handed over its events have said
wrongly about their depths (`Recorder.only_appended_depths_wrong`), and there is such a recording
(`Recorder.misstatedCall`).
-/

namespace Retrace

/-! ## Depths -/

/-- What is wrong with the depth that the begin or end of a call states, if so many calls are open
    before the event. -/
def Event.depthProblem? (e : Event) (calls : Nat) : Option Problem :=
  match e.action with
  | .callBegin call =>
    if call.depth.toNat = calls then none else some (.beginDepth e.time call.depth calls)
  | .callEnd call =>
    if call.depth.toNat = calls - 1 then none else some (.endDepth e.time call.depth (calls - 1))
  | _ => none

/-- The number of calls that are open at a position of a log. -/
def Log.openCount (log : Log) (position : Nat) : Nat := (stillOpen (log.before position)).length

/-- A depth that was counted is right, up to what 32 bits can hold. -/
theorem Event.Within.depthProblem? {e : Event} {calls : Nat} (within : e.Within calls)
    (few : calls < UInt32.size) : e.depthProblem? calls = none := by
  have counted {n : Nat} (le : n ≤ calls) : (UInt32.ofNat n).toNat = n :=
    UInt32.toNat_ofNat_of_lt' (Nat.lt_of_le_of_lt le few)
  unfold Event.depthProblem?
  cases action : e.action with
  | callBegin call =>
    dsimp only
    rw [within.begins call action, counted (Nat.le_refl _), if_pos rfl]
  | callEnd call =>
    dsimp only
    rw [within.ends call action, counted (Nat.sub_le _ _), if_pos rfl]
  | _ => rfl

namespace Log

variable {log : Log}

theorem Ordered.before (h : log.Ordered) (position : Nat) :
    (log.before position).Pairwise fun e f => e.time < f.time :=
  List.Pairwise.sublist (List.take_sublist _ _) h

/-- The checker goes through a log event by event. -/
theorem located_split (log : Log) {position : Nat} (le : position ≤ log.size)
    {found : Nat × Problem} : found ∈ log.located ↔
      (∃ e, found.1 < position ∧ log.get? found.1 = some e ∧
        found.2 ∈ ((log.nesting found.1).step e).1) ∨
      found ∈ (log.nesting position).located position (log.events.toList.drop position) := by
  induction position with
  | zero => simp [located, nesting]
  | succ position ih =>
    have inside : position < log.events.toList.length := by
      rw [Array.length_toList]
      exact le
    have next : log.get? position = some log.events.toList[position] := by
      rw [get?, ← Array.getElem?_toList]
      exact List.getElem?_eq_getElem inside
    rw [ih (Nat.le_of_succ_le le), List.drop_eq_getElem_cons inside, Nesting.located,
      List.mem_append, List.mem_map, log.nesting_succ next, ← or_assoc]
    refine or_congr_left ⟨?_, ?_⟩
    · rintro (⟨e, before, there, wrong⟩ | ⟨problem, wrong, rfl⟩)
      · exact ⟨e, Nat.lt_succ_of_lt before, there, wrong⟩
      · exact ⟨_, Nat.lt_succ_self _, next, wrong⟩
    · rintro ⟨e, before, there, wrong⟩
      rcases Nat.lt_or_eq_of_le (Nat.le_of_lt_succ before) with earlier | here
      · exact Or.inl ⟨e, earlier, there, wrong⟩
      · rw [here] at there wrong
        obtain rfl := Option.some.inj (there.symm.trans next)
        exact Or.inr ⟨found.2, wrong, by rw [← here]⟩

/-- If no call is open behind a log, all that is wrong with it is wrong with one of its events. -/
theorem mem_located (closed : log.openCalls log.size = []) {position : Nat} {problem : Problem} :
    (position, problem) ∈ log.located ↔
      ∃ e, log.get? position = some e ∧ problem ∈ ((log.nesting position).step e).1 := by
  have behind : (log.nesting log.size).located log.size (log.events.toList.drop log.size) = [] := by
    have none : log.events.toList.drop log.size = [] :=
      List.drop_of_length_le (Nat.le_of_eq Array.length_toList)
    rw [none, Nesting.located]
    change List.map _ ((log.openCalls log.size).getLast?.map _).toList = []
    rw [closed]
    rfl
  rw [log.located_split (Nat.le_refl _), behind]
  constructor
  · rintro (⟨e, -, there, wrong⟩ | none)
    · exact ⟨e, there, wrong⟩
    · exact absurd none List.not_mem_nil
  · rintro ⟨e, there, wrong⟩
    exact Or.inl ⟨e, get?_lt there, there, wrong⟩

/-- The checker compares an event with the one before it. -/
theorem nesting_previous {position : Nat} (le : position ≤ log.size) :
    (log.nesting position).previous = log.timeBefore? position := by
  cases position with
  | zero => rfl
  | succ position =>
    have next : log.get? position = some log.events[position] := Array.getElem?_eq_getElem le
    rw [log.nesting_succ next, timeBefore?_succ next]
    rfl

end Log

/-- If the calls nest, an event leaves open what the checker says. -/
theorem Event.Leaves.callProblems {n : Nesting} {e : Event} {calls : List Time}
    (leaves : e.Leaves n.openCalls calls) :
    n.callProblems e = ((e.depthProblem? n.openCalls.length).toList, calls) := by
  obtain ⟨previous, openCalls⟩ := n
  unfold Nesting.callProblems Event.depthProblem?
  cases leaves with
  | inner noBegin noEnd =>
    cases action : e.action with
    | callBegin call => exact absurd (Event.callBegin?_eq_some.2 action) (by simp [noBegin])
    | callEnd call => exact absurd (Event.callEnd?_eq_some.2 action) (by simp [noEnd])
    | _ => rfl
  | begins call action =>
    simp only [action]
    split <;> rfl
  | ends call action _ innermost =>
    subst innermost
    simp only [action, ne_eq, not_true_eq_false, if_false, List.length_cons, Nat.add_sub_cancel]
    split <;> rfl

/-! ## The recorder and the checker -/

namespace Recorder

variable {η : Type} {r : Recorder η}

/-- If the calls are kept that are open at an event, the event leaves some of them open: its end is
    that of the innermost. -/
theorem InStep.leaves (h : r.InStep) {position : Nat} {e : Event}
    (there : r.log.get? position = some e) {calls : List Time}
    (isOpen : calls.reverse = (stillOpen (r.log.before position)).map Event.time) :
    ∃ calls', e.Leaves calls calls' := by
  cases action : e.action with
  | callBegin call => exact ⟨_, .begins call action⟩
  | callEnd call =>
    have innermost := h.innermost position e call there action
    rw [← List.getLast?_map, ← isOpen, List.getLast?_reverse] at innermost
    obtain ⟨around, split⟩ := List.head?_eq_some_iff.1 innermost
    exact ⟨around, .ends call action around split⟩
  | _ => exact ⟨calls, .inner (by simp [Event.callBegin?, action]) (by simp [Event.callEnd?, action])⟩

/-- A checker of a recorded log keeps the calls that are open. -/
theorem InStep.openCalls_at (h : r.InStep) {position : Nat} (le : position ≤ r.log.size) :
    (r.log.openCalls position).reverse = (stillOpen (r.log.before position)).map Event.time := by
  induction position with
  | zero => rfl
  | succ position ih =>
    have next : r.log.get? position = some r.log.events[position] := Array.getElem?_eq_getElem le
    have isOpen := ih (Nat.le_of_succ_le le)
    obtain ⟨calls, leaves⟩ := h.leaves next isOpen
    have kept : r.log.openCalls (position + 1) = calls := by
      rw [Log.openCalls, Log.nesting_succ next, Nesting.step, leaves.callProblems]
    rw [kept, Log.before_succ next]
    exact leaves.stillOpen (Log.Ordered.before h.ordered position) isOpen

/-- All that a checker may find at an event of a recorded log is a wrong depth. -/
theorem InStep.step_problems (h : r.InStep) {position : Nat} {e : Event}
    (there : r.log.get? position = some e) :
    ((r.log.nesting position).step e).1 = (e.depthProblem? (r.log.openCount position)).toList := by
  have le := Nat.le_of_lt (Log.get?_lt there)
  have isOpen := h.openCalls_at le
  obtain ⟨calls, leaves⟩ := h.leaves there isOpen
  have timely : (r.log.nesting position).timeProblems e.time = [] :=
    Nesting.timeProblems_eq_nil fun previous before =>
      h.ordered.timeBefore_lt there ((Log.nesting_previous le).symm.trans before)
  have count : (r.log.nesting position).openCalls.length = r.log.openCount position := by
    rw [Log.openCount, ← List.length_map Event.time, ← isOpen, List.length_reverse]
    rfl
  rw [Nesting.step, leaves.callProblems, timely, count]
  rfl

/-- Behind a recording that left no call open, a checker knows of none. -/
theorem InStep.closed (h : r.InStep) (closed : r.openCalls = []) :
    r.log.openCalls r.log.size = [] := by
  have isOpen := h.openCalls_at (Nat.le_refl r.log.size)
  rw [Log.before_size, ← h.openCalls, closed] at isOpen
  exact List.reverse_eq_nil_iff.1 isOpen

/-! ## Who states the depths -/

variable [DecidableEq η]

/-- What has become of some reports that were all taken: an event each. -/
structure TookAll (reports : List (Report η)) (r : Recorder η) : Prop where
  inStep : r.InStep
  size : r.log.size = reports.length
  /-- The depth of an event came with it, or was counted. -/
  stated : ∀ position e, r.log.get? position = some e →
    reports[position]? = some (.append e) ∨ e.Within (r.log.openCount position)

omit [DecidableEq η] in
theorem start_tookAll (keepsNames : Bool) : (start keepsNames : Recorder η).TookAll [] where
  inStep := start_inStep keepsNames
  size := rfl
  stated _ _ there := absurd there (by simp [start, Log.get?, Log.empty])

theorem TookAll.record {reports : List (Report η)} {report : Report η} {time : Time}
    {r' : Recorder η} (h : r.TookAll reports) (taken : Recorder.record report r = .ok time r') :
    r'.TookAll (reports ++ [report]) := by
  obtain ⟨e, -, took, stated⟩ := record_taken taken
  refine ⟨h.inStep.took took, ?_, fun position f there => ?_⟩
  · rw [took.log, List.length_append, ← h.size]
    exact Array.size_push _
  rw [took.log, Log.get?_push] at there
  rw [took.log, Log.openCount]
  split at there
  · -- the event of this report stands where the log ended
    rename_i here
    obtain rfl := Option.some.inj there
    rw [here, Log.before_push (Nat.le_refl _), Log.before_size, h.size, List.getElem?_concat_length]
    have count : r.openCalls.length = (stillOpen r.log.events.toList).length := by
      rw [← List.length_reverse, h.inStep.openCalls, List.length_map]
    rcases stated with ⟨rfl, -⟩ | within
    · exact Or.inl rfl
    · exact Or.inr (count ▸ within)
  · have inside : position < r.log.size := Log.get?_lt there
    rw [Log.before_push (Nat.le_of_lt inside), List.getElem?_append_left (h.size ▸ inside)]
    exact h.stated position f there

theorem recordAll_tookAll {reports : List (Report η)} {keepsNames : Bool}
    (taken : recordAll reports (start keepsNames) = .ok () r) : r.TookAll reports := by
  induction reports using List.reverseRecOn generalizing r with
  | nil =>
    obtain ⟨-, rfl⟩ := EStateM.Result.ok.inj taken
    exact start_tookAll keepsNames
  | append_singleton reports report ih =>
    obtain ⟨mid, time, before, recorded⟩ := recordAll_concat taken
    exact (ih before).record recorded

/-- **In a finished recording only the depths of events may be wrong that were handed over
    finished**, or those of calls within more calls than a depth can count. It has no problem if
    these are right. -/
theorem only_appended_depths_wrong {reports : List (Report η)} {keepsNames : Bool}
    (taken : recordAll reports (start keepsNames) = .ok () r) (closed : r.openCalls = []) :
    (∀ position problem, (position, problem) ∈ r.log.located ↔
      ∃ e, r.log.get? position = some e ∧
        (reports[position]? = some (.append e) ∨ UInt32.size ≤ r.log.openCount position) ∧
        e.depthProblem? (r.log.openCount position) = some problem) ∧
    (r.log.problems = [] ↔ ∀ position e, r.log.get? position = some e →
      reports[position]? = some (.append e) ∨ UInt32.size ≤ r.log.openCount position →
      e.depthProblem? (r.log.openCount position) = none) := by
  have h := recordAll_tookAll taken
  have located : ∀ position problem, (position, problem) ∈ r.log.located ↔
      ∃ e, r.log.get? position = some e ∧
        (reports[position]? = some (.append e) ∨ UInt32.size ≤ r.log.openCount position) ∧
        e.depthProblem? (r.log.openCount position) = some problem := by
    intro position problem
    rw [Log.mem_located (h.inStep.closed closed)]
    refine exists_congr fun e => and_congr_right fun there => ?_
    rw [h.inStep.step_problems there, Option.mem_toList]
    refine ⟨fun wrong => ⟨?_, wrong⟩, fun wrong => wrong.2⟩
    rcases h.stated position e there with appended | within
    · exact Or.inl appended
    · refine Or.inr (Nat.le_of_not_lt fun few => ?_)
      exact absurd (wrong.symm.trans (within.depthProblem? few)) (by simp)
  refine ⟨located, ?_⟩
  rw [← r.log.located_problems, List.map_eq_nil_iff]
  constructor
  · intro clean position e there brought
    refine Option.eq_none_iff_forall_ne_some.2 fun problem misstated => ?_
    have wrong := (located position problem).2 ⟨e, there, brought, misstated⟩
    exact absurd wrong (by simp [clean])
  · intro right
    refine List.eq_nil_iff_forall_not_mem.2 fun found wrong => ?_
    obtain ⟨e, there, brought, misstated⟩ := (located found.1 found.2).1 wrong
    exact absurd (misstated.symm.trans (right _ e there brought)) (by simp)

/-- A root call that begins as if another were around it, and ends as one that is not. -/
def misstatedCall : Log :=
  ⟨#[⟨⟨1⟩, ⟨0⟩, .callBegin ⟨1, .none, ⟨1⟩, ⟨0⟩, none, []⟩⟩,
    ⟨⟨2⟩, ⟨0⟩, .callEnd ⟨⟨1⟩, 0, false, false, ⟨0⟩⟩⟩]⟩

/-- The recorder to which both events of `misstatedCall` were handed over. -/
def misstatedRecorder : Recorder Nat := ⟨true, some ⟨3⟩, some ⟨2⟩, .empty, [], misstatedCall⟩

/-- It took them. The depth of the begin is wrong, so it is found. -/
theorem misstatedCall_found :
    recordAll (misstatedCall.events.toList.map .append) (start true) = .ok () misstatedRecorder ∧
      misstatedRecorder.openCalls = [] ∧
      (0, .beginDepth ⟨1⟩ 1 0) ∈ misstatedRecorder.log.located := by
  have taken : recordAll (misstatedCall.events.toList.map .append) (start true) =
      .ok () misstatedRecorder := rfl
  refine ⟨taken, rfl, ((only_appended_depths_wrong taken rfl).1 _ _).2 ?_⟩
  exact ⟨_, rfl, Or.inl rfl, rfl⟩

/-- So the log of a recording that was taken, and is finished, need not pass. -/
theorem misstatedCall_fails :
    recordAll (misstatedCall.events.toList.map .append) (start true) = .ok () misstatedRecorder ∧
      misstatedRecorder.openCalls = [] ∧
      misstatedRecorder.log.problems = [.beginDepth ⟨1⟩ 1 0] :=
  ⟨rfl, rfl, rfl⟩

end Recorder
end Retrace
