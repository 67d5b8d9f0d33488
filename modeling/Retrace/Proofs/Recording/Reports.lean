import Retrace.Proofs.Recording.Tags
import Retrace.Proofs.Replay.Course
import Retrace.Recorder

/-!
# What a report puts into the log

Every report that a recorder takes does the same three things: it writes what the operation was
given, puts an event behind the log, and tags a reference. The lemmas of this module read a report
that succeeded backwards: which event it committed (`Recorder.committed`), and which value it
tagged.

An event has its time from the clock, or brings one along that is later than all before (`Timely`).
Either way times increase from 1 on (`Timed`), so there is room for as many tags as there are
events.
-/

namespace Retrace

/-! ## One event more -/

namespace Log

variable {log : Log} {e : Event}

theorem get?_push (log : Log) (e : Event) (position : Nat) :
    (log.push e).get? position = if position = log.size then some e else log.get? position :=
  Array.getElem?_push

theorem events_push (log : Log) (e : Event) :
    (log.push e).events.toList = log.events.toList ++ [e] := Array.toList_push

theorem lastTime?_push (log : Log) (e : Event) : (log.push e).lastTime? = some e.time := by
  rw [lastTime?, push, Array.back?_push]
  rfl

/-- In a log whose times increase, no event is later than the last. -/
theorem Ordered.le_last (ordered : log.Ordered) {f : Event} (mem : f ∈ log.events.toList)
    {last : Time} (isLast : log.lastTime? = some last) : f.time ≤ last := by
  obtain ⟨g, final, rfl⟩ := Option.map_eq_some_iff.1 isLast
  rw [← Array.getLast?_toList] at final
  obtain ⟨init, split⟩ := List.getLast?_eq_some_iff.1 final
  unfold Ordered at ordered
  rw [split, List.pairwise_append] at ordered
  rw [split] at mem
  rcases List.mem_append.1 mem with earlier | itself
  · exact Time.le_of_lt (ordered.2.2 f earlier g List.mem_cons_self)
  · rw [List.mem_singleton.1 itself]
    exact Time.le_refl _

theorem Ordered.push (ordered : log.Ordered)
    (later : ∀ last, log.lastTime? = some last → last < e.time) : (log.push e).Ordered := by
  unfold Ordered
  rw [events_push, List.pairwise_append]
  refine ⟨ordered, List.pairwise_singleton _ _, fun f mem g isLast => ?_⟩
  rw [List.mem_singleton.1 isLast]
  cases final : log.lastTime? with
  | none =>
    have empty : log.events = #[] := by simpa [lastTime?] using final
    exact absurd mem (by simp [empty])
  | some last =>
    have before := Time.le_iff.1 (ordered.le_last mem final)
    have after := Time.lt_iff.1 (later last final)
    exact Time.lt_iff.2 (by omega)

end Log

namespace Recorder

variable {η : Type} {r r' : Recorder η} {context : Context} {time : Time}

/-- The recorder with one more event. -/
def committed (r : Recorder η) (time : Time) (context : Context) (action : Action) : Recorder η :=
  { r with
    log := r.log.push ⟨time, context, action⟩
    last := some time
    next := time.next? }

/-! ## Time -/

/-- The event has its time from the clock, or it brings one that there can be then. -/
def Timely (r : Recorder η) (e : Event) : Prop :=
  r.next = some e.time ∨ .first ≤ e.time ∧ ∀ last, r.last = some last → last < e.time

/-- Events come one after the other in time, so there are no more of them than there are times. -/
structure Timed (r : Recorder η) : Prop where
  ordered : r.log.Ordered
  last : r.last = r.log.lastTime?
  next : ∀ time, r.next = some time →
    .first ≤ time ∧ ∀ last, r.last = some last → last < time
  few : ∀ last, r.last = some last → (r.log.size : Int) ≤ last.ticks.toInt

theorem start_timed (keepsNames : Bool) : (start keepsNames : Recorder η).Timed where
  ordered := .nil
  last := rfl
  next _ isNext := Option.some.inj isNext ▸ ⟨Time.le_refl _, by simp [start]⟩
  few _ isLast := absurd isLast (by simp [start])

theorem next?_toInt {t u : Time} (h : t.next? = some u) : u.ticks.toInt = t.ticks.toInt + 1 := by
  unfold Time.next? at h
  split at h
  · exact absurd h (by simp)
  · rename_i notLast
    obtain rfl := Option.some.inj h
    have below : t.ticks.toInt ≠ Int64.maxValue.toInt :=
      fun same => notLast (congrArg Time.mk (Int64.toInt_inj.1 same))
    have bound := t.ticks.toInt_lt
    have start := t.ticks.le_toInt
    rw [Int64.toInt_maxValue] at below
    show (t.ticks + 1).toInt = t.ticks.toInt + 1
    rw [Int64.toInt_add, Int64.toInt_one]
    exact Int.bmod_eq_of_le_mul_two (by omega) (by omega)

section Timed

variable {e : Event}

theorem Timed.started (h : r.Timed) (timely : r.Timely e) : .first ≤ e.time :=
  timely.elim (fun clocked => (h.next e.time clocked).1) And.left

theorem Timed.later (h : r.Timed) (timely : r.Timely e) {last : Time} (isLast : r.last = some last) :
    last < e.time :=
  timely.elim (fun clocked => (h.next e.time clocked).2 last isLast) fun brought =>
    brought.2 last isLast

theorem Timed.size_lt (h : r.Timed) (timely : r.Timely e) :
    (r.log.size : Int) < e.time.ticks.toInt := by
  cases isLast : r.last with
  | none =>
    have empty : r.log.events = #[] := by simpa [h.last, Log.lastTime?] using isLast
    have zero : r.log.size = 0 := by simp [Log.size, empty]
    have started : (1 : Int) ≤ e.time.ticks.toInt := Time.le_iff.1 (h.started timely)
    omega
  | some last =>
    have few := h.few last isLast
    have later := Time.lt_iff.1 (h.later timely isLast)
    omega

/-- The clock ends long before the tags do. -/
theorem Timed.room (h : r.Timed) (timely : r.Timely e) : r.log.size + 2 < UInt64.size := by
  have now := h.size_lt timely
  have bound := e.time.ticks.toInt_lt
  show r.log.size + 2 < 2 ^ 64
  omega

end Timed

/-! ## What a report does to a recorder -/

/-- A report put an event behind the log, and tagged a value. -/
structure Reported [DecidableEq η] (r r' : Recorder η) (e : Event) (value : Value η) : Prop where
  timely : r.Timely e
  events : r'.log = r.log.push e
  next : r'.next = e.time.next?
  last : r'.last = some e.time
  tags : r'.tags = r.tags.trackValue value

theorem Reported.size [DecidableEq η] {e : Event} {value : Value η} (h : Reported r r' e value) :
    r'.log.size = r.log.size + 1 := by
  rw [h.events]
  exact Array.size_push _

theorem Timed.reported [DecidableEq η] {e : Event} {value : Value η} (h : r.Timed)
    (reported : Reported r r' e value) : r'.Timed where
  ordered := by
    rw [reported.events]
    exact h.ordered.push fun last isLast => h.later reported.timely (h.last.trans isLast)
  last := by rw [reported.last, reported.events, Log.lastTime?_push]
  next time isNext := by
    have after := next?_toInt (reported.next.symm.trans isNext)
    have started : (1 : Int) ≤ e.time.ticks.toInt := Time.le_iff.1 (h.started reported.timely)
    refine ⟨Time.le_iff.2 (show (1 : Int) ≤ _ by omega), fun last isLast => ?_⟩
    obtain rfl := Option.some.inj (reported.last.symm.trans isLast)
    exact Time.lt_iff.2 (by omega)
  few last isLast := by
    have now := h.size_lt reported.timely
    obtain rfl := Option.some.inj (reported.last.symm.trans isLast)
    rw [reported.size]
    omega

/-- There are no more tags than events. -/
structure Sound (r : Recorder η) : Prop where
  timed : r.Timed
  issued : r.tags.Issued
  few : r.tags.next.id.toNat ≤ r.log.size + 1

theorem start_sound (keepsNames : Bool) : (start keepsNames : Recorder η).Sound :=
  ⟨start_timed keepsNames, TagTable.empty_issued, Nat.le_refl 1⟩

theorem Sound.room (h : r.Sound) {e : Event} (timely : r.Timely e) :
    r.tags.next.id.toNat + 1 < UInt64.size :=
  Nat.lt_of_le_of_lt (Nat.succ_le_succ h.few) (h.timed.room timely)

theorem Sound.reported [DecidableEq η] {e : Event} {value : Value η} (h : r.Sound)
    (reported : Reported r r' e value) : r'.Sound := by
  have few := h.few
  obtain ⟨issued, more⟩ :=
    TagTable.trackValue_issued h.issued (h.room reported.timely) value
  refine ⟨h.timed.reported reported, reported.tags ▸ issued, ?_⟩
  rw [reported.tags, reported.size]
  omega

/-! ## Reports, read backwards -/

theorem act_inv {action : Action} (h : act context action r = .ok time r') :
    r.next = some time ∧ r' = r.committed time context action := by
  unfold act at h
  simp only [bind_run, get_run] at h
  cases isNext : r.next with
  | none => rw [isNext] at h; exact absurd h (by simp)
  | some now =>
    rw [isNext] at h
    obtain ⟨rfl, rfl⟩ := EStateM.Result.ok.inj h
    exact ⟨rfl, rfl⟩

theorem encoded_inv {α : Type} {kind : Kind} {encode : TagTable η → Except NamingError α} {a : α}
    (h : encoded kind encode r = .ok a r') : encode r.tags = .ok a ∧ r' = r := by
  unfold encoded at h
  simp only [bind_run, get_run] at h
  cases he : encode r.tags with
  | error e => rw [he] at h; exact absurd h (by simp)
  | ok b =>
    rw [he] at h
    obtain ⟨rfl, rfl⟩ := EStateM.Result.ok.inj h
    exact ⟨rfl, rfl⟩

theorem checkInnermost_inv {begun : Time} (h : checkInnermost begun r = .ok () r') :
    r.openCalls.head? = some begun ∧ r' = r := by
  unfold checkInnermost at h
  simp only [bind_run, get_run] at h
  by_cases innermost : r.openCalls.head? = some begun
  · simp only [innermost, ne_eq, not_true_eq_false, if_false] at h
    exact ⟨innermost, (EStateM.Result.ok.inj h).2.symm⟩
  · simp [innermost] at h

variable [DecidableEq η]

theorem functionTag_inv {kind : Kind} {function : η} {tag : Tag}
    (h : functionTag kind function r = .ok tag r') : r.tags.tagOf? function = some tag ∧ r' = r := by
  obtain ⟨found, rfl⟩ := encoded_inv h
  refine ⟨?_, rfl⟩
  cases ht : r'.tags.tagOf? function with
  | none => rw [ht] at found; exact absurd found (by simp)
  | some tag' => rw [ht] at found; rw [Except.ok.inj found]

/-- The function and the arguments of a call as they are recorded. -/
structure Named (tags : TagTable η) (function : η) (args : List (Value η)) (tag : Tag)
    (recorded : List Recorded) : Prop where
  function : tags.tagOf? function = some tag
  args : args.mapM (Value.encode tags) = .ok recorded

theorem request_inv {request : Request η} {result : Value η}
    (h : Recorder.request context request result r = .ok time r') :
    ∃ action, request.encode r.tags = .ok action ∧
      Reported r r' ⟨time, context, action⟩ (if tagsResult request then result else .null) ∧
      r'.openCalls = r.openCalls := by
  obtain ⟨action, _, encodes, rest⟩ := ok_of_bind h
  obtain ⟨encodes, rfl⟩ := encoded_inv encodes
  obtain ⟨now, _, acted, tail⟩ := ok_of_bind rest
  obtain ⟨isNext, rfl⟩ := act_inv acted
  refine ⟨action, encodes, ?_⟩
  by_cases keeps : tagsResult request = true
  · simp only [keeps, if_true] at tail ⊢
    obtain ⟨rfl, rfl⟩ := EStateM.Result.ok.inj tail
    exact ⟨⟨Or.inl isNext, rfl, rfl, rfl, rfl⟩, rfl⟩
  · simp only [keeps] at tail ⊢
    obtain ⟨rfl, rfl⟩ := EStateM.Result.ok.inj tail
    exact ⟨⟨Or.inl isNext, rfl, rfl, rfl, rfl⟩, rfl⟩

theorem takeException_inv {found : Option (Value η)}
    (h : takeException context (.ok found) r = .ok time r') :
    Reported r r' ⟨time, context, .getAndClearException⟩ (found.getD .null) ∧
      r'.openCalls = r.openCalls := by
  obtain ⟨now, _, acted, tail⟩ := ok_of_bind h
  obtain ⟨isNext, rfl⟩ := act_inv acted
  obtain ⟨rfl, rfl⟩ := EStateM.Result.ok.inj tail
  exact ⟨⟨Or.inl isNext, rfl, rfl, rfl, rfl⟩, rfl⟩

theorem construct_inv {function : η} {args : List (Value η)} {outcome : Outcome η}
    (h : construct context function args outcome r = .ok time r') :
    ∃ tag recorded, Named r.tags function args tag recorded ∧
      Reported r r' ⟨time, context, .constructCall tag recorded⟩ (returned outcome) ∧
      r'.openCalls = r.openCalls := by
  obtain ⟨tag, _, tagged, h₁⟩ := ok_of_bind h
  obtain ⟨tagged, rfl⟩ := functionTag_inv tagged
  obtain ⟨recorded, _, encodes, h₂⟩ := ok_of_bind h₁
  obtain ⟨encodes, rfl⟩ := encoded_inv encodes
  obtain ⟨now, _, acted, tail⟩ := ok_of_bind h₂
  obtain ⟨isNext, rfl⟩ := act_inv acted
  obtain ⟨rfl, rfl⟩ := EStateM.Result.ok.inj tail
  exact ⟨tag, recorded, ⟨tagged, encodes⟩, ⟨Or.inl isNext, rfl, rfl, rfl, rfl⟩, rfl⟩

theorem callback_inv {cancels repeating : Bool} {current id : CallbackId} {function : η}
    (h : callback context cancels repeating current function id r = .ok time r') :
    ∃ tag, Reported r r'
        ⟨time, context, .callbackOp ⟨cancels, repeating, current, tag, id⟩⟩ .null ∧
      r'.openCalls = r.openCalls := by
  obtain ⟨tag, _, tagged, tail⟩ := ok_of_bind h
  obtain ⟨-, rfl⟩ := functionTag_inv tagged
  obtain ⟨isNext, rfl⟩ := act_inv tail
  exact ⟨tag, ⟨Or.inl isNext, rfl, rfl, rfl, rfl⟩, rfl⟩

theorem beginCall_inv {function : η} {args : List (Value η)} {callback : CallbackId}
    {wallTime : Double} {name : Option String}
    (h : beginCall context function args callback wallTime name r = .ok time r') :
    ∃ call : CallBegin, call.depth = UInt32.ofNat r.openCalls.length ∧
      Named r.tags function args call.function call.args ∧
      Reported r r' ⟨time, context, .callBegin call⟩ .null ∧
      r'.openCalls = time :: r.openCalls := by
  obtain ⟨tag, _, tagged, h₁⟩ := ok_of_bind h
  obtain ⟨tagged, rfl⟩ := functionTag_inv tagged
  obtain ⟨recorded, _, encodes, h₂⟩ := ok_of_bind h₁
  obtain ⟨encodes, rfl⟩ := encoded_inv encodes
  obtain ⟨_, _, got, h₃⟩ := ok_of_bind h₂
  obtain ⟨rfl, rfl⟩ := EStateM.Result.ok.inj got
  obtain ⟨now, _, acted, tail⟩ := ok_of_bind h₃
  obtain ⟨isNext, rfl⟩ := act_inv acted
  obtain ⟨rfl, rfl⟩ := EStateM.Result.ok.inj tail
  exact ⟨_, rfl, ⟨tagged, encodes⟩, ⟨Or.inl isNext, rfl, rfl, rfl, rfl⟩, rfl⟩

theorem endCall_inv {begun : Time} {outcome : Outcome η} {wallTime : Double}
    (h : endCall context begun outcome wallTime r = .ok time r') :
    ∃ call : CallEnd, call.begun = begun ∧ call.depth = UInt32.ofNat (r.openCalls.length - 1) ∧
      call.raised = threw outcome ∧
      Reported r r' ⟨time, context, .callEnd call⟩ (returned outcome) ∧
      r'.openCalls = r.openCalls.tail := by
  obtain ⟨_, _, checked, h₁⟩ := ok_of_bind h
  obtain ⟨-, rfl⟩ := checkInnermost_inv checked
  obtain ⟨_, _, got, h₂⟩ := ok_of_bind h₁
  obtain ⟨rfl, rfl⟩ := EStateM.Result.ok.inj got
  cases outcome with
  | ok value =>
    obtain ⟨now, _, acted, tail⟩ := ok_of_bind h₂
    obtain ⟨isNext, rfl⟩ := act_inv acted
    obtain ⟨rfl, rfl⟩ := EStateM.Result.ok.inj tail
    exact ⟨_, rfl, rfl, rfl, ⟨Or.inl isNext, rfl, rfl, rfl, rfl⟩, rfl⟩
  | error thrown =>
    obtain ⟨now, _, acted, tail⟩ := ok_of_bind h₂
    obtain ⟨isNext, rfl⟩ := act_inv acted
    obtain ⟨rfl, rfl⟩ := EStateM.Result.ok.inj tail
    exact ⟨_, rfl, rfl, by simp [CallEnd.raised, threw], ⟨Or.inl isNext, rfl, rfl, rfl, rfl⟩, rfl⟩

end Recorder
end Retrace
