import Retrace.Proofs.Replay.FastForward
import Retrace.Proofs.Replay.Structure

/-!
# What a replay keeps of its calls

A replay that executes every event keeps two things about the calls of its log: the stack of those
that are open, and the table of ends by begins. Both are determined by the events that it has
executed, and by nothing else: not by the engine, not by the errors that were survived on the way,
not by the depths and times that a malformed log claims. `CallStack.Accounts` is this
correspondence, and `CallStack.Accounts.step` is the one event by which it goes on.

It is why an end need only be compared with the innermost frame. Begins increase from the outermost
frame in, a frame is numbered by the frames around it, and no call that is over overlaps one that is
open (`CallStack.Accounts.apart`).

A playback passes no call by if it may not, or if it is only ever asked for single steps, or if no
checkpoint was known to begin with: those that it takes itself lie behind it (`Playback.Unaided`).
-/

namespace Retrace

/-! ## The calls among some events -/

/-- Whether the event ends the call that began at a time. -/
def Event.endsCall (e : Event) (begun : Time) : Bool :=
  e.callEnd?.any fun call => call.begun = begun

/-- The begins of the calls that none of the events ends, in their order. -/
def unended (events : List Event) : List Event :=
  events.filter fun e => e.callBegin?.isSome && !events.any (·.endsCall e.time)

/-- Among some events are the begin and the end of a call. -/
structure Completed (events : List Event) (begun ended : Time) : Prop where
  begins : ∃ e ∈ events, e.callBegin?.isSome = true ∧ e.time = begun
  ends : ∃ e ∈ events, e.endsCall begun = true ∧ e.time = ended

/-- The events before a position of a log. -/
def Log.before (log : Log) (position : Nat) : List Event := log.events.toList.take position

theorem Log.before_succ {log : Log} {position : Nat} {e : Event}
    (next : log.get? position = some e) :
    log.before (position + 1) = log.before position ++ [e] := by
  have found : log.events.toList[position]? = some e := by
    rw [Array.getElem?_toList]
    exact next
  rw [before, before, List.take_add_one, found, Option.toList_some]

section Events

variable {events : List Event} {e : Event}

theorem Event.endsCall_iff {begun : Time} :
    e.endsCall begun = true ↔ ∃ call, e.action = .callEnd call ∧ call.begun = begun := by
  simp only [endsCall, Option.any_eq_true, decide_eq_true_eq, Event.callEnd?_eq_some]

theorem Event.endsCall_of_end {call : CallEnd} (action : e.action = .callEnd call) (begun : Time) :
    e.endsCall begun = decide (call.begun = begun) := by
  rw [endsCall, Event.callEnd?_eq_some.2 action, Option.any_some]

theorem mem_unended {b : Event} : b ∈ unended events ↔
    b ∈ events ∧ b.callBegin?.isSome = true ∧ ∀ f ∈ events, f.endsCall b.time = false := by
  simp only [unended, List.mem_filter, Bool.and_eq_true, Bool.not_eq_true', List.any_eq_false,
    Bool.not_eq_true]

/-- An event that begins no call takes out of the open ones those that it ends. -/
theorem unended_append (quiet : e.callBegin? = none) :
    unended (events ++ [e]) = (unended events).filter fun b => !e.endsCall b.time := by
  simp only [unended, List.filter_append, List.any_append, List.any_cons, List.any_nil,
    Bool.or_false, List.filter_filter, Bool.not_or]
  rw [List.filter_cons_of_neg (by simp [quiet]), List.filter_nil, List.append_nil]
  exact List.filter_congr fun b _ => by ac_rfl

/-- A call that begins is open, if no event so far claims to have ended it. -/
theorem unended_append_begin (isBegin : e.callBegin?.isSome = true) (silent : e.callEnd? = none)
    (fresh : ∀ f ∈ events, f.endsCall e.time = false) :
    unended (events ++ [e]) = unended events ++ [e] := by
  have none (begun : Time) : e.endsCall begun = false := by simp [Event.endsCall, silent]
  have open_ : events.any (·.endsCall e.time) = false := List.any_eq_false.2 (by simpa using fresh)
  simp only [unended, List.filter_append, List.any_append, List.any_cons, List.any_nil, none,
    Bool.or_false]
  rw [List.filter_cons_of_pos (by simp [isBegin, open_]), List.filter_nil]

theorem Completed.mono {more : List Event} {begun ended : Time} (h : Completed events begun ended) :
    Completed (events ++ more) begun ended := by
  obtain ⟨⟨b, hb, isBegin⟩, f, hf, ends⟩ := h
  exact ⟨⟨b, List.mem_append_left _ hb, isBegin⟩, f, List.mem_append_left _ hf, ends⟩

/-- An event that ends no call completes none, unless it is the begin of one that an event before
    claims to have ended. -/
theorem completed_append (noEnd : e.callEnd? = none)
    (fresh : e.callBegin?.isSome = true → ∀ f ∈ events, f.endsCall e.time = false)
    {begun ended : Time} :
    Completed (events ++ [e]) begun ended ↔ Completed events begun ended := by
  refine ⟨?_, Completed.mono⟩
  rintro ⟨⟨b, hb, isBegin, named⟩, f, hf, ends, at_⟩
  have old : f ∈ events := by
    rcases List.mem_append.1 hf with old | new
    · exact old
    · rw [List.mem_singleton.1 new, Event.endsCall, noEnd] at ends
      exact absurd ends (by simp)
  refine ⟨⟨b, ?_, isBegin, named⟩, f, old, ends, at_⟩
  rcases List.mem_append.1 hb with before | new
  · exact before
  · obtain rfl := List.mem_singleton.1 new
    exact absurd ends (by rw [← named, fresh isBegin f old]; simp)

/-- An event that ends a call completes this one only. -/
theorem completed_append_end {call : CallEnd} (action : e.action = .callEnd call)
    (begins : ∃ b ∈ events, b.callBegin?.isSome = true ∧ b.time = call.begun)
    {begun ended : Time} : Completed (events ++ [e]) begun ended ↔
      Completed events begun ended ∨ begun = call.begun ∧ ended = e.time := by
  have noBegin : e.callBegin? = none := by simp [Event.callBegin?, action]
  constructor
  · rintro ⟨⟨b, hb, isBegin, named⟩, f, hf, ends, at_⟩
    have old : b ∈ events := by
      rcases List.mem_append.1 hb with old | new
      · exact old
      · rw [List.mem_singleton.1 new, noBegin] at isBegin
        exact absurd isBegin (by simp)
    rcases List.mem_append.1 hf with before | new
    · exact Or.inl ⟨⟨b, old, isBegin, named⟩, f, before, ends, at_⟩
    · obtain rfl := List.mem_singleton.1 new
      rw [Event.endsCall_of_end action] at ends
      exact Or.inr ⟨(of_decide_eq_true ends).symm, at_.symm⟩
  · rintro (old | ⟨rfl, rfl⟩)
    · exact old.mono
    · obtain ⟨b, hb, isBegin⟩ := begins
      exact ⟨⟨b, List.mem_append_left _ hb, isBegin⟩, e, by simp,
        by rw [Event.endsCall_of_end action, decide_eq_true rfl], rfl⟩

end Events

/-- What is put under a new key is all that changes. -/
theorem OrderedMap.get?_insert_new {κ ν : Type} [DecidableEq κ] {m : OrderedMap κ ν} {k : κ}
    (new : m.get? k = none) (v : ν) {k' : κ} {v' : ν} :
    (m.insert k v).get? k' = some v' ↔ m.get? k' = some v' ∨ k' = k ∧ v' = v := by
  rw [get?_insert]
  by_cases same : k' = k
  · subst same
    simp [new, eq_comm]
  · simp [same]

/-! ## The frames of the open calls -/

section Frames

variable {η : Type}

/-- The frame is the one that the event opened. -/
structure Frame.BegunBy (frame : Frame η) (e : Event) : Prop where
  begun : frame.begun = e.time
  recorded : ∃ call, e.action = .callBegin call ∧ frame.depth = call.depth ∧
    frame.function = call.function ∧ frame.callback = call.callback

theorem begun_eq_time {frames : List (Frame η)} {begins : List Event}
    (h : List.Forall₂ Frame.BegunBy frames begins) :
    frames.map Frame.begun = begins.map Event.time := by
  induction h with
  | nil => rfl
  | cons first _ ih => rw [List.map_cons, List.map_cons, first.begun, ih]

/-- From the outermost in, numbered frames count up. -/
theorem Numbered.depths {frames : List (Frame η)} (h : Numbered frames) :
    (frames.reverse.map fun frame => frame.depth.toNat) = List.range frames.length := by
  induction frames with
  | nil => rfl
  | cons frame frames ih =>
    rw [List.reverse_cons, List.map_append, ih h.2, List.length_cons, List.range_succ]
    exact congrArg _ (congrArg (fun n => [n]) h.1)

namespace CallStack

/-- What a stack keeps of the calls among the events that were executed. -/
structure Accounts (k : CallStack η) (events : List Event) : Prop where
  ordered : events.Pairwise fun e f => e.time < f.time
  opened : List.Forall₂ Frame.BegunBy k.frames (unended events).reverse
  numbered : Numbered k.frames
  root : ∀ frame, k.outermost? = some frame → k.root = some frame.begun
  matched : ∀ begun ended, k.matchingEnd? begun = some ended ↔ Completed events begun ended
  named : ∀ f ∈ events, ∀ begun, f.endsCall begun = true → begun < f.time
  /-- A call that is over ended before an open one began, or began after it. -/
  apart : ∀ frame ∈ k.frames, ∀ begun ended, k.matchingEnd? begun = some ended →
    ended < frame.begun ∨ frame.begun < begun
  nested : ∀ begun ended begun' ended', k.matchingEnd? begun = some ended →
    k.matchingEnd? begun' = some ended' → begun < begun' → ended < begun' ∨ ended' < ended

theorem Accounts.empty : (CallStack.empty : CallStack η).Accounts [] where
  ordered := .nil
  opened := .nil
  numbered := trivial
  root _ isOpen := absurd isOpen (by simp [outermost?, CallStack.empty])
  matched begun ended := by
    refine ⟨fun h => absurd h (by simp [matchingEnd?, CallStack.empty]), ?_⟩
    rintro ⟨⟨b, hb, -⟩, -⟩
    exact absurd hb (by simp)
  named f hf := absurd hf (by simp)
  apart frame hf := absurd hf (by simp [CallStack.empty])
  nested _ _ _ _ h := absurd h (by simp [matchingEnd?, CallStack.empty])

variable {k k' : CallStack η} {events : List Event} {e : Event}

theorem Accounts.begins (h : k.Accounts events) :
    k.frames.map Frame.begun = (unended events).reverse.map Event.time :=
  begun_eq_time h.opened

/-- From the innermost out, each of the open calls began before the last. -/
theorem Accounts.decreasing (h : k.Accounts events) :
    (k.frames.map Frame.begun).Pairwise fun inner outer => outer < inner := by
  rw [h.begins, List.map_reverse, List.pairwise_reverse, List.pairwise_map]
  exact h.ordered.sublist List.filter_sublist

/-- An open call began with an event that no event so far claims to have ended. -/
theorem Accounts.begunBy (h : k.Accounts events) {frame : Frame η} (isOpen : frame ∈ k.frames) :
    ∃ b ∈ unended events, b.time = frame.begun := by
  have mem : frame.begun ∈ (unended events).reverse.map Event.time :=
    h.begins ▸ List.mem_map_of_mem isOpen
  obtain ⟨b, hb, same⟩ := List.mem_map.1 mem
  exact ⟨b, List.mem_reverse.1 hb, same⟩

theorem Accounts.ended_lt (h : k.Accounts events) (later : ∀ f ∈ events, f.time < e.time)
    {begun ended : Time} (matched : k.matchingEnd? begun = some ended) : ended < e.time := by
  obtain ⟨f, hf, -, rfl⟩ := ((h.matched begun ended).1 matched).ends
  exact later f hf

/-- A time after all events so far is named by none of them. -/
theorem Accounts.unnamed (h : k.Accounts events) (later : ∀ f ∈ events, f.time < e.time) :
    ∀ f ∈ events, f.endsCall e.time = false := by
  intro f hf
  by_contra ends
  have after := Time.lt_iff.1 (h.named f hf e.time (by simpa using ends))
  have before := Time.lt_iff.1 (later f hf)
  omega

theorem pairwise_append_later (ordered : events.Pairwise fun e f => e.time < f.time)
    (later : ∀ f ∈ events, f.time < e.time) :
    (events ++ [e]).Pairwise fun e f => e.time < f.time := by
  rw [List.pairwise_append]
  exact ⟨ordered, List.pairwise_singleton _ _,
    fun f hf g hg => List.mem_singleton.1 hg ▸ later f hf⟩

theorem Accounts.inner (h : k.Accounts events) (later : ∀ f ∈ events, f.time < e.time)
    (noBegin : e.callBegin? = none) (noEnd : e.callEnd? = none) : k.Accounts (events ++ [e]) where
  ordered := pairwise_append_later h.ordered later
  opened := by
    have all : ∀ b ∈ unended events, (!e.endsCall b.time) = true := by simp [Event.endsCall, noEnd]
    rw [unended_append noBegin, List.filter_eq_self.2 all]
    exact h.opened
  numbered := h.numbered
  root := h.root
  matched begun ended := by
    rw [completed_append noEnd (by simp [noBegin])]
    exact h.matched begun ended
  named f hf begun ends := by
    rcases List.mem_append.1 hf with old | new
    · exact h.named f old begun ends
    · rw [List.mem_singleton.1 new, Event.endsCall, noEnd] at ends
      exact absurd ends (by simp)
  apart := h.apart
  nested := h.nested

theorem Accounts.opens (h : k.Accounts events) (later : ∀ f ∈ events, f.time < e.time)
    {call : CallBegin} {frame : Frame η} (action : e.action = .callBegin call)
    (made : frame.BegunBy e) (deep : call.depth.toNat = k.depth)
    (frames : k'.frames = frame :: k.frames) (ends : k'.ends = k.ends)
    (root : k'.root = if call.depth = 0 then some e.time else k.root) :
    k'.Accounts (events ++ [e]) where
  ordered := pairwise_append_later h.ordered later
  opened := by
    have isBegin : e.callBegin?.isSome = true := by simp [Event.callBegin?, action]
    have silent : e.callEnd? = none := by simp [Event.callEnd?, action]
    rw [unended_append_begin isBegin silent (h.unnamed later), frames, List.reverse_concat]
    exact .cons made h.opened
  numbered := by
    obtain ⟨call', action', depth, -⟩ := made.recorded
    obtain rfl := Action.callBegin.inj (action.symm.trans action')
    rw [frames]
    exact ⟨depth ▸ deep, h.numbered⟩
  root outermost isOpen := by
    unfold outermost? at isOpen
    rw [frames] at isOpen
    rw [root]
    cases around : k.frames with
    | nil =>
      -- the call is a root call
      have zero : call.depth = 0 := by
        unfold CallStack.depth at deep
        rw [around] at deep
        exact UInt32.toNat_inj.1 deep
      rw [around, List.getLast?_singleton] at isOpen
      rw [if_pos zero, ← Option.some.inj isOpen, made.begun]
    | cons inner frames' =>
      -- within another call the root call stays the one that it was
      have deeper : call.depth ≠ 0 := by
        intro zero
        unfold CallStack.depth at deep
        rw [around, zero] at deep
        exact absurd deep (by simp)
      rw [if_neg deeper]
      refine h.root outermost ?_
      rw [outermost?, around]
      rw [around] at isOpen
      simpa using isOpen
  matched begun ended := by
    have silent : e.callEnd? = none := by simp [Event.callEnd?, action]
    rw [completed_append silent fun _ => h.unnamed later, matchingEnd?, ends]
    exact h.matched begun ended
  named f hf begun named := by
    rcases List.mem_append.1 hf with old | new
    · exact h.named f old begun named
    · rw [List.mem_singleton.1 new, Event.endsCall_iff] at named
      obtain ⟨_, other, -⟩ := named
      exact absurd (action.symm.trans other) (by simp)
  apart := by
    intro opened hf begun ended matched
    rw [matchingEnd?, ends] at matched
    rw [frames] at hf
    rcases List.mem_cons.1 hf with rfl | old
    · exact Or.inl (made.begun ▸ h.ended_lt later matched)
    · exact h.apart opened old begun ended matched
  nested := by
    unfold matchingEnd?
    rw [ends]
    exact h.nested

theorem Accounts.closes (h : k.Accounts events) (later : ∀ f ∈ events, f.time < e.time)
    {call : CallEnd} {frame : Frame η} {frames : List (Frame η)} (action : e.action = .callEnd call)
    (top : k.frames = frame :: frames) (begun : frame.begun = call.begun)
    (after : call.begun < e.time) :
    Accounts { k with frames, ends := k.ends.insert call.begun e.time } (events ++ [e]) := by
  have noBegin : e.callBegin? = none := by simp [Event.callBegin?, action]
  -- the innermost open call is the last of those that are open among the events
  obtain ⟨b, hb, bTime⟩ := h.begunBy (top ▸ List.mem_cons_self)
  obtain ⟨mem, isBegin, unnamed⟩ := mem_unended.1 hb
  have begins : ∃ b ∈ events, b.callBegin?.isSome = true ∧ b.time = call.begun :=
    ⟨b, mem, isBegin, bTime.trans begun⟩
  have isOpen (ended : Time) : ¬ Completed events call.begun ended := by
    rintro ⟨-, f, hf, ends, -⟩
    rw [← begun, ← bTime, unnamed f hf] at ends
    exact absurd ends (by simp)
  have inside : ∀ around ∈ frames, around.begun < call.begun := by
    have decreasing := h.decreasing
    rw [top, List.map_cons, List.pairwise_cons] at decreasing
    exact fun around hf => begun ▸ decreasing.1 around.begun (List.mem_map_of_mem hf)
  have new : k.ends.get? call.begun = none := by
    cases matched : k.ends.get? call.begun with
    | none => rfl
    | some ended => exact absurd ((h.matched _ _).1 matched) (isOpen ended)
  have found (begun ended : Time) :
      matchingEnd? { k with frames, ends := k.ends.insert call.begun e.time } begun = some ended ↔
        k.matchingEnd? begun = some ended ∨ begun = call.begun ∧ ended = e.time :=
    OrderedMap.get?_insert_new new e.time
  refine ⟨pairwise_append_later h.ordered later, ?_, ?_, ?_, ?_, ?_, ?_, ?_⟩
  -- the end names the innermost of the open calls and none of those around it
  · obtain ⟨b', rest, made, opened, all⟩ := List.forall₂_cons_left_iff.1 (top ▸ h.opened)
    have ended : ¬ (!e.endsCall b'.time) = true := by
      rw [Event.endsCall_of_end action, ← made.begun, begun]
      simp
    have stay : ∀ b ∈ rest, (!e.endsCall b.time) = true := by
      intro b hb
      have mem : b.time ∈ frames.map Frame.begun := begun_eq_time opened ▸ List.mem_map_of_mem hb
      obtain ⟨around, hf, same⟩ := List.mem_map.1 mem
      rw [Event.endsCall_of_end action, ← same,
        decide_eq_false (Time.ne_of_lt (inside around hf)).symm]
      rfl
    rw [unended_append noBegin, ← List.filter_reverse, all, List.filter_cons, if_neg ended,
      List.filter_eq_self.2 stay]
    exact opened
  · have numbered := h.numbered
    rw [top] at numbered
    exact numbered.2
  · intro outermost isOpen
    refine h.root outermost ?_
    rw [outermost?, top]
    unfold outermost? at isOpen
    cases frames with
    | nil => exact absurd isOpen (by simp)
    | cons inner frames' => simpa using isOpen
  · intro begun' ended
    rw [found, completed_append_end action begins, h.matched]
  · intro f hf begun' ends
    rcases List.mem_append.1 hf with old | new
    · exact h.named f old begun' ends
    · obtain rfl := List.mem_singleton.1 new
      rw [Event.endsCall_of_end action] at ends
      exact of_decide_eq_true ends ▸ after
  · intro opened hf begun' ended matched
    rcases (found begun' ended).1 matched with old | ⟨rfl, rfl⟩
    · exact h.apart opened (top ▸ List.mem_cons_of_mem _ hf) begun' ended old
    · exact Or.inr (inside opened hf)
  -- of two calls that have ended, the later one may be the one that ends now: then whatever
  -- ended before it began is apart from it, and whatever ended since lies within it
  · intro begun₁ ended₁ begun₂ ended₂ first second less
    rcases (found begun₁ ended₁).1 first with old | ⟨rfl, rfl⟩
    · rcases (found begun₂ ended₂).1 second with old' | ⟨rfl, rfl⟩
      · exact h.nested begun₁ ended₁ begun₂ ended₂ old old' less
      · rcases h.apart frame (top ▸ List.mem_cons_self) begun₁ ended₁ old with before | inner
        · exact Or.inl (begun ▸ before)
        · rw [begun, Time.lt_iff] at inner
          rw [Time.lt_iff] at less
          omega
    · rcases (found begun₂ ended₂).1 second with old | ⟨rfl, rfl⟩
      · exact Or.inr (h.ended_lt later old)
      · exact absurd rfl (Time.ne_of_lt less)

/-- **An event that is executed keeps the stack in accordance with the events.** -/
theorem Accounts.step (h : k.Accounts events) (later : ∀ f ∈ events, f.time < e.time)
    (step : CallStep e k k')
    (recorded : ∀ call, e.action = .callBegin call →
      ∃ frame : Frame η, frame.BegunBy e ∧ k'.frames = frame :: k.frames) :
    k'.Accounts (events ++ [e]) := by
  cases step with
  | inner hbegin hend same => exact same ▸ h.inner later hbegin hend
  | begins call _ action deep _ _ _ ends root =>
    obtain ⟨frame, made, frames⟩ := recorded call action
    exact h.opens later action made deep frames ends root
  | finishes call frame frames action top begun after _ left =>
    exact left ▸ h.closes later action top begun after

end CallStack

/-- An event that ends a call for the first time is all that is new in the table. -/
theorem CallStep.matchingEnd?_iff {k k' : CallStack η} {e : Event} (step : CallStep e k k')
    (new : ∀ call, e.action = .callEnd call → k.matchingEnd? call.begun = none)
    {begun ended : Time} : k'.matchingEnd? begun = some ended ↔
      k.matchingEnd? begun = some ended ∨ e.endsCall begun = true ∧ e.time = ended := by
  cases step with
  | inner _ hend same => simp [same, Event.endsCall, hend]
  | begins call _ action _ _ _ _ ends =>
    have silent : e.callEnd? = none := by simp [Event.callEnd?, action]
    simp [CallStack.matchingEnd?, ends, Event.endsCall, silent]
  | finishes call _ _ action _ _ _ _ left =>
    rw [left, Event.endsCall_of_end action, decide_eq_true_eq, eq_comm (a := call.begun),
      eq_comm (a := e.time)]
    exact OrderedMap.get?_insert_new (new call action) e.time

end Frames

/-! ## A playback and its calls -/

/-- Whether serving a demand may pass a call by. -/
def Demand.passesBy : Demand → Bool
  | .stepToward _ | .run | .runUntil _ => true
  | .step | .stop | .goOn => false

namespace Playback

section Replay

variable {ρ η σ : Type}

/-- A playback has executed the events before its position, and keeps of their calls what there is
    to keep. All that is wrong with its log is wrong with the events that are left. -/
structure Accounting (log : Log) (settings : Settings) (p : Playback ρ η σ) : Prop where
  isLog : p.log = log
  under : p.session.settings = settings
  rests : p.phase = if p.session.stack.isEmpty then .idle else .inCall
  accounts : p.session.stack.Accounts (log.before p.position)
  passed : ∀ e ∈ log.before p.position, ∃ last, p.last = some last ∧ e.time ≤ last
  room : p.session.stack.depth ≤ settings.maxDepth
  problems : log.problems =
    Nesting.problems ⟨p.last, p.session.stack.frames.map Frame.begun⟩ p.rest

variable {log : Log} {settings : Settings} {p q : Playback ρ η σ} {target : Option Time}

theorem Accounting.start (log : Log) (engine : ρ) (settings : Settings) (notes : Notes η σ) :
    Accounting log settings (start log (Session.start engine settings notes)) where
  isLog := rfl
  under := rfl
  rests := rfl
  accounts := .empty
  passed e he := absurd he (by simp [Log.before, Playback.start])
  room := Nat.zero_le _
  problems := rfl

theorem Accounting.later (h : Accounting log settings p) {e : Event} (facing : p.Facing e) :
    ∀ f ∈ log.before p.position, f.time < e.time := by
  intro f hf
  obtain ⟨last, isLast, before⟩ := h.passed f hf
  have before := Time.le_iff.1 before
  have after := Time.lt_iff.1 (facing.ordered last isLast)
  exact Time.lt_iff.2 (by omega)

/-- No call will be passed by: the playback is set not to, or the checkpoints that it knows of are
    those of calls that it has come past. -/
def Unaided (p : Playback ρ η σ) : Prop :=
  p.session.settings.fastForward = false ∨
    ∀ i c, p.session.notes.checkpoints.get? i = some c →
      ∃ e last, p.log.get? i = some e ∧ p.last = some last ∧ e.time ≤ last

theorem Unaided.start (log : Log) (engine : ρ) {notes : Notes η σ}
    (plain : settings.fastForward = false ∨ notes.checkpoints = .empty) :
    (start log (Session.start engine settings notes)).Unaided := by
  refine plain.imp id fun unknown i c known => ?_
  have known : notes.checkpoints.get? i = some c := known
  rw [unknown] at known
  exact absurd known (by simp)

theorem Unaided.direct (h : p.Unaided) {e : Event} (facing : p.Facing e) :
    target.bind (p.shortcut? e) = none := by
  rcases h with plain | behind
  · exact shortcut?_plain plain e target
  · by_contra found
    obtain ⟨_, shortcut⟩ := Option.ne_none_iff_exists'.1 found
    obtain ⟨f, last, there, isLast, le⟩ := behind p.position _ (shortcut?_leads shortcut).noted
    obtain rfl : f = e := Option.some.inj (there.symm.trans facing.next)
    exact Time.not_le.2 (facing.ordered last isLast) le

/-- What a playback knows about the calls of its log. -/
structure KnowsCalls (log : Log) (maxDepth : Nat) (p : Playback ρ η σ) : Prop where
  /-- The open frames, outermost first, are those of the calls that began and did not end. -/
  opened : List.Forall₂ Frame.BegunBy p.session.stack.frames.reverse
    (unended (log.before p.position))
  depths : (p.session.stack.frames.reverse.map fun frame => frame.depth.toNat) =
    List.range p.session.stack.depth
  increasing : (p.session.stack.frames.reverse.map Frame.begun).Pairwise (· < ·)
  notLater : ∀ frame ∈ p.session.stack.frames, ∃ last, p.last = some last ∧ frame.begun ≤ last
  room : p.session.stack.depth ≤ maxDepth
  root : ∀ frame, p.session.stack.outermost? = some frame →
    p.session.stack.root = some frame.begun
  matched : ∀ begun ended, p.session.stack.matchingEnd? begun = some ended ↔
    Completed (log.before p.position) begun ended
  later : ∀ begun ended, p.session.stack.matchingEnd? begun = some ended → begun < ended
  /-- Of two calls that are over, the later one began after the end of the other, or ended before
      it. -/
  nested : ∀ begun ended begun' ended', p.session.stack.matchingEnd? begun = some ended →
    p.session.stack.matchingEnd? begun' = some ended' → begun < begun' →
      ended < begun' ∨ ended' < ended
  phase : p.phase = if p.session.stack.isEmpty then .idle else .inCall

theorem Accounting.knowsCalls (h : Accounting log settings p) :
    KnowsCalls log settings.maxDepth p where
  opened := by
    rw [← List.reverse_reverse (unended _), List.forall₂_reverse_iff]
    exact h.accounts.opened
  depths := h.accounts.numbered.depths
  increasing := by
    rw [List.map_reverse, List.pairwise_reverse]
    exact h.accounts.decreasing
  notLater frame isOpen := by
    obtain ⟨b, hb, same⟩ := h.accounts.begunBy isOpen
    obtain ⟨last, isLast, le⟩ := h.passed b (mem_unended.1 hb).1
    exact ⟨last, isLast, same ▸ le⟩
  room := h.room
  root := h.accounts.root
  matched := h.accounts.matched
  later begun ended matched := by
    obtain ⟨f, hf, ends, rfl⟩ := ((h.accounts.matched begun ended).1 matched).ends
    exact h.accounts.named f hf begun ends
  nested := h.accounts.nested
  phase := h.rests

variable [Engine ρ η σ]

/-- What comes of an advance: all stays as it is, or the replay ends by an error, or an event is
    executed, or a root call is passed by. -/
inductive Moves (target : Option Time) (p : Playback ρ η σ) : Playback ρ η σ → Prop
  | stays : Moves target p p
  | faults (q : Playback ρ η σ) (faulted : q.phase = .faulted) : Moves target p q
  | executes (e : Event) (session : Session ρ η σ) (facing : p.Facing e)
      (step : CallStep e p.session.stack session.stack)
      (settings : session.settings = p.session.settings)
      (checkpoints : session.notes.checkpoints = p.session.notes.checkpoints)
      (opens : ∀ call, e.action = .callBegin call →
        p.session.stack.depth < p.session.settings.maxDepth ∧
          ∃ frame : Frame η, frame.BegunBy e ∧
            session.stack.frames = frame :: p.session.stack.frames) :
      Moves target p ((p.past e session).withCheckpoint e).atRest
  | passes (e : Event) (call : CallBegin) (c : Checkpoint η σ) (endPosition : Nat) (ending : Event)
      (callEnd : CallEnd) (session : Session ρ η σ) (facing : p.Facing e)
      (shortcut : target.bind (p.shortcut? e) = some (call, c, endPosition, ending, callEnd))
      (restore : Session.restore c p.session = .ok () session) :
      Moves target p (p.beyond e call endPosition ending session)

/-- **Executing events, a playback goes on keeping what there is to keep.** -/
theorem Accounting.moves (h : Accounting log settings p)
    (direct : ∀ e, p.Facing e → target.bind (p.shortcut? e) = none) (moves : Moves target p q)
    (sound : q.phase ≠ .faulted) : Accounting log settings q := by
  cases moves with
  | stays => exact h
  | faults _ faulted => exact absurd faulted sound
  | passes e _ _ _ _ _ _ facing shortcut => exact absurd shortcut (by simp [direct e facing])
  | executes e session facing step same _ opens =>
    obtain ⟨settings', stack, last, position, isLog, -⟩ := withCheckpoint_frame (p.past e session) e
    have next : log.get? p.position = some e := h.isLog ▸ facing.next
    have later := h.later facing
    have events : log.before ((p.past e session).withCheckpoint e).atRest.position =
        log.before p.position ++ [e] := by
      rw [← Log.before_succ next]
      exact congrArg log.before position
    have behind : ((p.past e session).withCheckpoint e).atRest.last = some e.time := last
    have calls : ((p.past e session).withCheckpoint e).atRest.session.stack = session.stack := stack
    refine ⟨isLog.trans h.isLog, settings'.trans (same.trans h.under), rfl, ?_, ?_, ?_, ?_⟩
    · rw [events, calls]
      exact h.accounts.step later step fun call action => (opens call action).2
    · rw [events, behind]
      intro f hf
      refine ⟨e.time, rfl, ?_⟩
      rcases List.mem_append.1 hf with old | new
      · exact Time.le_of_lt (later f old)
      · exact List.mem_singleton.1 new ▸ Time.le_refl _
    · rw [calls]
      cases step with
      | inner _ _ left => exact left ▸ h.room
      | begins call _ action =>
        obtain ⟨less, frame, -, frames⟩ := opens call action
        rw [CallStack.depth, frames]
        exact h.under ▸ less
      | finishes _ frame frames _ top _ _ _ left =>
        have room := h.room
        rw [CallStack.depth, top, List.length_cons] at room
        rw [left]
        exact Nat.le_of_succ_le room
    · -- the checker finds nothing at the event, and keeps the same calls
      have clean : Nesting.step ⟨p.last, p.session.stack.frames.map Frame.begun⟩ e =
          ([], ⟨some e.time, session.stack.frames.map Frame.begun⟩) := by
        rw [Nesting.step, step.callProblems rfl h.accounts.numbered,
          Nesting.timeProblems_eq_nil facing.ordered]
        rfl
      have left : ((p.past e session).withCheckpoint e).atRest.rest =
          p.log.events.toList.drop (p.position + 1) := by
        rw [rest]
        exact congrArg₂ (fun log n => log.events.toList.drop n) isLog position
      rw [h.problems, rest_of_next facing.next, Nesting.problems, clean, behind, calls, left]
      rfl

/-- The checkpoints that a playback takes itself are of no use to it. -/
theorem Unaided.moves (h : p.Unaided) (moves : Moves target p q) (sound : q.phase ≠ .faulted) :
    q.Unaided := by
  cases moves with
  | stays => exact h
  | faults _ faulted => exact absurd faulted sound
  | passes e _ _ _ _ _ _ facing shortcut => exact absurd shortcut (by simp [h.direct facing])
  | executes e session facing step same checkpoints _ =>
    rcases h with plain | behind
    · obtain ⟨settings, -⟩ := withCheckpoint_frame (p.past e session) e
      refine Or.inl ?_
      show ((p.past e session).withCheckpoint e).session.settings.fastForward = false
      rw [settings]
      exact same ▸ plain
    -- those that are known already stay behind, and a new one is of a call that has just ended
    have still (i : Nat) (c : Checkpoint η σ)
        (known : (p.past e session).session.notes.checkpoints.get? i = some c) :
        ∃ f last, p.log.get? i = some f ∧ some e.time = some last ∧ f.time ≤ last := by
      obtain ⟨f, last, there, isLast, le⟩ := behind i c (checkpoints ▸ known)
      have le := Time.le_iff.1 le
      have after := Time.lt_iff.1 (facing.ordered last isLast)
      exact ⟨f, e.time, there, rfl, Time.le_iff.2 (by omega)⟩
    refine Or.inr ?_
    show ∀ i c, ((p.past e session).withCheckpoint e).session.notes.checkpoints.get? i = some c →
      ∃ f last, ((p.past e session).withCheckpoint e).log.get? i = some f ∧
        ((p.past e session).withCheckpoint e).last = some last ∧ f.time ≤ last
    intro i c known
    rcases withCheckpoint_cases (p.past e session) e with
      unchanged | ⟨call, taken, position, begin_, isEnd, -, -, begun, noted⟩
    · rw [unchanged] at known ⊢
      exact still i c known
    rw [noted] at known ⊢
    rcases Notes.get?_once known with old | ⟨rfl, -⟩
    · exact still i c old
    obtain ⟨f, there, named, -⟩ := callBegin?_spec begun
    have action := Event.callEnd?_eq_some.1 isEnd
    refine ⟨f, e.time, there, rfl, ?_⟩
    cases step with
    | inner _ other => exact absurd isEnd (by simp [other])
    | begins _ _ other => exact absurd (action.symm.trans other) (by simp)
    | finishes call' _ _ action' _ _ later =>
      obtain rfl := Action.callEnd.inj (action.symm.trans action')
      exact named ▸ Time.le_of_lt later

variable [DecidableEq η]

/-- A call that begins is opened as it was recorded, and only if there is room for it. -/
theorem execute_opens {position : Nat} {e : Event} {s s' : Session ρ η σ} {call : CallBegin}
    (run : Session.execute position e s = .ok () s') (action : e.action = .callBegin call) :
    s.stack.depth < s.settings.maxDepth ∧
      ∃ frame : Frame η, frame.BegunBy e ∧ s'.stack.frames = frame :: s.stack.frames := by
  have entered := Session.enter_inner e.time e.context s
  have executed := Session.execute_executed position e s
  rw [run] at executed
  rw [Session.execute_run] at run
  cases hen : Session.enter e.time e.context s with
  | error err t => rw [hen] at run; exact absurd run (by simp)
  | ok u t =>
    rw [hen] at run entered
    dsimp only at run
    rw [Session.act_callBegin action, Session.beginCall_run, entered.stack, entered.settings] at run
    split at run
    · exact absurd run (by simp)
    split at run
    · exact absurd run (by simp)
    rename_i room
    refine ⟨Nat.lt_of_not_le room, ?_⟩
    split at run
    · exact absurd run (by simp)
    rename_i callee args _
    obtain ⟨-, rfl⟩ := EStateM.Result.ok.inj run
    -- what the call was opened on is what was open, since a root call is opened on nothing
    cases executed with
    | done _ step =>
      cases step with
      | inner other => exact absurd (Event.callBegin?_eq_some.2 action) (by simp [other])
      | begins _ frame _ _ _ _ frames =>
        obtain ⟨rfl, around⟩ := List.cons.inj frames
        exact ⟨_, ⟨rfl, call, action, rfl, rfl, rfl⟩, frames⟩
      | finishes _ _ _ other => exact absurd (action.symm.trans other) (by simp)

theorem advance_moves (target : Option Time) (p : Playback ρ η σ) :
    Ends (Moves target p) (fun _ => Moves target p) (Playback.advance target p) := by
  have advanced := advance_advanced target p
  generalize Playback.advance target p = r at advanced
  cases advanced with
  | refused | aborted | finished => exact .stays
  | truncated | outOfOrder | unrestored | failed => exact .faults _ rfl
  | passed _ e facing call c endPosition ending callEnd shortcut session restore =>
    exact .passes e call c endPosition ending callEnd session facing shortcut restore
  | passedRaising _ e facing call c endPosition ending callEnd shortcut session restore =>
    exact .passes e call c endPosition ending callEnd session facing shortcut restore
  | played _ e facing _ session run =>
    have executed := Session.execute_executed p.position e p.session
    rw [run] at executed
    cases executed with
    | done _ step settings checkpoints _ =>
      exact .executes e session facing step settings checkpoints fun call action =>
        execute_opens run action
  | playedRaising _ e facing _ session root ended terminating run =>
    have executed := Session.execute_executed p.position e p.session
    rw [run] at executed
    cases executed with
    | uncaught _ call action step settings checkpoints _ _ =>
      exact .executes e session facing step settings checkpoints fun _ other =>
        absurd (action.symm.trans other) (by simp)
    | failed _ _ operational => exact operational.elim

/-! ## Driving -/

/-- Something holds of a playback, unless it has faulted. -/
def WhileSound (I : Playback ρ η σ → Prop) (p : Playback ρ η σ) : Prop :=
  p.phase ≠ .faulted → I p

theorem WhileSound.advance {I : Playback ρ η σ → Prop} (h : WhileSound I p)
    (moves : ∀ q, I p → Moves target p q → WhileSound I q) :
    Ends (WhileSound I) (fun _ => WhileSound I) (Playback.advance target p) := by
  by_cases faulted : p.phase = .faulted
  · rw [advance_faulted faulted]
    exact h
  · have moved := advance_moves target p
    cases hp : Playback.advance target p with
    | ok made q => rw [hp] at moved; exact moves q (h faulted) moved
    | error err q => rw [hp] at moved; exact moves q (h faulted) moved

/-- What comes of every advance holds however a playback is driven, unless it faults. -/
theorem WhileSound.driven {I : Playback ρ η σ → Prop} (h : WhileSound I p)
    (moves : ∀ target p q, I p → Moves target p q → WhileSound I q)
    (toggles : ∀ p stopped, I p → I { p with stopped }) (demands : List Demand) :
    WhileSound I (drive demands p).2 := by
  induction demands generalizing p with
  | nil => exact h
  | cons demand demands ih =>
    have served : Ends (WhileSound I) (fun _ => WhileSound I) (serve demand p) :=
      serve_ends (fun target q known => WhileSound.advance known (moves target q)) demand
        (fun stopped _ sound => toggles p stopped (h sound)) h
    cases hs : serve demand p with
    | ok step q => rw [hs] at served; rw [drive, hs]; exact ih served
    | error err q => rw [hs] at served; rw [drive, hs]; exact ih served

/-- Asked for single steps only, a playback passes no call by. -/
theorem Accounting.stepped {demands : List Demand}
    (single : ∀ demand ∈ demands, demand.passesBy = false)
    (h : WhileSound (Accounting log settings) p) :
    WhileSound (Accounting log settings) (drive demands p).2 := by
  induction demands generalizing p with
  | nil => exact h
  | cons demand demands ih =>
    have rest : ∀ demand ∈ demands, demand.passesBy = false := fun demand mem =>
      single demand (List.mem_cons_of_mem _ mem)
    refine ih rest ?_
    cases demand with
    | step =>
      have stepped : Ends (WhileSound (Accounting log settings))
          (fun _ => WhileSound (Accounting log settings)) (Playback.advance none p) :=
        h.advance fun q h => h.moves fun _ _ => rfl
      change Ends _ _ (serve .step p) at stepped
      cases hs : serve .step p with
      | ok step q => rw [hs] at stepped; exact stepped
      | error err q => rw [hs] at stepped; exact stepped
    | stop => exact fun sound => { h sound with }
    | goOn => exact fun sound => { h sound with }
    | stepToward | run | runUntil =>
      exact absurd (single _ List.mem_cons_self) (by simp [Demand.passesBy])

/-- However it is driven, a playback that knows of no checkpoint ahead passes no call by. -/
theorem Accounting.driven (h : Accounting log settings p) (unaided : p.Unaided)
    (demands : List Demand) :
    WhileSound (fun q => Accounting log settings q ∧ q.Unaided) (drive demands p).2 := by
  refine WhileSound.driven (I := fun q => Accounting log settings q ∧ q.Unaided)
    (fun _ => ⟨h, unaided⟩)
    (fun target p q both moves sound => ⟨?_, both.2.moves moves sound⟩)
    (fun p stopped both => ⟨{ both.1 with }, both.2⟩) demands
  exact both.1.moves (fun e facing => both.2.direct facing) moves sound

/-- **The calls that a replay keeps are those of the events that it has executed.** Take any log,
    however malformed, and a playback of it from a new session that passes no call by, because it
    is set not to, because no checkpoint is known at the start, or because it is only asked for
    single steps. However it is driven, stopped and made to go on after exceptions, as long as it
    has not faulted it knows the calls of the events behind it: which are open and how deep, which
    are over and when they ended. -/
theorem knows_calls (log : Log) (engine : ρ) (settings : Settings) (notes : Notes η σ)
    (demands : List Demand)
    (unaided : settings.fastForward = false ∨ notes.checkpoints = .empty ∨
      ∀ demand ∈ demands, demand.passesBy = false)
    (sound : (drive demands (start log (Session.start engine settings notes))).2.phase ≠ .faulted) :
    KnowsCalls log settings.maxDepth
      (drive demands (start log (Session.start engine settings notes))).2 := by
  have first : Accounting log settings (start log (Session.start engine settings notes)) :=
    .start log engine settings notes
  rcases unaided with plain | unknown | single
  · exact (first.driven (.start log engine (Or.inl plain)) demands sound).1.knowsCalls
  · exact (first.driven (.start log engine (Or.inr unknown)) demands sound).1.knowsCalls
  · exact (Accounting.stepped single (fun _ => first) sound).knowsCalls

/-- A log of two root calls. The first one ends in an exception; behind a call within the second one
    the log does not go on in order. -/
def interruptedCall : Log :=
  ⟨#[⟨⟨1⟩, ⟨0⟩, .allocateFunction none⟩,
    ⟨⟨2⟩, ⟨0⟩, .callBegin ⟨0, .none, ⟨1⟩, ⟨0⟩, none, []⟩⟩,
    ⟨⟨3⟩, ⟨0⟩, .callEnd ⟨⟨2⟩, 0, true, false, ⟨0⟩⟩⟩,
    ⟨⟨4⟩, ⟨0⟩, .callBegin ⟨0, .none, ⟨1⟩, ⟨0⟩, none, []⟩⟩,
    ⟨⟨5⟩, ⟨0⟩, .callBegin ⟨1, .none, ⟨1⟩, ⟨0⟩, none, []⟩⟩,
    ⟨⟨6⟩, ⟨0⟩, .callEnd ⟨⟨5⟩, 1, false, false, ⟨0⟩⟩⟩,
    ⟨⟨6⟩, ⟨0⟩, .getAndClearException⟩]⟩

/-- Right before it would fault, a playback that went on after the exception knows the calls: the
    second root call is open, the call within it is over. -/
theorem interruptedCall_known :
    let p := (drive [.run, .step, .step, .step]
      (start interruptedCall (Session.start (.fresh none : Sandbox) {} .empty))).2
    KnowsCalls interruptedCall 256 p ∧ p.session.stack.frames.map Frame.begun = [⟨4⟩] ∧
      p.session.stack.matchingEnd? ⟨5⟩ = some ⟨6⟩ ∧
      (serve .step p matches .error (.outOfOrder ..) _) :=
  ⟨knows_calls interruptedCall (.fresh none : Sandbox) {} .empty [.run, .step, .step, .step]
    (Or.inr (Or.inl rfl)) (by decide +kernel), by decide +kernel, by decide +kernel,
    by decide +kernel⟩

end Replay
end Playback
end Retrace
