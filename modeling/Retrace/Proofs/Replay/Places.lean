import Retrace.Proofs.Replay.OpenCalls

/-!
# Where callback operations were

When an operation on a callback is replayed, its place is noted: its time, and the root call. The
root call is the *last one that began* (`lastRoot?`). While any call is open this is the root call
that is running, since the outermost of the open calls is always the last root call. But the stack
does not forget it when it ends. Between root calls, where none is running, an operation is placed
in the one that was there before; only ahead of all root calls is it placed in none.

A place is noted once. A playback that takes over the notes of an earlier one leaves them as they
are, and there is but one reason why none is noted: the context of the operation could not be
entered, and the replay ended there (`Placed`).
-/

namespace Retrace

/-! ## The last root call -/

/-- A root call begins. -/
def Event.isRoot (e : Event) : Bool := e.callBegin?.any fun call => call.depth = 0

/-- When the last of the root calls among some events began. -/
def lastRoot? (events : List Event) : Option Time :=
  (events.filter Event.isRoot).getLast?.map Event.time

/-- Where an operation behind some events is. -/
structure CallbackPlace.Behind (place : CallbackPlace) (events : List Event) (time : Time) : Prop where
  time : place.time = time
  root : place.root = lastRoot? events
  /-- A root call that is open is the one. -/
  within : ∀ b ∈ unended events, b.isRoot = true → place.root = some b.time
  /-- If any call is open, a root call is. -/
  rooted : unended events ≠ [] → ∃ b ∈ unended events, b.isRoot = true
  /-- There is no root call only if none began, whether or not one is open. -/
  outside : place.root = none ↔ ∀ b ∈ events, b.isRoot = false

section Roots

variable {events : List Event} {e b : Event}

theorem lastRoot?_append :
    lastRoot? (events ++ [e]) = if e.isRoot then some e.time else lastRoot? events := by
  unfold lastRoot?
  rw [List.filter_append]
  by_cases root : e.isRoot = true
  · simp [root]
  · simp [root]

theorem lastRoot?_eq_none : lastRoot? events = none ↔ ∀ b ∈ events, b.isRoot = false := by
  simp [lastRoot?]

variable {η : Type} {k k' : CallStack η}

/-- The stack's root call is the last one that began. -/
theorem CallStep.root (step : CallStep e k k') :
    k'.root = if e.isRoot then some e.time else k.root := by
  cases step with
  | inner noBegin _ same => simp [Event.isRoot, noBegin, same]
  | begins call _ action _ _ _ _ _ root =>
    rw [root, Event.isRoot, Event.callBegin?_eq_some.2 action]
    simp
  | finishes call _ _ action _ _ _ _ left =>
    have noBegin : e.callBegin? = none := by simp [Event.callBegin?, action]
    simp [Event.isRoot, noBegin, left]

theorem begun_isRoot {frames : List (Frame η)} {begins : List Event}
    (h : List.Forall₂ Frame.BegunBy frames begins) :
    begins.map Event.isRoot = (frames.map fun frame => frame.depth.toNat).map (· == 0) := by
  induction h with
  | nil => rfl
  | @cons frame b _ _ first _ ih =>
    have isRoot : b.isRoot = (frame.depth.toNat == 0) := by
      obtain ⟨call, action, depth, -⟩ := first.recorded
      rw [Event.isRoot, Event.callBegin?_eq_some.2 action, Option.any_some, depth]
      exact decide_eq_decide.2 UInt32.toNat_inj.symm
    rw [List.map_cons, List.map_cons, List.map_cons, isRoot, ih]

/-- Of the open calls the outermost is a root call, the last one, and no other is. -/
theorem CallStack.Accounts.outermost (accounts : k.Accounts events) {first : Event}
    {rest : List Event} (opened : unended events = first :: rest) :
    k.root = some first.time ∧ first.isRoot = true ∧ ∀ b ∈ rest, b.isRoot = false := by
  have frames := accounts.opened
  rw [← List.reverse_reverse k.frames, List.forall₂_reverse_iff, opened] at frames
  have roots := begun_isRoot frames
  have size : k.frames.length = rest.length + 1 := by
    rw [← List.length_reverse, frames.length_eq, List.length_cons]
  rw [accounts.numbered.depths, size, List.range_succ_eq_map] at roots
  obtain ⟨isRoot, others⟩ := List.cons.inj roots
  refine ⟨?_, isRoot, fun b mem => ?_⟩
  · obtain ⟨outer, inner, begun, -, split⟩ := List.forall₂_cons_right_iff.1 frames
    have isOuter : k.outermost? = some outer := by
      rw [CallStack.outermost?, ← List.head?_reverse, split, List.head?_cons]
    rw [accounts.root outer isOuter, begun.begun]
  · have among : b.isRoot ∈ rest.map Event.isRoot := List.mem_map_of_mem mem
    rw [others] at among
    obtain ⟨depth, deep, same⟩ := List.mem_map.1 among
    obtain ⟨n, -, rfl⟩ := List.mem_map.1 deep
    exact same.symm

theorem CallStack.Accounts.place (accounts : k.Accounts events) (last : k.root = lastRoot? events)
    (time : Time) (statement : Option Statement) :
    CallbackPlace.Behind ⟨k.root, time, statement⟩ events time := by
  refine ⟨rfl, last, fun b mem root => ?_, fun some_ => ?_, last ▸ lastRoot?_eq_none⟩
  · obtain ⟨first, rest, opened⟩ := List.exists_cons_of_ne_nil (List.ne_nil_of_mem mem)
    obtain ⟨isFirst, -, others⟩ := accounts.outermost opened
    rcases List.mem_cons.1 (opened ▸ mem) with rfl | other
    · exact isFirst
    · exact absurd root (by simp [others b other])
  · obtain ⟨first, rest, opened⟩ := List.exists_cons_of_ne_nil some_
    exact ⟨first, opened ▸ List.mem_cons_self, (accounts.outermost opened).2.1⟩

end Roots

/-! ## What an event does to the places -/

namespace Session

variable {ρ η σ : Type}

/-- An event was replayed: its place is known now if it is an operation on a callback, the others
    are as they were. -/
structure Noted (position : Nat) (e : Event) (s t : Session ρ η σ) : Prop where
  elsewhere : ∀ i, i ≠ position → t.notes.places.get? i = s.notes.places.get? i
  here : ∀ op, e.action = .callbackOp op → ∃ statement, t.notes.places.get? position =
    some ((s.notes.places.get? position).getD ⟨s.stack.root, e.time, statement⟩)

/-- What replaying an event does to the places that are noted, and when it notes none. -/
inductive Noting (position : Nat) (e : Event) (s : Session ρ η σ) :
    EStateM.Result ReplayError (Session ρ η σ) Unit → Prop
  | done (t : Session ρ η σ) (noted : Noted position e s t) : Noting position e s (.ok () t)
  | unentered (t : Session ρ η σ) (fault : Fault) (same : t.notes.places = s.notes.places) :
      Noting position e s (.error (.unknownContext e.time e.context fault) t)
  | failed (t : Session ρ η σ) (err : ReplayError) (other : ∀ op, e.action ≠ .callbackOp op)
      (same : t.notes.places = s.notes.places) : Noting position e s (.error err t)

theorem Noted.of_same {position : Nat} {e : Event} {s t : Session ρ η σ}
    (same : t.notes.places = s.notes.places) (other : ∀ op, e.action ≠ .callbackOp op) :
    Noted position e s t :=
  ⟨fun _ _ => by rw [same], fun op action => absurd action (other op)⟩

theorem Noting.from {position : Nat} {e : Event} {s t : Session ρ η σ}
    {r : EStateM.Result ReplayError (Session ρ η σ) Unit} (noting : Noting position e t r)
    (root : t.stack.root = s.stack.root) (same : t.notes.places = s.notes.places) :
    Noting position e s r := by
  cases noting with
  | done u noted =>
    obtain ⟨elsewhere, here⟩ := noted
    rw [root, same] at here
    rw [same] at elsewhere
    exact .done u ⟨elsewhere, here⟩
  | unentered u fault kept => exact .unentered u fault (kept.trans same)
  | failed u err other kept => exact .failed u err other (kept.trans same)

/-- A run leaves the places alone. -/
def KeepsPlaces (s : Session ρ η σ) : EStateM.Result ReplayError (Session ρ η σ) Unit → Prop
  | .ok () t | .error _ t => t.notes.places = s.notes.places

theorem KeepsPlaces.noting {position : Nat} {e : Event} {s : Session ρ η σ}
    {r : EStateM.Result ReplayError (Session ρ η σ) Unit} (keeps : KeepsPlaces s r)
    (other : ∀ op, e.action ≠ .callbackOp op) : Noting position e s r := by
  cases r with
  | ok u t => exact .done t (.of_same keeps other)
  | error err t => exact .failed t err other keeps

theorem beginCall_keepsPlaces (time : Time) (call : CallBegin) (s : Session ρ η σ) :
    KeepsPlaces s (beginCall time call s) := by
  have rooted : (s.rooted time call).notes.places = s.notes.places :=
    congrArg Notes.places (rooted_settings time call s).2
  rw [beginCall_run]
  split
  · rfl
  split
  · rfl
  cases s.tags.callOf call.function call.args <;> exact rooted

variable [DecidableEq η]

variable [Engine ρ η σ]

theorem called_places (position : Nat) (call : CallEnd) (frame : Frame η) (s : Session ρ η σ) :
    (s.called position call frame).notes.places = s.notes.places := by
  have noted (t : Session ρ η σ) : (t.noted position call).notes.places = t.notes.places := by
    unfold Session.noted
    split
    · split <;> rfl
    · rfl
  rw [called, noted, (settled_onlyOperated _ _).notes]

theorem endCall_keepsPlaces (position : Nat) (time : Time) (call : CallEnd) (s : Session ρ η σ) :
    KeepsPlaces s (endCall position time call s) := by
  rw [endCall_run, popCall_run]
  cases s.stack.frames with
  | nil => rfl
  | cons frame frames =>
    dsimp only
    by_cases other : frame.begun ≠ call.begun ∨ time ≤ call.begun
    · rw [if_pos other]
      rfl
    by_cases depth : frame.depth ≠ call.depth
    · rw [if_neg other, if_pos depth]
      rfl
    rw [if_neg other, if_neg depth]
    dsimp only
    split
    · exact called_places position call frame _
    split <;> exact called_places position call frame _

theorem act_keepsPlaces {position : Nat} {e : Event} (other : ∀ op, e.action ≠ .callbackOp op)
    (s : Session ρ η σ) : KeepsPlaces s (act position e s) := by
  cases begins : e.callBegin? with
  | some call =>
    rw [act_callBegin (Event.callBegin?_eq_some.1 begins)]
    exact beginCall_keepsPlaces e.time call s
  | none =>
    cases ends : e.callEnd? with
    | some call =>
      rw [act_callEnd (Event.callEnd?_eq_some.1 ends)]
      exact endCall_keepsPlaces position e.time call s
    | none =>
      have operated : Operated s (act position e s) := act_operated begins ends other s
      cases ran : act position e s with
      | ok u t => rw [ran] at operated; exact congrArg Notes.places operated.notes
      | error err t => rw [ran] at operated; exact congrArg Notes.places operated.1.notes

theorem act_noting (position : Nat) (e : Event) (s : Session ρ η σ) :
    Noting position e s (act position e s) := by
  by_cases operation : ∃ op, e.action = .callbackOp op
  · obtain ⟨op, action⟩ := operation
    rw [act_callbackOp action, applyCallback_run]
    refine .done _ ⟨fun i apart => ?_, fun op _ => ⟨Engine.lastStatement? s.engine, ?_⟩⟩
    · exact (Notes.once_get? _ _ _ _).trans (if_neg apart)
    · exact (Notes.once_get? _ _ _ _).trans (if_pos rfl)
  · have other : ∀ op, e.action ≠ .callbackOp op := fun op action => operation ⟨op, action⟩
    exact (act_keepsPlaces other s).noting other

theorem execute_noting (position : Nat) (e : Event) (s : Session ρ η σ) :
    Noting position e s (execute position e s) := by
  rw [execute_run, enter_run]
  by_cases here : s.context = some e.context
  · rw [if_pos here]
    exact act_noting position e s
  rw [if_neg here]
  cases Engine.enter e.context s.engine with
  | ok u engine =>
    exact (act_noting position e { s with engine, context := some e.context }).from rfl rfl
  | error fault engine => exact .unentered _ fault rfl

end Session

/-! ## Places in a replay -/

namespace Playback

variable {ρ η σ : Type}

/-- What a playback tells of an operation that it has come past, if these places were known at its
    start and it has reported these errors. -/
inductive Placed (log : Log) (known : OrderedMap Nat CallbackPlace) (errs : List ReplayError)
    (p : Playback ρ η σ) (i : Nat) (e : Event) : Prop
  | before (place : CallbackPlace) (earlier : known.get? i = some place)
      (there : p.session.notes.places.get? i = some place)
  | first (place : CallbackPlace) (new : known.get? i = none)
      (there : p.session.notes.places.get? i = some place)
      (behind : place.Behind (log.before i) e.time)
  | unentered (fault : Fault) (faulted : p.phase = .faulted) (last : p.position = i + 1)
      (reported : .unknownContext e.time e.context fault ∈ errs)

/-- A playback that faulted stays so, and the places stay noted. -/
theorem Placed.kept {log : Log} {known : OrderedMap Nat CallbackPlace} {errs errs' : List ReplayError}
    {p q : Playback ρ η σ} {i : Nat} {e : Event} (placed : Placed log known errs p i e)
    (more : errs ⊆ errs')
    (same : q.session.notes.places.get? i = p.session.notes.places.get? i)
    (stands : p.phase = .faulted → q.phase = .faulted ∧ q.position = p.position) :
    Placed log known errs' q i e := by
  cases placed with
  | before place earlier there => exact .before place earlier (same.trans there)
  | first place new there behind => exact .first place new (same.trans there) behind
  | unentered fault faulted last reported =>
    obtain ⟨still, position⟩ := stands faulted
    exact .unentered fault still (position.trans last) (more reported)

/-- A playback that passes no call by, and what it notes about places. -/
structure Placing (log : Log) (settings : Settings) (known : OrderedMap Nat CallbackPlace)
    [Engine ρ η σ] (errs : List ReplayError) (p : Playback ρ η σ) : Prop where
  accounting : p.phase ≠ .faulted → Accounting log settings p
  unaided : p.phase ≠ .faulted → p.Unaided
  root : p.phase ≠ .faulted → p.session.stack.root = lastRoot? (log.before p.position)
  ahead : p.phase ≠ .faulted → ∀ i, p.position ≤ i →
    p.session.notes.places.get? i = known.get? i
  placed : ∀ i e op, i < p.position → log.get? i = some e → e.action = .callbackOp op →
    Placed log known errs p i e

section Placing

variable {log : Log} {settings : Settings} {known : OrderedMap Nat CallbackPlace}
variable {errs errs' : List ReplayError} {p : Playback ρ η σ} [Engine ρ η σ]

theorem Placing.start {engine : ρ} {notes : Notes η σ}
    (unaided : (start log (Session.start engine settings notes)).Unaided) :
    Placing log settings notes.places [] (start log (Session.start engine settings notes)) where
  accounting _ := .start log engine settings notes
  unaided _ := unaided
  root _ := rfl
  ahead _ _ _ := rfl
  placed i _ _ behind := absurd behind (Nat.not_lt_zero i)

theorem withCheckpoint_places (p : Playback ρ η σ) (e : Event) :
    (p.withCheckpoint e).session.notes.places = p.session.notes.places := by
  rcases withCheckpoint_cases p e with same | ⟨_, _, _, _, _, _, _, _, noted⟩
  · rw [same]
  · rw [noted]
    rfl

/-- An error that is reported at once changes nothing but that the playback may have faulted. -/
theorem Placing.reports (h : Placing log settings known errs p) (err : ReplayError) :
    Placing log settings known (errs ++ [err]) p where
  accounting := h.accounting
  unaided := h.unaided
  root := h.root
  ahead := h.ahead
  placed i e op behind there action :=
    (h.placed i e op behind there action).kept (List.subset_append_left _ _) rfl
      fun faulted => ⟨faulted, rfl⟩

theorem Placing.faults (h : Placing log settings known errs p) (err : ReplayError) :
    Placing log settings known (errs ++ [err]) { p with phase := .faulted } where
  accounting sound := absurd rfl sound
  unaided sound := absurd rfl sound
  root sound := absurd rfl sound
  ahead sound := absurd rfl sound
  placed i e op behind there action :=
    (h.placed i e op behind there action).kept (List.subset_append_left _ _) rfl
      fun _ => ⟨rfl, rfl⟩

/-- **An operation that is executed gets the place that the events before it give it**, and those
    before it keep theirs. -/
theorem Placing.executed (h : Placing log settings known errs p) (sound : p.phase ≠ .faulted)
    (more : errs ⊆ errs') {e : Event} (facing : p.Facing e) {session : Session ρ η σ}
    (noted : Session.Noted p.position e p.session session)
    (step : CallStep e p.session.stack session.stack) {target : Option Time}
    (moves : Moves target p ((p.past e session).withCheckpoint e).atRest) :
    Placing log settings known errs' ((p.past e session).withCheckpoint e).atRest := by
  have accounting := h.accounting sound
  have unaided := h.unaided sound
  have ahead := h.ahead sound
  obtain ⟨-, position, -, still, -, noticed⟩ := behind_rested p e session
  have places : ((p.past e session).withCheckpoint e).atRest.session.notes.places =
      session.notes.places := withCheckpoint_places (p.past e session) e
  generalize ((p.past e session).withCheckpoint e).atRest = q at moves position still noticed places
  have next : log.get? p.position = some e := accounting.isLog ▸ facing.next
  refine ⟨fun _ => accounting.moves (fun _ => unaided.direct) moves still,
    fun _ => unaided.moves moves still, fun _ => ?_, fun _ i beyond => ?_,
    fun i f op behind there action => ?_⟩
  · obtain ⟨notes, same⟩ := noticed
    rw [position, Log.before_succ next, lastRoot?_append, ← h.root sound, ← step.root, same]
  · rw [position] at beyond
    rw [places, noted.elsewhere i (Nat.ne_of_gt beyond)]
    exact ahead i (Nat.le_of_succ_le beyond)
  · rw [position] at behind
    -- the operation lies before the event, or it is the event
    rcases Nat.lt_succ_iff_lt_or_eq.1 behind with before | rfl
    · refine (h.placed i f op before there action).kept more ?_ fun faulted => absurd faulted sound
      rw [places, noted.elsewhere i (Nat.ne_of_lt before)]
    · obtain rfl := Option.some.inj (next.symm.trans there)
      obtain ⟨statement, here⟩ := noted.here op action
      rw [← places, ahead _ (Nat.le_refl _)] at here
      -- a place that was known before the playback began is kept as it was
      cases earlier : known.get? p.position with
      | some place =>
        rw [earlier, Option.getD_some] at here
        exact .before place earlier here
      | none =>
        rw [earlier, Option.getD_none] at here
        exact .first _ earlier here
          (accounting.accounts.place (h.root sound) e.time statement)

/-- An event that ends the replay takes no place away. An operation that has none then is this
    event, and its context could not be entered. -/
theorem Placing.failed (h : Placing log settings known errs p) (sound : p.phase ≠ .faulted)
    {e : Event} (facing : p.Facing e) {session : Session ρ η σ} {err : ReplayError}
    (noting : Session.Noting p.position e p.session (.error err session)) :
    Placing log settings known (errs ++ [err]) { p.past e session with phase := .faulted } where
  accounting sound := absurd rfl sound
  unaided sound := absurd rfl sound
  root sound := absurd rfl sound
  ahead sound := absurd rfl sound
  placed i f op behind there action := by
    have same : session.notes.places = p.session.notes.places := by
      cases noting with
      | unentered _ _ same => exact same
      | failed _ _ _ same => exact same
    rcases Nat.lt_succ_iff_lt_or_eq.1 behind with before | rfl
    · exact (h.placed i f op before there action).kept (List.subset_append_left _ _)
        (congrArg (OrderedMap.get? · i) same) fun faulted => absurd faulted sound
    · have next : log.get? p.position = some e := (h.accounting sound).isLog ▸ facing.next
      obtain rfl := Option.some.inj (next.symm.trans there)
      cases noting with
      | unentered _ fault => exact .unentered fault rfl rfl (by simp)
      | failed _ _ other => exact absurd action (other op)

variable [DecidableEq η]

theorem Placing.advance (target : Option Time) (errs : List ReplayError) (p : Playback ρ η σ)
    (h : Placing log settings known errs p) :
    Holds (Placing log settings known) errs (Playback.advance target p) := by
  have advanced := advance_advanced target p
  have moves := advance_moves target p
  generalize Playback.advance target p = r at advanced moves
  cases advanced with
  | refused | aborted => exact h.reports _
  | finished => exact h
  | truncated | outOfOrder => exact h.faults _
  | unrestored ready _ facing _ _ _ _ _ shortcut | passed ready _ facing _ _ _ _ _ shortcut
  | passedRaising ready _ facing _ _ _ _ _ shortcut =>
    exact absurd shortcut (by simp [(h.unaided ready.sound).direct facing])
  | played ready e facing _ session run =>
    have executed := Session.execute_executed p.position e p.session
    have noting := Session.execute_noting p.position e p.session
    rw [run] at executed noting
    cases executed with
    | done _ step =>
      cases noting with
      | done _ noted => exact h.executed ready.sound (List.Subset.refl _) facing noted step moves
  | playedRaising ready e facing _ session root ended terminating run =>
    have executed := Session.execute_executed p.position e p.session
    have noting := Session.execute_noting p.position e p.session
    rw [run] at executed noting
    cases executed with
    | uncaught _ call _ step =>
      cases noting with
      | failed _ _ other same =>
        exact h.executed ready.sound (List.subset_append_left _ _) facing (.of_same same other) step
          moves
    | failed _ _ operational => exact operational.elim
  | failed ready e facing _ session err run =>
    have noting := Session.execute_noting p.position e p.session
    rw [run] at noting
    exact h.failed ready.sound facing noting

end Placing

variable [Engine ρ η σ] [DecidableEq η]

/-- **An operation is placed in the last root call that began.** Take any log and a playback of it
    that passes no call by. However it is driven, of every operation on a callback that it has come
    past the place is noted, unless the replay ended there because the context could not be entered.
    Where an earlier playback had noted the place, it is this one. Otherwise it has the operation's
    time. It has the root call that is open then, if one is. If no call is open it still has a root
    call, the last one, unless none has begun at all. -/
theorem places_name_last_root (log : Log) (engine : ρ) (settings : Settings) (notes : Notes η σ)
    (demands : List Demand)
    (plain : settings.fastForward = false ∨ notes.checkpoints = .empty) (i : Nat) (e : Event)
    (op : CallbackOp) (there : log.get? i = some e) (action : e.action = .callbackOp op)
    (past : i < (drive demands (start log (Session.start engine settings notes))).2.position) :
    Placed log notes.places
      (errorsOf (drive demands (start log (Session.start engine settings notes))).1)
      (drive demands (start log (Session.start engine settings notes))).2 i e := by
  have placing := drive_induction (fun target errs p (h : Placing log settings notes.places errs p) =>
    h.advance target errs p) demands (fun stopped errs p _ h =>
      { h with
        accounting := fun sound => { h.accounting sound with }
        placed := fun i e op past there action =>
          (h.placed i e op past there action).kept (List.Subset.refl _) rfl fun faulted =>
            ⟨faulted, rfl⟩ })
    (Placing.start (.start log engine plain))
  exact placing.placed i e op past there action

/-- Callbacks are scheduled ahead of a root call, and in a call within it. -/
def operationsInCalls : Log :=
  ⟨#[⟨⟨1⟩, ⟨0⟩, .allocateFunction none⟩,
    ⟨⟨2⟩, ⟨0⟩, .callbackOp ⟨false, false, .none, ⟨1⟩, ⟨7⟩⟩⟩,
    ⟨⟨3⟩, ⟨0⟩, .callBegin ⟨0, .none, ⟨1⟩, ⟨0⟩, none, []⟩⟩,
    ⟨⟨4⟩, ⟨0⟩, .callBegin ⟨1, .none, ⟨1⟩, ⟨0⟩, none, []⟩⟩,
    ⟨⟨5⟩, ⟨0⟩, .callbackOp ⟨false, false, .none, ⟨1⟩, ⟨8⟩⟩⟩]⟩

theorem operationsInCalls_placed :
    let driven := drive [.step, .step, .step, .step, .step]
      (start operationsInCalls (Session.start (.fresh none : Sandbox) {} .empty))
    Placed operationsInCalls .empty (errorsOf driven.1) driven.2 4
      ⟨⟨5⟩, ⟨0⟩, .callbackOp ⟨false, false, .none, ⟨1⟩, ⟨8⟩⟩⟩ ∧
    (driven.2.session.notes.places.values.map fun place => (place.time, place.root)) =
      [(⟨2⟩, none), (⟨5⟩, some ⟨3⟩)] :=
  ⟨places_name_last_root operationsInCalls (.fresh none : Sandbox) {} .empty _ (Or.inr rfl) 4 _ _ rfl
    rfl (by decide +kernel), by decide +kernel⟩

/-- A callback is scheduled behind a root call that is over. -/
def operationAfterCall : Log :=
  ⟨#[⟨⟨1⟩, ⟨0⟩, .allocateFunction none⟩,
    ⟨⟨2⟩, ⟨0⟩, .callBegin ⟨0, .none, ⟨1⟩, ⟨0⟩, none, []⟩⟩,
    ⟨⟨3⟩, ⟨0⟩, .callEnd ⟨⟨2⟩, 0, false, false, ⟨0⟩⟩⟩,
    ⟨⟨4⟩, ⟨0⟩, .callbackOp ⟨false, false, .none, ⟨1⟩, ⟨7⟩⟩⟩]⟩

/-- No call is open at the operation, and yet its place names one. -/
theorem operationAfterCall_misplaced :
    let driven := drive [.run] (start operationAfterCall
      (Session.start (.fresh none : Sandbox) { fastForward := false } .empty))
    errorsOf driven.1 = [] ∧ driven.2.position = 4 ∧ unended (operationAfterCall.before 3) = [] ∧
    (driven.2.session.notes.places.get? 3).map (·.root) = some (some ⟨2⟩) := by
  decide +kernel

end Playback
end Retrace
