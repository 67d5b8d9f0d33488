import Retrace.Proofs.Replay.FastForward
import Retrace.Proofs.Sandbox.Containment

/-!
# No replay meets a handle that dangles

A session over a sandbox keeps handles in its tags, in the frames of the open calls, and in what was
thrown last; more of them are on the sandbox's heap. It is intact (`Session.Intact`) if they are all
handles of objects that are there. A log holds no handles, only tags, so whatever a log says, a
session reads it through handles of its own: an event leaves an intact session intact, be it in
order or not (`Session.Intact.execute`).

A checkpoint is a heap with the handles into it. To go back to it is to take all of them over
together, and to give up the frames, which it has none of. This is why a checkpoint fits any
playback, as far as handles go: it need not have been taken at the call that it is noted for, nor
under the same settings, nor in a playback that went well.
-/

namespace Retrace

/-! ## Where handles are kept -/

section Handles

variable {η : Type}

def TagTable.handles (t : TagTable η) : List η := t.bound.values

def Frame.handles (frame : Frame η) : List η := frame.callee :: frame.args.flatMap Value.handles

def Thrown.handles (thrown : Thrown η) : List η := thrown.value.handles

/-- The handles that a session keeps. -/
def Session.handles {ρ σ : Type} (s : Session ρ η σ) : List η :=
  s.tags.handles ++ s.stack.frames.flatMap Frame.handles ++ s.pending.toList.flatMap Thrown.handles

/-! ### What is read through tags -/

variable {tags : TagTable η}

theorem TagTable.resolve_mem {tag : Tag} {handle : η} (h : tags.resolve tag = .ok handle) :
    handle ∈ tags.handles := by
  unfold resolve at h
  cases found : tags.bound.get? tag with
  | none => rw [found] at h; exact absurd h (by simp)
  | some other =>
    rw [found] at h
    exact Except.ok.inj h ▸ OrderedMap.mem_values_of_get? found

theorem Value.decode_handles {v : Recorded} {value : Value η} (h : v.decode tags = .ok value) :
    value.handles ⊆ tags.handles := by
  cases v with
  | ref tag =>
    simp only [decode, traverse] at h
    cases found : tags.resolve tag with
    | error e => rw [found] at h; exact absurd h (by simp [Except.map])
    | ok handle =>
      rw [found] at h
      obtain rfl := Except.ok.inj h
      exact List.cons_subset.2 ⟨TagTable.resolve_mem found, List.nil_subset _⟩
  | _ =>
    obtain rfl := Except.ok.inj h
    exact List.nil_subset _

theorem Value.decode_all_handles {recorded : List Recorded} {values : List (Value η)}
    (h : recorded.mapM (Value.decode tags) = .ok values) :
    values.flatMap Value.handles ⊆ tags.handles := by
  induction recorded generalizing values with
  | nil =>
    obtain rfl := ok_of_pure_ok h
    exact List.nil_subset _
  | cons v rest ih =>
    rw [List.mapM_cons] at h
    obtain ⟨value, first, h⟩ := ok_of_bind_ok h
    obtain ⟨others, later, h⟩ := ok_of_bind_ok h
    obtain rfl := ok_of_pure_ok h
    rw [List.flatMap_cons]
    exact List.append_subset.2 ⟨decode_handles first, ih later⟩

theorem TagTable.callOf_handles {function : Tag} {recorded : List Recorded} {callee : η}
    {args : List (Value η)} (h : tags.callOf function recorded = .ok (callee, args)) :
    callee :: args.flatMap Value.handles ⊆ tags.handles := by
  unfold callOf at h
  cases found : tags.resolve function with
  | error e => rw [found] at h; exact absurd h (by simp)
  | ok handle =>
    cases read : recorded.mapM (Value.decode tags) with
    | error e => rw [found, read] at h; exact absurd h (by simp)
    | ok values =>
      rw [found, read] at h
      obtain ⟨rfl, rfl⟩ := Prod.mk.inj (Except.ok.inj h)
      exact List.cons_subset.2 ⟨resolve_mem found, Value.decode_all_handles read⟩

theorem TagTable.value_handles {v : Recorded} {value : Value η} (h : tags.value v = .ok value) :
    value.handles ⊆ tags.handles := by
  unfold TagTable.value at h
  cases read : v.decode tags with
  | error e =>
    rw [read] at h
    have h : (.error (.naming e) : Except RequestError (Value η)) = .ok value := h
    exact absurd h (by simp)
  | ok other =>
    rw [read] at h
    have h : (.ok other : Except RequestError (Value η)) = .ok value := h
    exact Except.ok.inj h ▸ Value.decode_handles read

theorem TagTable.object_handles {v : Recorded} {handle : η} (h : tags.object v = .ok handle) :
    handle ∈ tags.handles := by
  obtain ⟨value, read, h⟩ := ok_of_bind_ok h
  cases value with
  | ref other =>
    obtain rfl := ok_of_pure_ok h
    exact value_handles read List.mem_cons_self
  | _ => exact absurd h (throw_ne_ok _ _)

/-- A request is made of what the tags say. -/
theorem Action.request?_handles {action : Action} {request : Request η}
    (h : action.request? tags = some (.ok request)) : request.handles ⊆ tags.handles := by
  have none {r : Request η} (same : (.ok r : Except RequestError (Request η)) = .ok request)
      (empty : r.handles = []) : request.handles ⊆ tags.handles := by
    rw [← Except.ok.inj same, empty]
    exact List.nil_subset _
  cases action with
  | getAndClearException | constructCall | callbackOp | callBegin | callEnd =>
    exact absurd h (by simp [Action.request?])
  | allocateObject | allocateArray | allocateArrayBuffer | codeParse =>
    exact none (Option.some.inj h) rfl
  | convertToObject v | createSymbol v =>
    obtain ⟨value, read, h⟩ := ok_of_bind_ok (Option.some.inj h)
    obtain rfl := ok_of_pure_ok h
    exact TagTable.value_handles read
  | allocateFunction name =>
    cases name with
    | none => exact none (Option.some.inj h) rfl
    | some v =>
      obtain ⟨value, read, h⟩ := ok_of_bind_ok (Option.some.inj h)
      obtain rfl := ok_of_pure_ok h
      exact TagTable.value_handles read
  | getProperty _ v | getOwnPropertyInfo _ v | getOwnPropertiesInfo _ v | deleteProperty v _ _
  | getTypedArrayInfo _ v =>
    obtain ⟨object, read, h⟩ := ok_of_bind_ok (Option.some.inj h)
    obtain rfl := ok_of_pure_ok h
    exact List.cons_subset.2 ⟨TagTable.object_handles read, List.nil_subset _⟩
  | getIndex w v | defineProperty v _ w | setPrototype v w | setProperty v _ w _ =>
    obtain ⟨object, read, h⟩ := ok_of_bind_ok (Option.some.inj h)
    obtain ⟨value, read', h⟩ := ok_of_bind_ok h
    obtain rfl := ok_of_pure_ok h
    exact List.cons_subset.2 ⟨TagTable.object_handles read, TagTable.value_handles read'⟩
  | setIndex v w u =>
    obtain ⟨object, read, h⟩ := ok_of_bind_ok (Option.some.inj h)
    obtain ⟨index, read', h⟩ := ok_of_bind_ok h
    obtain ⟨value, read'', h⟩ := ok_of_bind_ok h
    obtain rfl := ok_of_pure_ok h
    exact List.cons_subset.2 ⟨TagTable.object_handles read, List.append_subset.2
      ⟨TagTable.value_handles read', TagTable.value_handles read''⟩⟩

/-- Tracking a value binds what is in it, and nothing else. -/
theorem TagTable.mem_handles_trackValue [DecidableEq η] {value : Value η} {handle : η}
    (h : handle ∈ (tags.trackValue value).handles) :
    handle ∈ tags.handles ∨ handle ∈ value.handles := by
  unfold trackValue at h
  cases there : value.handle? with
  | none => rw [there] at h; exact Or.inl h
  | some tracked =>
    rw [there] at h
    dsimp only at h
    unfold track at h
    cases known : tags.tagOf? tracked with
    | some tag => rw [known] at h; exact Or.inl h
    | none =>
      rw [known] at h
      refine (OrderedMap.mem_values_insert h).imp_right ?_
      rintro rfl
      rw [Value.handles, there]
      exact List.mem_cons_self

end Handles

/-- The error reports a handle that dangles. -/
def ReplayError.Dangling : ReplayError → Prop
  | .unknownContext _ _ fault | .executionFailure _ _ fault => fault.Dangling
  | _ => False

/-- Any handle may be held. -/
def anything : ObjectRef → Prop := fun _ => True

/-! ## Intact sessions -/

/-- A checkpoint keeps handles of objects that its snapshot has. -/
structure Checkpoint.Intact (c : Checkpoint ObjectRef SandboxSnapshot) : Prop where
  closed : c.snapshot.heap.Closed anything
  tags : c.snapshot.heap.HasAll anything c.tags.handles
  pending : ∀ thrown, c.pending = some thrown → c.snapshot.heap.HasAll anything thrown.handles

namespace Session

/-- Every handle in a session is one of an object on its heap, and so it would be if the session
    went back to a checkpoint that it knows. -/
structure Intact (s : SandboxSession) : Prop where
  closed : s.engine.heap.Closed anything
  tags : s.engine.heap.HasAll anything s.tags.handles
  frames : ∀ frame ∈ s.stack.frames, s.engine.heap.HasAll anything frame.handles
  pending : ∀ thrown, s.pending = some thrown → s.engine.heap.HasAll anything thrown.handles
  known : ∀ c ∈ s.notes.checkpoints.values, c.Intact

/-- However an event ended, the session is intact, and no handle was found to dangle. -/
def Unharmed : EStateM.Result ReplayError SandboxSession Unit → Prop
  | .ok () s => s.Intact
  | .error err s => s.Intact ∧ ¬ err.Dangling

section Intact

variable {s : SandboxSession}

theorem start_intact (contexts : Option (List Context)) (settings : Settings)
    {notes : Notes ObjectRef SandboxSnapshot} (known : ∀ c ∈ notes.checkpoints.values, c.Intact) :
    (start (.fresh contexts) settings notes : SandboxSession).Intact where
  closed := Heap.closed_empty fun _ => trivial
  tags := .nil
  frames _ isOpen := absurd isOpen List.not_mem_nil
  pending _ isPending := absurd isPending (by simp [start])
  known := known

theorem Intact.handles (h : s.Intact) :
    ∀ r ∈ s.handles ++ s.engine.heap.handles, r.index < s.engine.heap.size := by
  intro r mem
  simp only [Session.handles, List.mem_append, List.mem_flatMap, Option.mem_toList] at mem
  rcases mem with ((tagged | ⟨frame, isOpen, held⟩) | ⟨thrown, isPending, held⟩) | inside
  · exact (h.tags r tagged).1
  · exact (h.frames frame isOpen r held).1
  · exact (h.pending thrown isPending r held).1
  · exact (h.closed.within r inside).1

/-- The sandbox may do what grows its heap and leaves it closed. -/
theorem Intact.withEngine (h : s.Intact) {engine : Sandbox}
    (grown : s.engine.heap.size ≤ engine.heap.size) (closed : engine.heap.Closed anything) :
    ({ s with engine } : SandboxSession).Intact where
  closed := closed
  tags := h.tags.mono grown
  frames frame isOpen := (h.frames frame isOpen).mono grown
  pending thrown isPending := (h.pending thrown isPending).mono grown
  known := h.known

theorem Intact.track (h : s.Intact) {value : Value ObjectRef}
    (held : s.engine.heap.HasAll anything value.handles) :
    ({ s with tags := s.tags.trackValue value } : SandboxSession).Intact :=
  { h with
    tags := fun r mem => (TagTable.mem_handles_trackValue mem).elim (h.tags r) (held r) }

theorem Intact.throws (h : s.Intact) {thrown : Thrown ObjectRef}
    (held : s.engine.heap.HasAll anything thrown.handles) :
    ({ s with pending := some thrown } : SandboxSession).Intact :=
  { h with pending := fun _ isPending => Option.some.inj isPending ▸ held }

/-- After a call, its outcome is settled. -/
theorem Intact.settled (h : s.Intact) {made : Outcome ObjectRef × Sandbox}
    (contained : Sandbox.ContainedCall anything s.engine.heap made) :
    (({ s with engine := made.2 } : SandboxSession).settled made.1).Intact := by
  have intact := h.withEngine contained.grown contained.closed
  have held := contained.held
  unfold Session.settled
  cases outcome : made.1 with
  | ok value => rw [outcome] at held; exact intact.track held
  | error thrown => rw [outcome] at held; exact intact.throws held

theorem Intact.noted (h : s.Intact) (position : Nat) (call : CallEnd) :
    (s.noted position call).Intact := by
  unfold Session.noted
  split
  · split
    · exact { h with }
    · exact h
  · exact h

theorem ofNaming_not_dangling (time : Time) (error : NamingError) :
    ¬ (ReplayError.ofNaming time error).Dangling := by
  cases error <;> exact id

theorem ofRequest_not_dangling (time : Time) (kind : Kind) (error : RequestError) :
    ¬ (ReplayError.ofRequest time kind error).Dangling := by
  cases error with
  | naming error => exact ofNaming_not_dangling time error
  | notAnObject found =>
    have start : Harmless "expected an object, found " := by decide
    exact (start.append _).not_dangling

/-! ### One event -/

theorem enter_intact (h : s.Intact) (time : Time) (context : Context) :
    Unharmed (enter time context s) := by
  rw [enter_run]
  split
  · exact h
  · have entered : Engine.enter context s.engine = _ := Sandbox.enter_run context s.engine
    rw [entered]
    by_cases may : Sandbox.enterable s.engine.contexts context = true
    · rw [if_pos may]
      exact { h with }
    · have start : Harmless "no context " := by decide
      rw [if_neg may]
      exact ⟨h, (start.append _).not_dangling⟩

theorem answer_intact (h : s.Intact) (time : Time) {request : Request ObjectRef}
    (held : request.handles ⊆ s.tags.handles) : Unharmed (answer time request s) := by
  have contained : Sandbox.Contained anything s.engine.heap _ (Engine.perform request s.engine) :=
    Sandbox.perform_contained h.closed fun r mem => h.tags r (held mem)
  rw [answer_run]
  cases performed : Engine.perform request s.engine with
  | error fault engine =>
    rw [performed] at contained
    exact ⟨h.withEngine contained.1 contained.2.1, contained.2.2⟩
  | ok result engine =>
    rw [performed] at contained
    have intact := h.withEngine contained.1 contained.2.1
    show (kept request result { s with engine }).Intact
    unfold kept
    split
    · exact intact.track contained.2.2
    · exact intact

theorem takeException_intact (h : s.Intact) : Unharmed (takeException s) := by
  rw [takeException_run]
  cases isPending : s.pending with
  | none => exact h
  | some thrown =>
    have taken : ({ s with pending := none } : SandboxSession).Intact :=
      { h with pending := fun _ none => absurd none (by simp) }
    exact taken.track (h.pending thrown isPending)

theorem construct_intact (h : s.Intact) (time : Time) (function : Tag) (args : List Recorded) :
    Unharmed (construct time function args s) := by
  rw [construct_run]
  cases read : s.tags.callOf function args with
  | error e => exact ⟨h, ofNaming_not_dangling time e⟩
  | ok call =>
    have held := List.forall_mem_cons.1 fun r mem => h.tags r (TagTable.callOf_handles read mem)
    exact h.settled (Sandbox.construct_contained h.closed held.1 held.2)

theorem rooted_intact (h : s.Intact) (time : Time) (call : CallBegin) :
    (s.rooted time call).Intact := by
  unfold rooted
  split
  · exact { h with frames := fun _ isOpen => absurd isOpen List.not_mem_nil }
  · exact h

theorem beginCall_intact (h : s.Intact) (time : Time) (call : CallBegin) :
    Unharmed (beginCall time call s) := by
  have rooted := rooted_intact h time call
  rw [beginCall_run]
  split
  · exact ⟨h, id⟩
  split
  · exact ⟨h, id⟩
  cases read : s.tags.callOf call.function call.args with
  | error e => exact ⟨rooted, ofNaming_not_dangling time e⟩
  | ok found =>
    have engine : (s.rooted time call).engine = s.engine := by
      unfold Session.rooted
      split <;> rfl
    refine { rooted with frames := fun frame isOpen => ?_ }
    rcases List.mem_cons.1 isOpen with rfl | before
    · show (s.rooted time call).engine.heap.HasAll anything _
      rw [engine]
      exact fun r mem => h.tags r (TagTable.callOf_handles read mem)
    · exact rooted.frames frame before

/-- The end of a call takes a frame from the stack, if it takes one, and leaves the others. -/
theorem popCall_intact (h : s.Intact) (time : Time) (call : CallEnd) :
    match popCall time call s with
    | .ok frame s' => s'.Intact ∧ s'.engine.heap.HasAll anything frame.handles
    | .error err s' => s'.Intact ∧ ¬ err.Dangling := by
  rw [popCall_run]
  cases isOpen : s.stack.frames with
  | nil => exact ⟨h, id⟩
  | cons frame frames =>
    have others : ∀ other ∈ frames, s.engine.heap.HasAll anything other.handles :=
      fun other mem => h.frames other (isOpen ▸ List.mem_cons_of_mem _ mem)
    dsimp only
    by_cases other : frame.begun ≠ call.begun ∨ time ≤ call.begun
    · rw [if_pos other]
      exact ⟨h, id⟩
    by_cases deep : frame.depth ≠ call.depth
    · rw [if_neg other, if_pos deep]
      exact ⟨{ h with frames := others }, id⟩
    · rw [if_neg other, if_neg deep]
      exact ⟨{ h with frames := others }, h.frames frame (isOpen ▸ List.mem_cons_self)⟩

theorem endCall_intact (h : s.Intact) (position : Nat) (time : Time) (call : CallEnd) :
    Unharmed (endCall position time call s) := by
  have popped := popCall_intact h time call
  rw [endCall_run]
  cases ended : popCall time call s with
  | error err s' => rw [ended] at popped; exact popped
  | ok frame s' =>
    rw [ended] at popped
    obtain ⟨intact, held⟩ := popped
    have args := (List.forall_mem_cons.1 held).2
    have called : (s'.called position call frame).Intact :=
      (intact.settled (Sandbox.call_contained intact.closed frame.callee args)).noted position call
    dsimp only
    split
    · exact ⟨called, id⟩
    split
    · exact ⟨called, id⟩
    · exact called

theorem act_intact (h : s.Intact) (position : Nat) (e : Event) : Unharmed (act position e s) := by
  unfold act
  cases read : e.action.request? s.tags with
  | some r =>
    cases r with
    | error error => exact ⟨h, ofRequest_not_dangling e.time e.kind error⟩
    | ok request => exact answer_intact h e.time (Action.request?_handles read)
  | none =>
    cases e.action with
    | getAndClearException => exact takeException_intact h
    | constructCall function args => exact construct_intact h e.time function args
    | callbackOp op => exact { h with }
    | callBegin call => exact beginCall_intact h e.time call
    | callEnd call => exact endCall_intact h position e.time call
    | _ => exact h

/-- **No event meets a handle that dangles**, or leaves one behind. -/
theorem Intact.execute (h : s.Intact) (position : Nat) (e : Event) :
    Unharmed (Session.execute position e s) := by
  have entered := enter_intact h e.time e.context
  rw [execute_run]
  cases ran : enter e.time e.context s with
  | error err s' => rw [ran] at entered; exact entered
  | ok _ s' => rw [ran] at entered; exact act_intact entered position e

/-! ### Checkpoints -/

/-- Going back to a checkpoint swaps the heap, and with it all that is held. -/
theorem Intact.restore (h : s.Intact) {c : Checkpoint ObjectRef SandboxSnapshot}
    (intact : c.Intact) : ∃ s', Session.restore c s = .ok () s' ∧ s'.Intact ∧ s'.stack.frames = [] :=
  ⟨_, rfl, ⟨intact.closed, intact.tags, fun _ isOpen => absurd isOpen List.not_mem_nil,
    intact.pending, h.known⟩, rfl⟩

theorem Intact.checkpoint (h : s.Intact) {time : Time}
    {c : Checkpoint ObjectRef SandboxSnapshot} (taken : s.checkpoint? time = some c) : c.Intact := by
  obtain rfl := Option.some.inj taken
  exact ⟨h.closed, h.tags, h.pending⟩

end Intact

end Session

/-- What is noted of a checkpoint, if anything new is, is the checkpoint. -/
theorem Notes.mem_addCheckpoint {notes : Notes ObjectRef SandboxSnapshot} {position : Nat}
    {c d : Checkpoint ObjectRef SandboxSnapshot}
    (h : d ∈ (notes.addCheckpoint position c).checkpoints.values) :
    d ∈ notes.checkpoints.values ∨ d = c := by
  change d ∈ (once notes.checkpoints position c).values at h
  unfold once at h
  split at h
  · exact Or.inl h
  · exact OrderedMap.mem_values_insert h

namespace Playback

/-! ## Playbacks -/

/-- The session of a playback is intact, and none of its errors was about a handle. -/
structure Unbroken (errs : List ReplayError) (p : OfSandbox) : Prop where
  intact : p.session.Intact
  quiet : ∀ err ∈ errs, ¬ err.Dangling

section Unbroken

variable {errs : List ReplayError} {p q : OfSandbox} {err : ReplayError}

theorem Unbroken.fails (h : Unbroken errs p) (intact : q.session.Intact)
    (other : ¬ err.Dangling) : Unbroken (errs ++ [err]) q := by
  refine ⟨intact, fun e mem => ?_⟩
  rcases List.mem_append.1 mem with before | last
  · exact h.quiet e before
  · exact List.mem_singleton.1 last ▸ other

/-- A session in which a checkpoint may have been noted. -/
theorem withCheckpoint_intact (intact : p.session.Intact) (e : Event) :
    (p.withCheckpoint e).atRest.session.Intact := by
  show (p.withCheckpoint e).session.Intact
  rcases withCheckpoint_cases p e with same | ⟨_, c, _, _, _, _, taken, _, noted⟩
  · rw [same]
    exact intact
  · rw [noted]
    refine { intact with known := fun d mem => ?_ }
    rcases Notes.mem_addCheckpoint mem with before | rfl
    · exact intact.known d before
    · exact intact.checkpoint taken

/-- A checkpoint that may be restored is one that the session knows. -/
theorem shortcut?_known {e ending : Event} {target : Option Time} {call : CallBegin}
    {c : Checkpoint ObjectRef SandboxSnapshot} {endPosition : Nat} {callEnd : CallEnd}
    (shortcut : target.bind (p.shortcut? e) = some (call, c, endPosition, ending, callEnd)) :
    c ∈ p.session.notes.checkpoints.values :=
  OrderedMap.mem_values_of_get? (shortcut?_leads shortcut).noted

theorem Unbroken.advance (target : Option Time) (errs : List ReplayError) (p : OfSandbox)
    (h : Unbroken errs p) : Holds Unbroken errs (Playback.advance target p) := by
  have advanced := advance_advanced target p
  generalize Playback.advance target p = r at advanced
  -- where a root call is passed by, the session behind it is intact
  have passes {e ending : Event} {call : CallBegin} {c : Checkpoint ObjectRef SandboxSnapshot}
      {endPosition : Nat} {callEnd : CallEnd} {session : SandboxSession}
      (shortcut : target.bind (p.shortcut? e) = some (call, c, endPosition, ending, callEnd))
      (restore : Session.restore c p.session = .ok () session) :
      (p.beyond e call endPosition ending session).session.Intact := by
    obtain ⟨s', restored, intact, -⟩ :=
      h.intact.restore (h.intact.known c (shortcut?_known shortcut))
    obtain rfl := (EStateM.Result.ok.inj (restored.symm.trans restore)).2
    exact { intact with frames := fun _ isOpen => absurd isOpen List.not_mem_nil }
  cases advanced with
  | refused | aborted | truncated | outOfOrder => exact h.fails h.intact id
  | finished => exact h
  | unrestored _ e _ call c _ _ _ shortcut fault session restore =>
    obtain ⟨s', restored, -⟩ :=
      h.intact.restore (h.intact.known c (shortcut?_known shortcut))
    exact absurd (restored.symm.trans restore) (by simp)
  | passed _ e _ call c _ _ _ shortcut session restore => exact ⟨passes shortcut restore, h.quiet⟩
  | passedRaising _ e _ call c _ _ _ shortcut session restore =>
    exact h.fails (passes shortcut restore) id
  | played _ e _ _ session run =>
    have executed := h.intact.execute p.position e
    rw [run] at executed
    exact ⟨withCheckpoint_intact (p := p.past e session) executed e, h.quiet⟩
  | playedRaising _ e _ _ session _ _ _ run =>
    have executed := h.intact.execute p.position e
    rw [run] at executed
    exact h.fails (withCheckpoint_intact (p := p.past e session) executed.1 e) id
  | failed _ e _ _ session err run =>
    have executed := h.intact.execute p.position e
    rw [run] at executed
    exact h.fails executed.1 executed.2

theorem Unbroken.driven (h : Unbroken errs p) (demands : List Demand) :
    Unbroken (errs ++ errorsOf (drive demands p).1) (drive demands p).2 :=
  drive_induction (fun target => Unbroken.advance target) demands
    (fun _ _ _ _ h => ⟨h.intact, h.quiet⟩) h

end Unbroken

/-! ## Earlier playbacks -/

/-- A playback of the log on a sandbox that is fresh. -/
def onFresh (log : Log) (contexts : Option (List Context)) (settings : Settings)
    (notes : Notes ObjectRef SandboxSnapshot) : OfSandbox :=
  start log (Session.start (.fresh contexts) settings notes)

/-- What can be known of a log from any earlier playbacks of it on fresh sandboxes, in whatever
    contexts and under whatever settings they were: what one of them knew when it was left, and
    besides, wherever it is put, a checkpoint of the state in which one was then. -/
inductive Collected (log : Log) : Notes ObjectRef SandboxSnapshot → Prop
  | nothing : Collected log .empty
  | replay {notes : Notes ObjectRef SandboxSnapshot} (before : Collected log notes)
      (contexts : Option (List Context)) (settings : Settings) (demands : List Demand) :
      Collected log (drive demands (onFresh log contexts settings notes)).2.session.notes
  | attached {notes notes' : Notes ObjectRef SandboxSnapshot} (known : Collected log notes)
      (before : Collected log notes') (contexts : Option (List Context)) (settings : Settings)
      (demands : List Demand) {resumeAfter : Time} {c : Checkpoint ObjectRef SandboxSnapshot}
      (taken : (drive demands (onFresh log contexts settings notes')).2.session.checkpoint?
        resumeAfter = some c) (position : Nat) :
      Collected log (notes.addCheckpoint position c)

theorem onFresh_unbroken (log : Log) (contexts : Option (List Context)) (settings : Settings)
    {notes : Notes ObjectRef SandboxSnapshot} (known : ∀ c ∈ notes.checkpoints.values, c.Intact) :
    Unbroken [] (onFresh log contexts settings notes) :=
  ⟨Session.start_intact contexts settings known, fun _ mem => absurd mem List.not_mem_nil⟩

theorem Collected.intact {log : Log} {notes : Notes ObjectRef SandboxSnapshot}
    (collected : Collected log notes) : ∀ c ∈ notes.checkpoints.values, c.Intact := by
  induction collected with
  | nothing => exact fun _ mem => absurd mem List.not_mem_nil
  | replay before contexts settings demands ih =>
    exact ((onFresh_unbroken log contexts settings ih).driven demands).intact.known
  | attached known before contexts settings demands taken position ih ih' =>
    intro d mem
    rcases Notes.mem_addCheckpoint mem with already | rfl
    · exact ih d already
    · exact ((onFresh_unbroken log contexts settings ih').driven demands).intact.checkpoint
        taken

/-- **No handle ever dangles in a replay.** Let any log be replayed on a sandbox that is fresh,
    whatever is asked of it, and whatever checkpoints there are from earlier playbacks of the log.
    Wherever the replay stands, every handle in its tags, its open frames, its pending exception and
    on its heap is one of an object there, and no error was ever about a handle. -/
theorem handles_never_dangle {log : Log} {notes : Notes ObjectRef SandboxSnapshot}
    (collected : Collected log notes) (contexts : Option (List Context)) (settings : Settings)
    (demands : List Demand) :
    let made := drive demands (onFresh log contexts settings notes)
    (∀ r ∈ made.2.session.handles ++ made.2.session.engine.heap.handles,
      r.index < made.2.session.engine.heap.size) ∧
      ∀ err ∈ errorsOf made.1, ¬ err.Dangling := by
  intro made
  have unbroken := (onFresh_unbroken log contexts settings collected.intact).driven demands
  exact ⟨unbroken.intact.handles, fun err mem => unbroken.quiet err mem⟩

/-- A function is called, and while it is, an object is made that it keeps. It is read off the
    function when the call is over. -/
def keptObject : Log :=
  ⟨#[⟨⟨1⟩, ⟨0⟩, .allocateFunction none⟩,
    ⟨⟨2⟩, ⟨0⟩, .callBegin ⟨0, .none, ⟨1⟩, ⟨0⟩, none, []⟩⟩,
    ⟨⟨3⟩, ⟨0⟩, .allocateObject true⟩,
    ⟨⟨4⟩, ⟨0⟩, .setProperty (.ref ⟨1⟩) ⟨7⟩ (.ref ⟨2⟩) true⟩,
    ⟨⟨5⟩, ⟨0⟩, .callEnd ⟨⟨2⟩, 0, false, false, ⟨0⟩⟩⟩,
    ⟨⟨6⟩, ⟨0⟩, .getProperty ⟨7⟩ (.ref ⟨1⟩)⟩]⟩

/-- What a playback of it knows that takes checkpoints. -/
def keptObjectNotes : Notes ObjectRef SandboxSnapshot :=
  (drive [.run] (onFresh keptObject none { takeCheckpoints := true } .empty)).2.session.notes

theorem keptObjectNotes_collected : Collected keptObject keptObjectNotes := by
  unfold keptObjectNotes
  exact .replay .nothing none { takeCheckpoints := true } [.run]

/-- A playback that passes the call by has the object from the checkpoint. -/
theorem keptObject_there :
    let made := drive [.run] (onFresh keptObject none {} keptObjectNotes)
    (made.2.position = 6 ∧ made.2.session.engine.calls = 1 ∧
      made.2.session.handles = [⟨0⟩, ⟨1⟩] ∧ made.2.session.engine.heap.handles = [⟨1⟩]) ∧
    (∀ r ∈ made.2.session.handles ++ made.2.session.engine.heap.handles,
      r.index < made.2.session.engine.heap.size) ∧
      ∀ err ∈ errorsOf made.1, ¬ err.Dangling :=
  ⟨by decide +kernel, handles_never_dangle keptObjectNotes_collected none {} [.run]⟩

end Playback
end Retrace
