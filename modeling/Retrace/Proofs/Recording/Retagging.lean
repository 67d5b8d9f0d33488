import Retrace.Proofs.Recording.Lag
import Retrace.Proofs.Recording.Shadow

/-!
# A recording with other tags

What a recorder does depends on its tags in one place only: where an operation is written down, with
the tags of the handles it was given. So if two tables give these handles the same tags, a recorder
with the one does what a recorder with the other does, and afterwards their tables have tracked the
same value (`Host.step_retagged`).

What a host gets hold of are handles of the sandbox that it works with. It keeps them in its calls,
in what was thrown and in its recorder's tags (`Host.Held`), and it can be told from these which
handles it has never seen.
-/

namespace Retrace

/-! ## Writing handles -/

section Writing

variable {η : Type} [DecidableEq η] {t u : TagTable η}

theorem Value.encode_agree {v : Value η} (agree : t.AgreeOn u v.handles) :
    v.encode t = v.encode u := by
  cases v with
  | ref x => simp only [encode, traverse, agree x List.mem_cons_self]
  | _ => rfl

theorem Value.encode_handles {v : Value η} {w : Recorded} (h : v.encode t = .ok w) :
    v.handles ⊆ t.handles := by
  cases v with
  | ref x =>
    simp only [encode, traverse] at h
    cases found : t.tagOf? x with
    | none => rw [found] at h; exact absurd h (by simp [Except.map])
    | some tag =>
      exact List.cons_subset.2 ⟨TagTable.mem_handles_of_tagOf? found, List.nil_subset _⟩
  | _ => exact List.nil_subset _

theorem encode_all_agree {args : List (Value η)} (agree : t.AgreeOn u (args.flatMap Value.handles)) :
    args.mapM (Value.encode t) = args.mapM (Value.encode u) := by
  induction args with
  | nil => rfl
  | cons v vs ih =>
    rw [List.flatMap_cons] at agree
    obtain ⟨first, rest⟩ := List.forall_mem_append.1 agree
    rw [List.mapM_cons, List.mapM_cons, Value.encode_agree first, ih rest]

theorem encode_all_handles {args : List (Value η)} {recorded : List Recorded}
    (h : args.mapM (Value.encode t) = .ok recorded) : args.flatMap Value.handles ⊆ t.handles := by
  induction args generalizing recorded with
  | nil => exact List.nil_subset _
  | cons v vs ih =>
    rw [List.mapM_cons] at h
    obtain ⟨w, first, h⟩ := ok_of_bind_ok h
    obtain ⟨ws, rest, -⟩ := ok_of_bind_ok h
    rw [List.flatMap_cons]
    exact List.append_subset.2 ⟨Value.encode_handles first, ih rest⟩

theorem Recorder.Named.handles {function : η} {args : List (Value η)} {tag : Tag}
    {recorded : List Recorded} (named : Recorder.Named t function args tag recorded) :
    function :: args.flatMap Value.handles ⊆ t.handles :=
  List.cons_subset.2 ⟨TagTable.mem_handles_of_tagOf? named.function, encode_all_handles named.args⟩

/-- The tags of a request are those of the handles that it is made with. -/
theorem Request.encode_agree {request : Request η} (agree : t.AgreeOn u request.handles) :
    request.encode t = request.encode u := by
  have target {x : η} (same : t.tagOf? x = u.tagOf? x) : encode.target t x = encode.target u x :=
    Value.encode_agree (v := .ref x) (List.forall_mem_singleton.2 same)
  cases request with
  | createObject | createArray | createArrayBuffer | loadScript => rfl
  | toObject v | createSymbol v => simp only [encode, Value.encode_agree agree]
  | createFunction name =>
    cases name with
    | none => rfl
    | some v => simp only [encode, Value.encode_agree (v := v) agree]
  | getProperty o | ownPropertyDescriptor o | ownPropertyKeys o | deleteProperty o
  | typedArrayBuffer o => simp only [encode, target (agree o List.mem_cons_self)]
  | getIndex o v | defineProperty o _ v | setPrototype o v | setProperty o _ v =>
    obtain ⟨object, value⟩ := List.forall_mem_cons.1 agree
    simp only [encode, target object, Value.encode_agree value]
  | setIndex o v w =>
    obtain ⟨object, rest⟩ := List.forall_mem_cons.1 agree
    obtain ⟨index, value⟩ := List.forall_mem_append.1 rest
    simp only [encode, target object, Value.encode_agree index, Value.encode_agree value]

theorem Request.encode_handles {request : Request η} {action : Action}
    (h : request.encode t = .ok action) : request.handles ⊆ t.handles := by
  have target {x : η} {w : Recorded} (h : encode.target t x = .ok w) : x ∈ t.handles :=
    Value.encode_handles (v := .ref x) h List.mem_cons_self
  cases request with
  | createObject | createArray | createArrayBuffer | loadScript => exact List.nil_subset _
  | toObject v | createSymbol v =>
    obtain ⟨w, value, -⟩ := ok_of_bind_ok h
    exact Value.encode_handles value
  | createFunction name =>
    cases name with
    | none => exact List.nil_subset _
    | some v =>
      obtain ⟨w, value, -⟩ := ok_of_bind_ok h
      exact Value.encode_handles value
  | getProperty o | ownPropertyDescriptor o | ownPropertyKeys o | deleteProperty o
  | typedArrayBuffer o =>
    obtain ⟨w, object, -⟩ := ok_of_bind_ok h
    exact List.cons_subset.2 ⟨target object, List.nil_subset _⟩
  | getIndex o v | defineProperty o _ v | setPrototype o v | setProperty o _ v =>
    obtain ⟨w, object, h⟩ := ok_of_bind_ok h
    obtain ⟨u, value, -⟩ := ok_of_bind_ok h
    exact List.cons_subset.2 ⟨target object, Value.encode_handles value⟩
  | setIndex o v x =>
    obtain ⟨w, object, h⟩ := ok_of_bind_ok h
    obtain ⟨u, index, h⟩ := ok_of_bind_ok h
    obtain ⟨y, value, -⟩ := ok_of_bind_ok h
    exact List.cons_subset.2 ⟨target object,
      List.append_subset.2 ⟨Value.encode_handles index, Value.encode_handles value⟩⟩

end Writing

/-! ## Recorders -/

namespace Recorder

variable {η α β : Type} {r r' : Recorder η} {t u w : TagTable η} {context : Context} {time : Time}

/-- The recorder with other tags. -/
def retagged (r : Recorder η) (tags : TagTable η) : Recorder η := { r with tags }

theorem Timed.of_retagged (timed : (r.retagged t).Timed) : r.Timed :=
  ⟨timed.ordered, timed.last, timed.next, timed.few⟩

/-- A recording that succeeds also does with other tags, which become `u` by it. -/
def Retags (m : RecordM η α) (r : Recorder η) (t u : TagTable η) : Prop :=
  ∀ a r', m r = .ok a r' → m (r.retagged t) = .ok a (r'.retagged u)

theorem Retags.pure (a : α) : Retags (pure a : RecordM η α) r t t := by
  intro b r' done
  obtain ⟨rfl, rfl⟩ := EStateM.Result.ok.inj done
  rfl

theorem Retags.bind {m : RecordM η α} {f : α → RecordM η β} (first : Retags m r t u)
    (rest : ∀ a r', Retags (f a) r' u w) : Retags (m >>= f) r t w := by
  intro b r' done
  obtain ⟨a, mid, ran, done⟩ := ok_of_bind done
  rw [bind_run, first a mid ran]
  exact rest a mid b r' done

/-- Looking at the recorder, but not at its tags. -/
theorem Retags.get_bind {f : Recorder η → RecordM η β} (blind : f (r.retagged t) = f r)
    (rest : Retags (f r) r t u) : Retags (get >>= f) r t u := by
  intro b r' done
  show f (r.retagged t) (r.retagged t) = _
  rw [blind]
  exact rest b r' done

theorem Retags.modify {f : Recorder η → Recorder η}
    (blind : ∀ r : Recorder η, f (r.retagged t) = (f r).retagged u) :
    Retags (modify f : RecordM η Unit) r t u := by
  intro a r' done
  obtain ⟨rfl, rfl⟩ := EStateM.Result.ok.inj done
  rw [modify_run, blind]

theorem act_retags (action : Action) : Retags (act context action) r t t := by
  intro now r' done
  obtain ⟨isNext, rfl⟩ := act_inv done
  have isNext : (r.retagged t).next = some now := isNext
  simp only [act, bind_run, get_run, isNext]
  rfl

theorem checkInnermost_retags (begun : Time) : Retags (checkInnermost begun : RecordM η Unit) r t t := by
  intro a r' done
  obtain ⟨innermost, rfl⟩ := checkInnermost_inv done
  have innermost : (r'.retagged t).openCalls.head? = some begun := innermost
  simp [checkInnermost, innermost]

theorem encoded_retags {kind : Kind} {encode : TagTable η → Except NamingError α}
    (same : encode r.tags = encode t) : Retags (encoded kind encode) r t t := by
  intro a r' done
  obtain ⟨encodes, rfl⟩ := encoded_inv done
  have encodes : encode (r'.retagged t).tags = .ok a := same.symm.trans encodes
  simp only [encoded, bind_run, get_run, encodes]
  rfl

/-- Writing down comes first, and changes nothing. -/
theorem Retags.encoded_bind {kind : Kind} {encode : TagTable η → Except NamingError α}
    {f : α → RecordM η β} (same : encode r.tags = encode t) (rest : ∀ a, Retags (f a) r t u) :
    Retags (encoded kind encode >>= f) r t u := by
  intro b r' done
  obtain ⟨a, _, ran, more⟩ := ok_of_bind done
  obtain ⟨-, rfl⟩ := encoded_inv ran
  rw [bind_run, encoded_retags same a _ ran]
  exact rest a b r' more

variable [DecidableEq η]

theorem track_retags (value : Value η) : Retags (track value) r t (t.trackValue value) := by
  intro a r' done
  obtain ⟨rfl, rfl⟩ := EStateM.Result.ok.inj done
  rfl

/-- An event is the same with other tags, and need not tag the same value. -/
theorem Reported.retagged {e : Event} {value : Value η} (reported : Reported r r' e value)
    (t : TagTable η) (tracked : Value η) :
    Reported (r.retagged t) (r'.retagged (t.trackValue tracked)) e tracked :=
  ⟨reported.timely, reported.events, reported.next, reported.last, rfl⟩

/-! ### What a host reports -/

theorem request_retags {asked : Request η} {result : Value η} (agree : r.tags.AgreeOn t asked.handles) :
    Retags (request context asked result) r t
      (t.trackValue (if tagsResult asked then result else .null)) := by
  refine .encoded_bind (Request.encode_agree agree) fun action => ?_
  refine .bind (act_retags action) fun now mid => ?_
  split
  · exact .bind (track_retags result) fun _ _ => .pure now
  · exact .pure now

theorem takeException_retags (found : Option (Value η)) :
    Retags (takeException context (.ok found)) r t (t.trackValue (found.getD .null)) :=
  .bind (act_retags _) fun now _ => .bind (track_retags _) fun _ _ => .pure now

section Calls

variable {function : η} {args : List (Value η)}
variable (agree : r.tags.AgreeOn t (function :: args.flatMap Value.handles))
include agree

/-- The function and the arguments of a call are written down first. -/
theorem named_retags {kind : Kind} {f : Tag → List Recorded → RecordM η α}
    (rest : ∀ tag recorded, Retags (f tag recorded) r t u) :
    Retags (do
      let tag ← functionTag kind function
      let recorded ← arguments kind args
      f tag recorded) r t u := by
  obtain ⟨same, others⟩ := List.forall_mem_cons.1 agree
  refine .encoded_bind (by rw [same]) fun tag => ?_
  exact .encoded_bind (encode_all_agree others) fun recorded => rest tag recorded

theorem construct_retags (outcome : Outcome η) :
    Retags (construct context function args outcome) r t (t.trackValue (returned outcome)) :=
  named_retags agree fun _ _ => .bind (act_retags _) fun now _ =>
    .bind (track_retags _) fun _ _ => .pure now

theorem beginCall_retags (callback : CallbackId) (wallTime : Double) (name : Option String) :
    Retags (beginCall context function args callback wallTime name) r t t :=
  named_retags agree fun _ _ => .get_bind rfl <| .bind (act_retags _) fun now _ =>
    .bind (.modify fun _ => rfl) fun _ _ => .pure now

end Calls

theorem callback_retags {cancels repeating : Bool} {current id : CallbackId} {function : η}
    (same : r.tags.tagOf? function = t.tagOf? function) :
    Retags (callback context cancels repeating current function id) r t t :=
  .encoded_bind (by rw [same]) fun _ => act_retags _

theorem endCall_retags (begun : Time) (outcome : Outcome η) (wallTime : Double) :
    Retags (endCall context begun outcome wallTime) r t (t.trackValue (returned outcome)) := by
  refine .bind (checkInnermost_retags begun) fun _ mid => .get_bind rfl ?_
  cases outcome with
  | ok value | error thrown =>
    exact .bind (act_retags _) fun now _ =>
      .bind (.modify fun _ => rfl) fun _ _ => .bind (track_retags _) fun _ _ => .pure now

end Recorder

/-! ## Hosts -/

/-- The handles that an operation is made with. The end of a call is made with none, for it was the
    begin that named them. -/
def Operation.handles : Operation → List ObjectRef
  | ask request => request.handles
  | construct function args | beginCall function args _ _ _ =>
    function :: args.flatMap Value.handles
  | callback _ _ _ function _ => [function]
  | takeException | endCall _ => []

namespace Host

variable {h h' : Host} {t : TagTable ObjectRef} {limit : Nat} {context : Context}

/-- The host with other tags. -/
def retagged (h : Host) (tags : TagTable ObjectRef) : Host :=
  { h with recorder := h.recorder.retagged tags }

/-- What a host did it also does with other tags, and tags the same value, if the handles that it
    did it with have the same tags. -/
theorem Performed.retagged {operation : Operation}
    (performed : Performed limit context h operation h')
    (agree : h.recorder.tags.AgreeOn t operation.handles) :
    ∃ value, h'.recorder.tags = h.recorder.tags.trackValue value ∧
      Performed limit context (h.retagged t) operation (h'.retagged (t.trackValue value)) := by
  cases performed with
  | unanswered request failed => exact ⟨.null, rfl, .unanswered request failed⟩
  | ask request answered recorded =>
    obtain ⟨_, -, took, -⟩ := Recorder.request_inv recorded
    exact ⟨_, took.tags, .ask request answered (Recorder.request_retags agree _ _ recorded)⟩
  | takeException recorded =>
    obtain ⟨took, -⟩ := Recorder.takeException_inv recorded
    exact ⟨_, took.tags, .takeException (Recorder.takeException_retags _ _ _ recorded)⟩
  | construct function args constructed recorded =>
    obtain ⟨_, _, -, took, -⟩ := Recorder.construct_inv recorded
    exact ⟨_, took.tags, .construct function args constructed
      (Recorder.construct_retags agree _ _ _ recorded)⟩
  | callback cancels repeating current function id recorded =>
    obtain ⟨_, took, -⟩ := Recorder.callback_inv recorded
    have same := agree function List.mem_cons_self
    exact ⟨.null, took.tags, .callback cancels repeating current function id
      (Recorder.callback_retags same _ _ recorded)⟩
  | beginCall function args callback wallTime name room recorded =>
    obtain ⟨_, -, -, took, -⟩ := Recorder.beginCall_inv recorded
    exact ⟨.null, took.tags, .beginCall function args callback wallTime name room
      (Recorder.beginCall_retags agree callback wallTime name _ _ recorded)⟩
  | endCall wallTime isOpen called recorded =>
    obtain ⟨_, -, -, -, took, -⟩ := Recorder.endCall_inv recorded
    exact ⟨_, took.tags, .endCall wallTime isOpen called
      (Recorder.endCall_retags _ _ wallTime _ _ recorded)⟩

/-- What was done was recorded as one event, if it was recorded. -/
theorem Performed.reported {operation : Operation}
    (performed : Performed limit context h operation h') :
    h'.recorder = h.recorder ∨ ∃ e value, Recorder.Reported h.recorder h'.recorder e value := by
  cases performed with
  | unanswered request failed => exact Or.inl rfl
  | ask request answered recorded =>
    obtain ⟨_, -, took, -⟩ := Recorder.request_inv recorded
    exact Or.inr ⟨_, _, took⟩
  | takeException recorded =>
    obtain ⟨took, -⟩ := Recorder.takeException_inv recorded
    exact Or.inr ⟨_, _, took⟩
  | construct function args constructed recorded =>
    obtain ⟨_, _, -, took, -⟩ := Recorder.construct_inv recorded
    exact Or.inr ⟨_, _, took⟩
  | callback cancels repeating current function id recorded =>
    obtain ⟨_, took, -⟩ := Recorder.callback_inv recorded
    exact Or.inr ⟨_, _, took⟩
  | beginCall function args callback wallTime name room recorded =>
    obtain ⟨_, -, -, took, -⟩ := Recorder.beginCall_inv recorded
    exact Or.inr ⟨_, _, took⟩
  | endCall wallTime isOpen called recorded =>
    obtain ⟨_, -, -, -, took, -⟩ := Recorder.endCall_inv recorded
    exact Or.inr ⟨_, _, took⟩

theorem step_reported {deed : Deed} (done : step limit h deed = .ok h') :
    h'.recorder = h.recorder ∨ ∃ e value, Recorder.Reported h.recorder h'.recorder e value := by
  unfold step at done
  cases entered : Sandbox.enter deed.context h.sandbox with
  | error fault sandbox =>
    rw [entered] at done
    exact Or.inl (congrArg Host.recorder (Except.ok.inj done).symm)
  | ok _ sandbox =>
    rw [entered] at done
    exact (performed_of_perform done).reported

theorem step_retagged {deed : Deed} (agree : h.recorder.tags.AgreeOn t deed.operation.handles)
    (done : step limit h deed = .ok h') :
    ∃ value, h'.recorder.tags = h.recorder.tags.trackValue value ∧
      step limit (h.retagged t) deed = .ok (h'.retagged (t.trackValue value)) := by
  unfold step at done ⊢
  cases entered : Sandbox.enter deed.context h.sandbox with
  | error fault sandbox =>
    rw [entered] at done
    obtain rfl := Except.ok.inj done
    have entered : Sandbox.enter deed.context (h.retagged t).sandbox = .error fault sandbox := entered
    exact ⟨.null, rfl, by rw [entered]; rfl⟩
  | ok _ sandbox =>
    rw [entered] at done
    have entered : Sandbox.enter deed.context (h.retagged t).sandbox = .ok () sandbox := entered
    obtain ⟨value, tags, performed⟩ :=
      (performed_of_perform done).retagged (h := { h with sandbox }) agree
    rw [entered]
    exact ⟨value, tags, performed.perform⟩

/-! ### What a host holds -/

variable {allowed : ObjectRef → Prop}

/-- All handles that a host has are of objects on its sandbox's heap, and may be held. -/
structure Held (allowed : ObjectRef → Prop) (h : Host) : Prop where
  closed : h.sandbox.heap.Closed allowed
  tags : h.sandbox.heap.HasAll allowed h.recorder.tags.handles
  calls : ∀ call ∈ h.openCalls, h.sandbox.heap.HasAll allowed (call.args.flatMap Value.handles)
  thrown : ∀ value, h.thrown = some value → h.sandbox.heap.HasAll allowed value.handles

theorem start_held (contexts : Option (List Context)) (keepsNames : Bool) (all : ∀ r, allowed r) :
    (start contexts keepsNames).Held allowed where
  closed := Heap.closed_empty all
  tags := .nil
  calls _ isOpen := absurd isOpen List.not_mem_nil
  thrown _ pending := absurd pending (by simp [start])

/-- The sandbox may do what grows its heap and leaves it closed. -/
theorem Held.withSandbox (held : h.Held allowed) {sandbox : Sandbox}
    (grown : h.sandbox.heap.size ≤ sandbox.heap.size) (closed : sandbox.heap.Closed allowed) :
    ({ h with sandbox } : Host).Held allowed where
  closed := closed
  tags := held.tags.mono grown
  calls call isOpen := (held.calls call isOpen).mono grown
  thrown value pending := (held.thrown value pending).mono grown

theorem Held.entered (held : h.Held allowed) {sandbox : Sandbox}
    (entered : Sandbox.enter context h.sandbox = .ok () sandbox) :
    ({ h with sandbox } : Host).Held allowed := by
  rw [Sandbox.enter_run] at entered
  split at entered
  · obtain rfl := (EStateM.Result.ok.inj entered).2
    exact { held with }
  · exact absurd entered (by simp)

theorem Held.tracks (held : h.Held allowed) {recorder : Recorder ObjectRef}
    {value : Value ObjectRef} (tags : recorder.tags = h.recorder.tags.trackValue value)
    (has : h.sandbox.heap.HasAll allowed value.handles) :
    ({ h with recorder } : Host).Held allowed :=
  { held with tags := fun r mem =>
      (TagTable.mem_handles_trackValue (tags ▸ mem)).elim (held.tags r) (has r) }

/-- A call was made, and its outcome is kept. -/
theorem Held.ends (held : h.Held allowed) {made : Outcome ObjectRef × Sandbox}
    (contained : Sandbox.ContainedCall allowed h.sandbox.heap made) {recorder : Recorder ObjectRef}
    (tags : recorder.tags = h.recorder.tags.trackValue (returned made.1)) :
    (⟨made.2, recorder, h.openCalls, pendingAfter h.thrown made.1⟩ : Host).Held allowed := by
  have after := held.withSandbox contained.grown contained.closed
  have has := contained.held
  cases outcome : made.1 with
  | ok value =>
    rw [outcome] at tags has
    exact after.tracks tags has
  | error thrown =>
    rw [outcome] at tags has
    exact { after.tracks tags .nil with
      thrown := fun value pending => Option.some.inj pending ▸ has }

/-- **A host only gets hold of handles that it may hold**, if it had no others before. -/
theorem Performed.held {operation : Operation}
    (performed : Performed limit context h operation h') (held : h.Held allowed) :
    h'.Held allowed := by
  cases performed with
  | unanswered request failed =>
    obtain rfl := Sandbox.perform_atomic request h.sandbox _ _ failed
    exact held
  | @ask request result sandbox _ recorder answered recorded =>
    obtain ⟨action, encodes, took, -⟩ := Recorder.request_inv recorded
    have contained : Sandbox.Contained allowed h.sandbox.heap _
        (Sandbox.perform request h.sandbox) := Sandbox.perform_contained held.closed
      fun r mem => held.tags r (Request.encode_handles encodes mem)
    rw [answered] at contained
    obtain ⟨grown, closed, has⟩ := contained
    refine (held.withSandbox grown closed).tracks took.tags ?_
    split
    · exact has
    · exact .nil
  | takeException recorded =>
    obtain ⟨took, -⟩ := Recorder.takeException_inv recorded
    have has : h.sandbox.heap.HasAll allowed (h.thrown.getD .null).handles := by
      cases pending : h.thrown with
      | none => exact .nil
      | some value => exact held.thrown value pending
    exact { held.tracks took.tags has with thrown := fun _ none => absurd none (by simp) }
  | construct function args constructed recorded =>
    obtain ⟨_, _, named, took, -⟩ := Recorder.construct_inv recorded
    have has := List.forall_mem_cons.1 fun r mem => held.tags r (named.handles mem)
    have contained := Sandbox.construct_contained held.closed has.1 has.2
    rw [constructed] at contained
    exact held.ends contained took.tags
  | callback cancels repeating current function id recorded =>
    obtain ⟨_, took, -⟩ := Recorder.callback_inv recorded
    exact held.tracks took.tags .nil
  | beginCall function args callback wallTime name room recorded =>
    obtain ⟨_, -, named, took, -⟩ := Recorder.beginCall_inv recorded
    have has := List.forall_mem_cons.1 fun r mem => held.tags r (named.handles mem)
    exact { held.tracks took.tags .nil with calls := List.forall_mem_cons.2 ⟨has.2, held.calls⟩ }
  | @endCall wallTime call openCalls _ _ _ _ isOpen called recorded =>
    obtain ⟨_, -, -, -, took, -⟩ := Recorder.endCall_inv recorded
    obtain ⟨args, around⟩ := List.forall_mem_cons.1 (isOpen ▸ held.calls)
    have contained := Sandbox.call_contained held.closed call.function args
    rw [called] at contained
    have outer : ({ h with openCalls } : Host).Held allowed := { held with calls := around }
    exact outer.ends contained took.tags

theorem step_held {deed : Deed} (held : h.Held allowed) (done : step limit h deed = .ok h') :
    h'.Held allowed := by
  unfold step at done
  cases entered : Sandbox.enter deed.context h.sandbox with
  | error fault sandbox =>
    rw [entered] at done
    exact Except.ok.inj done ▸ held
  | ok _ sandbox =>
    rw [entered] at done
    exact (performed_of_perform done).held (held.entered entered)

end Host
end Retrace
