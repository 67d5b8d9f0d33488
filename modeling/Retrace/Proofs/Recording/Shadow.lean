import Retrace.Proofs.Recording.Host
import Retrace.Proofs.Recording.Reports
import Retrace.Proofs.Replay.Abreast
import Retrace.Proofs.Replay.Calls

/-!
# A replay shadows its host

`Shadow` relates a host in the middle of its work with a session that has replayed all that the host
has recorded so far. Their sandboxes are alike, their tags are the same down to the handles, the
frames of the session are the open calls of the host, and what is pending in one is pending in the
other. The relation is kept by every deed. `Shadow.perform` is the theorem: what the host does is
either not recorded, and then nothing has happened, or it is recorded as one event, and replaying
that event takes the session to where the host is.

What a host records of a value is only its tag, so it matters that recorder and session tag the same
values in the same order. The recorder tags after it has written what the operation was given, the
session after it has read it; and both tag the results of the same requests, each by a rule of its
own (`Session.tagsResult_eq`).
-/

namespace Retrace

/-! ## What replaying leaves alone -/

namespace Session

variable {ρ η σ : Type} {s : Session ρ η σ}

theorem settled_tags [DecidableEq η] (outcome : Outcome η) :
    (s.settled outcome).tags = s.tags.trackValue (returned outcome) := by
  cases outcome <;> rfl

theorem settled_frame [DecidableEq η] (outcome : Outcome η) :
    (s.settled outcome).engine = s.engine ∧ (s.settled outcome).context = s.context := by
  cases outcome <;> exact ⟨rfl, rfl⟩

theorem kept_eq [DecidableEq η] (request : Request η) (result : Value η) :
    s.kept request result = { s with
      tags := s.tags.trackValue (if tagsResult request then result else .null) } := by
  unfold kept
  cases tagsResult request <;> rfl

/-- **A replay tags the results that the recording tagged.** -/
theorem tagsResult_eq (request : Request η) : tagsResult request = Recorder.tagsResult request := by
  cases request <;> rfl

theorem noted_eq [Engine ρ η σ] (position : Nat) (call : CallEnd) :
    ∃ notes, s.noted position call = { s with notes } := by
  unfold noted
  split
  · split
    · exact ⟨_, rfl⟩
    · exact ⟨s.notes, rfl⟩
  · exact ⟨s.notes, rfl⟩

theorem rooted_frame (time : Time) (call : CallBegin) :
    (s.rooted time call).engine = s.engine ∧ (s.rooted time call).tags = s.tags ∧
      (s.rooted time call).pending = s.pending ∧ (s.rooted time call).context = s.context := by
  unfold rooted
  split <;> exact ⟨rfl, rfl, rfl, rfl⟩

/-- A call that is as deep as it says is opened on top of all that are open. -/
theorem rooted_frames {time : Time} {call : CallBegin} (deep : call.depth.toNat = s.stack.depth) :
    (s.rooted time call).stack.frames = s.stack.frames := by
  unfold rooted
  split
  · rename_i zero
    rw [zero] at deep
    exact (List.length_eq_zero_iff.1 deep.symm).symm
  · rfl

end Session

theorem TagTable.callOf_named {η : Type} [DecidableEq η] {tags : TagTable η} (issued : tags.Issued)
    {function : η} {args : List (Value η)} {tag : Tag} {recorded : List Recorded}
    (named : Recorder.Named tags function args tag recorded) :
    tags.callOf tag recorded = .ok (function, args) := by
  unfold callOf
  rw [resolve_tagOf issued named.function, decode_encode_all issued named.args]

namespace Host

/-- The open call for which a session has a frame. -/
def ofFrame (frame : Frame ObjectRef) : OpenCall := ⟨frame.begun, frame.callee, frame.args⟩

/-- The session has come to where the host is. -/
structure Shadow (contexts : Option (List Context)) (limit : Nat) (h : Host)
    (s : SandboxSession) : Prop where
  sound : h.recorder.Sound
  engine : Sandbox.Alike contexts h.sandbox s.engine
  entered : ∀ context, s.context = some context → Sandbox.enterable contexts context = true
  tags : s.tags = h.recorder.tags
  pending : s.pending.map Thrown.value = h.thrown
  frames : s.stack.frames.map ofFrame = h.openCalls
  numbered : Numbered s.stack.frames
  reported : h.recorder.openCalls = h.openCalls.map OpenCall.begun
  past : ∀ call ∈ h.openCalls, ∃ last, h.recorder.last = some last ∧ call.begun ≤ last
  shallow : h.openCalls.length ≤ limit
  deep : limit ≤ s.settings.maxDepth

/-- However an event ended, replay can go on, and is where the host is. -/
def Followed (contexts : Option (List Context)) (limit : Nat) (h : Host) :
    EStateM.Result ReplayError SandboxSession Unit → Prop
  | .ok () s => Shadow contexts limit h s
  | .error err s => err.isTerminal = false ∧ Shadow contexts limit h s

section Deeds

variable {contexts : Option (List Context)} {limit : Nat} {h h' : Host} {s s' : SandboxSession}
variable {e : Event} {time : Time} {value : Value ObjectRef} {recorder : Recorder ObjectRef}
variable {context : Context}

/-- An event is later than the begins of the calls that are open. -/
theorem Shadow.later (shadow : Shadow contexts limit h s) (timely : h.recorder.Timely e)
    {call : OpenCall} (isOpen : call ∈ h.openCalls) : call.begun < e.time := by
  obtain ⟨last, isLast, before⟩ := shadow.past call isOpen
  have after := Time.lt_iff.1 (shadow.sound.timed.later timely isLast)
  have before := Time.le_iff.1 before
  exact Time.lt_iff.2 (by omega)

theorem Shadow.depth (shadow : Shadow contexts limit h s) :
    s.stack.depth = h.recorder.openCalls.length := by
  rw [shadow.reported, ← shadow.frames, List.length_map, List.length_map]
  rfl

/-- An event that leaves the calls alone, and does to the session what was done to the host. -/
theorem Shadow.inner (shadow : Shadow contexts limit h s)
    (reported : Recorder.Reported h.recorder recorder e value)
    (openCalls : recorder.openCalls = h.recorder.openCalls) (same : Session.SameCalls s s')
    {sandbox : Sandbox} (engine : Sandbox.Alike contexts sandbox s'.engine)
    (context : s'.context = s.context) (tags : s'.tags = s.tags.trackValue value)
    {thrown : Option (Value ObjectRef)} (pending : s'.pending.map Thrown.value = thrown) :
    Shadow contexts limit ⟨sandbox, recorder, h.openCalls, thrown⟩ s' where
  sound := shadow.sound.reported reported
  engine := engine
  entered := context ▸ shadow.entered
  tags := by rw [tags, reported.tags, shadow.tags]
  pending := pending
  frames := same.stack ▸ shadow.frames
  numbered := same.stack ▸ shadow.numbered
  reported := openCalls.trans shadow.reported
  past _ isOpen := ⟨e.time, reported.last, Time.le_of_lt (shadow.later reported.timely isOpen)⟩
  shallow := shadow.shallow
  deep := same.settings ▸ shadow.deep

/-! ## One lemma for every operation -/

/-- The host has recorded an event, and a session that follows comes to where the host is. -/
def Recorded (contexts : Option (List Context)) (limit : Nat) (context : Context) (h h' : Host)
    (s : SandboxSession) : Prop :=
  ∃ e, e.context = context ∧ h'.recorder.log = h.recorder.log.push e ∧
    ∀ position, Followed contexts limit h' (Session.act position e s)

/-- A request that was answered is recorded, whatever time the event has. -/
theorem Shadow.asked (shadow : Shadow contexts limit h s) {request : Request ObjectRef}
    {result : Value ObjectRef} {sandbox : Sandbox} {action : Action}
    (performed : Sandbox.perform request h.sandbox = .ok result sandbox)
    (encodes : request.encode h.recorder.tags = .ok action)
    (done : Recorder.Reported h.recorder recorder ⟨time, context, action⟩
      (if Recorder.tagsResult request then result else .null))
    (openCalls : recorder.openCalls = h.recorder.openCalls) :
    Recorded contexts limit context h { h with sandbox, recorder } s := by
  refine ⟨⟨time, context, action⟩, rfl, done.events, ?_⟩
  intro position
  have alike : Matched (Sandbox.Alike contexts) Eq Eq (Sandbox.perform request h.sandbox)
      (Engine.perform request s.engine) := (Sandbox.perform_blind request).run shadow.engine
  -- the names in the recorded event lead back to the very request that the host made
  have reads : action.request? s.tags = some (.ok request) := by
    rw [shadow.tags]
    exact Request.request?_encode shadow.sound.issued encodes
  unfold Session.act
  rw [reads]
  dsimp only
  rw [Session.answer_run]
  -- alike sandboxes answer alike, so where the host had an answer the session has the same
  cases answered : Engine.perform request s.engine with
  | error fault engine => rw [performed, answered] at alike; exact alike.elim
  | ok result' engine =>
    rw [performed, answered] at alike
    obtain ⟨rfl, alike⟩ := alike
    dsimp only
    rw [Session.kept_eq, Session.tagsResult_eq]
    apply shadow.inner done openCalls
    · exact ⟨rfl, rfl, rfl⟩
    · exact alike
    · rfl
    · rfl
    · exact shadow.pending

theorem takeException_recorded (shadow : Shadow contexts limit h s)
    (recorded : Recorder.takeException context (.ok h.thrown) h.recorder = .ok time recorder) :
    Recorded contexts limit context h { h with recorder, thrown := none } s := by
  obtain ⟨done, openCalls⟩ := Recorder.takeException_inv recorded
  refine ⟨⟨time, context, .getAndClearException⟩, rfl, done.events, ?_⟩
  intro position
  show Followed contexts limit _ (Session.takeException s)
  rw [Session.takeException_run]
  rw [← shadow.pending] at done
  -- what is pending is the same on both sides, and only its value is in the record
  cases pending : s.pending with
  | none =>
    rw [pending] at done
    exact shadow.inner done openCalls (.refl s) shadow.engine rfl rfl (by rw [pending]; rfl)
  | some thrown =>
    rw [pending] at done
    apply shadow.inner done openCalls
    · exact ⟨rfl, rfl, rfl⟩
    · exact shadow.engine
    · rfl
    · rfl
    · rfl

theorem settled_pending (s : SandboxSession) (outcome : Outcome ObjectRef) :
    (s.settled outcome).pending.map Thrown.value =
      pendingAfter (s.pending.map Thrown.value) outcome := by
  cases outcome <;> rfl

theorem construct_recorded (shadow : Shadow contexts limit h s) {function : ObjectRef}
    {args : List (Value ObjectRef)} {outcome : Outcome ObjectRef} {sandbox : Sandbox}
    (constructed : Sandbox.construct function args h.sandbox = (outcome, sandbox))
    (recorded : Recorder.construct context function args outcome h.recorder = .ok time recorder) :
    Recorded contexts limit context h
      ⟨sandbox, recorder, h.openCalls, pendingAfter h.thrown outcome⟩ s := by
  obtain ⟨tag, recordedArgs, named, done, openCalls⟩ := Recorder.construct_inv recorded
  refine ⟨⟨time, context, .constructCall tag recordedArgs⟩, rfl, done.events, ?_⟩
  intro position
  have made : (Sandbox.construct function args h.sandbox).1 =
      (Engine.construct function args s.engine).1 ∧ Sandbox.Alike contexts
        (Sandbox.construct function args h.sandbox).2
        (Engine.construct function args s.engine).2 :=
    Sandbox.construct_alike shadow.engine function args
  rw [constructed] at made
  obtain ⟨rfl, alike⟩ := made
  have reads : s.tags.callOf tag recordedArgs = .ok (function, args) := by
    rw [shadow.tags]
    exact TagTable.callOf_named shadow.sound.issued named
  show Followed contexts limit _ (Session.construct time tag recordedArgs s)
  rw [Session.construct_run, reads]
  have same := Session.settled_sameCalls (Engine.construct function args s.engine).1
    { s with engine := (Engine.construct function args s.engine).2 }
  obtain ⟨engine, context⟩ := Session.settled_frame
    (s := { s with engine := (Engine.construct function args s.engine).2 })
    (Engine.construct function args s.engine).1
  exact shadow.inner done openCalls ⟨same.stack, same.settings, same.checkpoints⟩
    (engine ▸ alike) context (Session.settled_tags _) (shadow.pending ▸ settled_pending _ _)

theorem callback_recorded (shadow : Shadow contexts limit h s) {cancels repeating : Bool}
    {current id : CallbackId} {function : ObjectRef}
    (recorded : Recorder.callback context cancels repeating current function id h.recorder =
      .ok time recorder) : Recorded contexts limit context h { h with recorder } s := by
  obtain ⟨tag, done, openCalls⟩ := Recorder.callback_inv recorded
  refine ⟨_, rfl, done.events, ?_⟩
  intro position
  apply shadow.inner done openCalls
  · exact ⟨rfl, rfl, rfl⟩
  · exact shadow.engine
  · rfl
  · rfl
  · exact shadow.pending

theorem Followed.begins (shadow : Shadow contexts limit h s) (narrow : limit ≤ UInt32.size)
    (room : h.openCalls.length < limit) {function : ObjectRef} {args : List (Value ObjectRef)}
    {call : CallBegin} (depth : call.depth = UInt32.ofNat h.recorder.openCalls.length)
    (named : Recorder.Named h.recorder.tags function args call.function call.args)
    (done : Recorder.Reported h.recorder recorder ⟨time, context, .callBegin call⟩ .null)
    (openCalls : recorder.openCalls = time :: h.recorder.openCalls) :
    Followed contexts limit ⟨h.sandbox, recorder, ⟨time, function, args⟩ :: h.openCalls, h.thrown⟩
      (Session.beginCall time call s) := by
  have length : h.recorder.openCalls.length = h.openCalls.length := by
    rw [shadow.reported, List.length_map]
  have deep : call.depth.toNat = s.stack.depth := by
    rw [shadow.depth, depth, UInt32.toNat_ofNat', length]
    exact Nat.mod_eq_of_lt (Nat.lt_of_lt_of_le room narrow)
  have reads : s.tags.callOf call.function call.args = .ok (function, args) := by
    rw [shadow.tags]
    exact TagTable.callOf_named shadow.sound.issued named
  obtain ⟨engine, tags, pending, entered⟩ := Session.rooted_frame (s := s) time call
  have frames : (s.rooted time call).stack.frames = s.stack.frames := Session.rooted_frames deep
  have settings := (Session.rooted_settings time call s).1
  have shallow : ¬ s.settings.maxDepth ≤ s.stack.depth := by
    have := shadow.deep
    rw [shadow.depth, length]
    omega
  -- all three checks at the begin of a call pass
  rw [Session.beginCall_run, if_neg (by simp [deep]), if_neg shallow, reads]
  refine ⟨shadow.sound.reported done, engine ▸ shadow.engine, fun c hc => shadow.entered c (entered ▸ hc),
    ?_, ?_, ?_, ?_, ?_, ?_, room, settings ▸ shadow.deep⟩
  · rw [done.tags]
    exact tags.trans shadow.tags
  · rw [← shadow.pending]
    exact congrArg _ pending
  · show _ :: (s.rooted time call).stack.frames.map ofFrame = _
    rw [frames, shadow.frames]
    rfl
  -- the new frame has the number of those below it
  · refine ⟨?_, ?_⟩
    · show call.depth.toNat = (s.rooted time call).stack.frames.length
      rw [frames]
      exact deep
    · show Numbered (s.rooted time call).stack.frames
      rw [frames]
      exact shadow.numbered
  · exact openCalls.trans (congrArg _ shadow.reported)
  -- no open call began after the last event, which is the begin of the innermost
  · intro open_ isOpen
    refine ⟨time, done.last, ?_⟩
    rcases List.mem_cons.1 isOpen with rfl | before
    · exact Time.le_refl time
    · exact Time.le_of_lt (shadow.later done.timely before)

/-- The session after the end of a call, which it has made as the host did. -/
theorem Shadow.called (shadow : Shadow contexts limit h s) {call : OpenCall}
    {openCalls : List OpenCall} (isOpen : h.openCalls = call :: openCalls) {frame : Frame ObjectRef}
    {frames : List (Frame ObjectRef)} (top : s.stack.frames = frame :: frames)
    {outcome : Outcome ObjectRef} {sandbox : Sandbox}
    (made : outcome = (Sandbox.call frame.callee frame.args s.engine).1 ∧
      Sandbox.Alike contexts sandbox (Sandbox.call frame.callee frame.args s.engine).2)
    (done : Recorder.Reported h.recorder recorder e (returned outcome))
    (calls : recorder.openCalls = h.recorder.openCalls.tail) (position : Nat) (ended : CallEnd)
    (ends : OrderedMap Time Time) :
    Shadow contexts limit ⟨sandbox, recorder, openCalls, pendingAfter h.thrown outcome⟩
      (Session.called position ended frame { s with stack := { s.stack with frames, ends } }) := by
  obtain ⟨rfl, alike⟩ := made
  let inside : SandboxSession := { s with
    stack := { s.stack with frames, ends }
    engine := (Sandbox.call frame.callee frame.args s.engine).2 }
  let outcome := (Sandbox.call frame.callee frame.args s.engine).1
  obtain ⟨notes, noted⟩ := Session.noted_eq (s := inside.settled outcome) position ended
  have same := Session.settled_sameCalls outcome inside
  obtain ⟨engine, entered⟩ := Session.settled_frame (s := inside) outcome
  -- the innermost frame is the call that the host ends; below it nothing changes
  have open_ := shadow.frames
  rw [top, isOpen] at open_
  have below : frames.map ofFrame = openCalls := (List.cons.inj open_).2
  have reported := shadow.reported
  rw [isOpen] at reported
  show Shadow contexts limit _ ((inside.settled outcome).noted position ended)
  rw [noted]
  refine ⟨shadow.sound.reported done, ?_, ?_, ?_, ?_, ?_, ?_, ?_, ?_, ?_, ?_⟩
  · show Sandbox.Alike contexts sandbox (inside.settled outcome).engine
    rw [engine]
    exact alike
  · exact fun c hc => shadow.entered c (entered ▸ hc)
  · show (inside.settled outcome).tags = recorder.tags
    rw [Session.settled_tags, done.tags, ← shadow.tags]
  · rw [← shadow.pending]
    exact settled_pending inside outcome
  · show (inside.settled outcome).stack.frames.map ofFrame = openCalls
    rw [same.stack]
    exact below
  · have numbered := shadow.numbered
    rw [top] at numbered
    show Numbered (inside.settled outcome).stack.frames
    rw [same.stack]
    exact numbered.2
  · show recorder.openCalls = openCalls.map OpenCall.begun
    rw [calls, reported]
    rfl
  · intro open_ below
    have before := shadow.later done.timely (isOpen ▸ List.mem_cons_of_mem _ below)
    exact ⟨e.time, done.last, Time.le_of_lt before⟩
  · have shallow := shadow.shallow
    rw [isOpen] at shallow
    exact Nat.le_of_succ_le shallow
  · show limit ≤ (inside.settled outcome).settings.maxDepth
    rw [same.settings]
    exact shadow.deep

theorem Followed.ends (shadow : Shadow contexts limit h s) {call : OpenCall}
    {openCalls : List OpenCall} (isOpen : h.openCalls = call :: openCalls) {ended : CallEnd}
    {outcome : Outcome ObjectRef} {sandbox : Sandbox}
    (called : Sandbox.call call.function call.args h.sandbox = (outcome, sandbox))
    (begun : ended.begun = call.begun)
    (depth : ended.depth = UInt32.ofNat (h.recorder.openCalls.length - 1))
    (raised : ended.raised = threw outcome)
    (done : Recorder.Reported h.recorder recorder ⟨time, context, .callEnd ended⟩
      (returned outcome))
    (calls : recorder.openCalls = h.recorder.openCalls.tail) (position : Nat) :
    Followed contexts limit ⟨sandbox, recorder, openCalls, pendingAfter h.thrown outcome⟩
      (Session.endCall position time ended s) := by
  have frames := shadow.frames
  rw [isOpen] at frames
  obtain ⟨frame, below, top, rfl, -⟩ := List.map_eq_cons_iff.1 frames
  -- the call that the host ends is the one on top, so the stack lets it go
  have popped : Session.popCall time ended s = .ok frame { s with
      stack := { s.stack with frames := below, ends := s.stack.ends.insert ended.begun time } } := by
    have later : ¬ time ≤ ended.begun := by
      rw [Time.not_le, begun]
      exact shadow.later done.timely (isOpen ▸ List.mem_cons_self)
    have numbered : frame.depth = ended.depth := by
      have number := shadow.numbered
      rw [top] at number
      have length := shadow.depth
      unfold CallStack.depth at length
      rw [top] at length
      rw [depth, ← length, List.length_cons, Nat.add_sub_cancel, ← number.1, UInt32.ofNat_toNat]
    rw [Session.popCall_run, top]
    dsimp only
    rw [if_neg, if_neg (not_not_intro numbered)]
    rintro (other | early)
    · exact other begun.symm
    · exact later early
  have made : (Sandbox.call frame.callee frame.args h.sandbox).1 =
      (Sandbox.call frame.callee frame.args s.engine).1 ∧ Sandbox.Alike contexts
        (Sandbox.call frame.callee frame.args h.sandbox).2
        (Sandbox.call frame.callee frame.args s.engine).2 :=
    Sandbox.call_alike shadow.engine frame.callee frame.args
  rw [show Sandbox.call frame.callee frame.args h.sandbox = _ from called] at made
  have final := shadow.called isOpen top made done calls position ended
    (s.stack.ends.insert ended.begun time)
  rw [Session.endCall_run, popped]
  dsimp only
  rw [if_neg]
  · split
    · exact ⟨rfl, final⟩
    · exact final
  · -- both called the same function alike, so an exception verifies
    rintro ⟨differs, -⟩
    exact differs (raised.trans (congrArg threw made.1))

/-! ## Deeds -/

/-- **What a host does is recorded as one event that replay follows, or nothing has happened.** -/
theorem Shadow.perform (shadow : Shadow contexts limit h s) (narrow : limit ≤ UInt32.size)
    {operation : Operation} (done : h.perform limit context operation = .ok h') :
    h' = h ∨ Recorded contexts limit context h h' s := by
  cases performed_of_perform done with
  | unanswered request failed =>
    -- a request that is not answered has changed nothing
    obtain rfl := Sandbox.perform_atomic request h.sandbox _ _ failed
    exact Or.inl rfl
  | ask request answered recorded =>
    obtain ⟨action, encodes, took, openCalls⟩ := Recorder.request_inv recorded
    exact Or.inr (shadow.asked answered encodes took openCalls)
  | takeException recorded => exact Or.inr (takeException_recorded shadow recorded)
  | construct function args constructed recorded =>
    exact Or.inr (construct_recorded shadow constructed recorded)
  | callback cancels repeating current function id recorded =>
    exact Or.inr (callback_recorded shadow recorded)
  | beginCall function args callback wallTime name room recorded =>
    obtain ⟨call, depth, named, took, calls⟩ := Recorder.beginCall_inv recorded
    refine Or.inr ⟨_, rfl, took.events, ?_⟩
    intro position
    rw [Session.act_callBegin rfl]
    exact .begins shadow narrow room depth named took calls
  | endCall wallTime isOpen called recorded =>
    obtain ⟨ended, begun, depth, raised, took, calls⟩ := Recorder.endCall_inv recorded
    refine Or.inr ⟨_, rfl, took.events, ?_⟩
    intro position
    rw [Session.act_callEnd rfl]
    exact .ends shadow isOpen called begun depth raised took calls position

/-- Which context is current tells host and session apart as little as two sandboxes. -/
theorem Shadow.enterHost (shadow : Shadow contexts limit h s) {sandbox : Sandbox}
    (entered : Sandbox.enter context h.sandbox = .ok () sandbox) :
    Sandbox.enterable contexts context = true ∧ Shadow contexts limit { h with sandbox } s := by
  rw [Sandbox.enter_run] at entered
  by_cases may : Sandbox.enterable h.sandbox.contexts context = true
  · rw [if_pos may] at entered
    obtain rfl := (EStateM.Result.ok.inj entered).2
    exact ⟨shadow.engine.left ▸ may, { shadow with engine := { shadow.engine with } }⟩
  · rw [if_neg may] at entered
    exact absurd entered (by simp)

theorem Shadow.enterSession (shadow : Shadow contexts limit h s)
    (may : Sandbox.enterable contexts context = true) :
    ∃ s', (∀ time, Session.enter time context s = .ok () s') ∧ Shadow contexts limit h s' := by
  by_cases there : s.context = some context
  · refine ⟨s, fun time => ?_, shadow⟩
    rw [Session.enter_run, if_pos there]
  · -- the engine has to be asked, and cannot refuse what it let the host do
    have opened : Engine.enter context s.engine =
        .ok () { s.engine with current := some context } := by
      show Sandbox.enter context s.engine = _
      rw [Sandbox.enter_run, if_pos (shadow.engine.right ▸ may)]
    refine ⟨{ s with
      engine := { s.engine with current := some context }
      context := some context }, fun time => ?_, ?_⟩
    · rw [Session.enter_run, if_neg there, opened]
    · exact { shadow with
        engine := { shadow.engine with }
        entered := fun c hc => Option.some.inj hc ▸ may }

/-- What is recorded in a context is followed there, if the host could enter it. -/
theorem Shadow.within (shadow : Shadow contexts limit h s) {sandbox : Sandbox}
    (entered : Sandbox.enter context h.sandbox = .ok () sandbox)
    (recorded : ∀ s', Shadow contexts limit { h with sandbox } s' →
      Recorded contexts limit context { h with sandbox } h' s') :
    ∃ e, h'.recorder.log = h.recorder.log.push e ∧
      ∀ position, Followed contexts limit h' (Session.execute position e s) := by
  obtain ⟨may, host⟩ := shadow.enterHost entered
  obtain ⟨s', there, session⟩ := host.enterSession may
  obtain ⟨e, rfl, pushed, follows⟩ := recorded s' session
  refine ⟨e, pushed, fun position => ?_⟩
  rw [Session.execute_run, there]
  exact follows position

/-- **Whatever a host does, replay follows.** -/
theorem Shadow.step (shadow : Shadow contexts limit h s) (narrow : limit ≤ UInt32.size)
    {deed : Deed} (done : step limit h deed = .ok h') :
    (h'.recorder = h.recorder ∧ Shadow contexts limit h' s) ∨
      ∃ e, h'.recorder.log = h.recorder.log.push e ∧
        ∀ position, Followed contexts limit h' (Session.execute position e s) := by
  unfold Host.step at done
  cases entered : Sandbox.enter deed.context h.sandbox with
  | error fault sandbox =>
    rw [entered] at done
    obtain rfl := Except.ok.inj done
    exact Or.inl ⟨rfl, shadow⟩
  | ok _ sandbox =>
    rw [entered] at done
    by_cases same : h' = { h with sandbox }
    · obtain rfl := same
      exact Or.inl ⟨rfl, (shadow.enterHost entered).2⟩
    · exact Or.inr (shadow.within entered fun s' session =>
        (session.perform narrow done).resolve_left same)

theorem start_shadow (contexts : Option (List Context)) (keepsNames : Bool) {limit : Nat}
    {settings : Settings} (deep : limit ≤ settings.maxDepth) :
    Shadow contexts limit (start contexts keepsNames)
      (.start (.fresh contexts) settings .empty) where
  sound := Recorder.start_sound keepsNames
  engine := ⟨rfl, rfl, rfl⟩
  entered _ known := absurd known (by simp [Session.start])
  tags := rfl
  pending := rfl
  frames := rfl
  numbered := trivial
  reported := rfl
  past _ isOpen := absurd isOpen (by simp [start])
  shallow := Nat.zero_le _
  deep := deep

end Deeds

end Host
end Retrace
