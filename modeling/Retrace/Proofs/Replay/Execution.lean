import Retrace.Proofs.Runs
import Retrace.Replay.Execution

/-!
# What replaying one event does

`Session.execute` is a program over several layers of steps. Here each layer gets *one* equation
that says all it can do, guards and errors included, and everything said about a replay later is
read off these equations. No other module opens the definitions below them.

Two kinds of events change which calls are open. Of all the others `act_inner` says in one sentence
what the rest of the theory needs: they leave the calls, the settings and the checkpoints alone, and
if they fail, then by an error that is not about the structure of the log. Of these only operations
on callbacks do more than operate on the engine (`act_operated`).
-/

namespace Retrace

/-- The function and the arguments of a recorded call, read through the tags. -/
def TagTable.callOf {η : Type} (tags : TagTable η) (function : Tag) (args : List Recorded) :
    Except NamingError (η × List (Value η)) :=
  match tags.resolve function with
  | .error e => .error e
  | .ok callee =>
    match args.mapM (Value.decode tags) with
    | .error e => .error e
    | .ok args => .ok (callee, args)

/-- Errors of a single operation: what it names is unknown, or the engine refuses. -/
def ReplayError.IsOperational : ReplayError → Prop
  | .unresolvedTag .. | .unknownContext .. | .executionFailure .. => True
  | _ => False

theorem ReplayError.IsOperational.terminal {e : ReplayError} (h : e.IsOperational) :
    e.isTerminal = true := by
  cases e <;> first | rfl | exact h.elim

/-- Whether a call threw. -/
def threw {η : Type} : Outcome η → Bool
  | .ok _ => false
  | .error _ => true

/-! ## Reading through the tags -/

section Reading

variable {η : Type} {tags : TagTable η}

theorem TagTable.resolve_error {tag : Tag} {e : NamingError} (h : tags.resolve tag = .error e) :
    e = .unresolved tag := by
  unfold TagTable.resolve at h
  split at h
  · exact absurd h (by simp)
  · exact (Except.error.inj h).symm

theorem Value.decode_error {v : Recorded} {e : NamingError} (h : v.decode tags = .error e) :
    ∃ tag, e = .unresolved tag := by
  cases v with
  | ref tag =>
    simp only [Value.decode, Value.traverse] at h
    cases hr : tags.resolve tag with
    | ok handle => rw [hr] at h; exact absurd h (by simp [Except.map])
    | error e' =>
      rw [hr] at h
      exact ⟨tag, (Except.error.inj h).symm.trans (TagTable.resolve_error hr)⟩
  | _ => exact absurd h (by simp [Value.decode, Value.traverse])

theorem mapM_decode_error {args : List Recorded} {e : NamingError}
    (h : args.mapM (Value.decode tags) = .error e) : ∃ tag, e = .unresolved tag := by
  induction args with
  | nil => exact absurd h (by simp [pure, Except.pure])
  | cons v vs ih =>
    rw [List.mapM_cons] at h
    cases hv : v.decode tags with
    | error e' =>
      rw [hv] at h
      obtain ⟨tag, rfl⟩ := Value.decode_error hv
      exact ⟨tag, (Except.error.inj h).symm⟩
    | ok a =>
      rw [hv] at h
      cases hvs : vs.mapM (Value.decode tags) with
      | error e' => rw [hvs] at h; exact ih (hvs.trans (congrArg _ (Except.error.inj h)))
      | ok as => rw [hvs] at h; exact absurd h (by simp [bind, Except.bind, pure, Except.pure])

theorem TagTable.callOf_error {function : Tag} {args : List Recorded} {e : NamingError}
    (h : tags.callOf function args = .error e) : ∃ tag, e = .unresolved tag := by
  unfold TagTable.callOf at h
  cases hf : tags.resolve function with
  | error e' =>
    rw [hf] at h
    exact ⟨function, (Except.error.inj h).symm.trans (TagTable.resolve_error hf)⟩
  | ok callee =>
    cases ha : args.mapM (Value.decode tags) with
    | error e' =>
      rw [hf, ha] at h
      obtain ⟨tag, rfl⟩ := mapM_decode_error ha
      exact ⟨tag, (Except.error.inj h).symm⟩
    | ok as => rw [hf, ha] at h; exact absurd h (by simp)

/-- A request cannot be read off an action for two reasons only. -/
def RequestError.IsReading : RequestError → Prop
  | .naming (.unresolved _) | .notAnObject _ => True
  | _ => False

theorem RequestError.IsReading.operational {time : Time} {kind : Kind} {e : RequestError}
    (h : e.IsReading) : (ReplayError.ofRequest time kind e).IsOperational := by
  cases e with
  | naming error => cases error <;> first | exact h.elim | exact trivial
  | notAnObject found => exact trivial

/-- All errors of a computation are of a kind. -/
def Fails {ε α : Type} (P : ε → Prop) (x : Except ε α) : Prop := ∀ e, x = .error e → P e

theorem Fails.bind {ε α β : Type} {P : ε → Prop} {x : Except ε α} {f : α → Except ε β}
    (hx : Fails P x) (hf : ∀ a, Fails P (f a)) : Fails P (x >>= f) := by
  cases x with
  | ok a => exact hf a
  | error e => exact fun e' h => hx e' (congrArg _ (Except.error.inj h))

theorem Fails.pure {ε α : Type} {P : ε → Prop} (a : α) : Fails P (pure a : Except ε α) :=
  fun _ h => absurd h (by simp [Pure.pure, Except.pure])

theorem TagTable.value_fails (tags : TagTable η) (v : Recorded) :
    Fails RequestError.IsReading (tags.value v) := by
  intro e h
  unfold TagTable.value at h
  cases hd : v.decode tags with
  | ok a =>
    rw [hd] at h
    have h : (.ok a : Except RequestError (Value η)) = .error e := h
    exact absurd h (by simp)
  | error e' =>
    rw [hd] at h
    obtain ⟨tag, rfl⟩ := Value.decode_error hd
    exact Except.error.inj h ▸ trivial

theorem TagTable.object_fails (tags : TagTable η) (v : Recorded) :
    Fails RequestError.IsReading (tags.object v) := by
  refine (tags.value_fails v).bind ?_
  intro a
  cases a with
  | ref handle => exact Fails.pure handle
  | _ => exact fun e h => Except.error.inj h ▸ trivial

theorem Action.request?_fails {a : Action} {r : Except RequestError (Request η)}
    (h : a.request? tags = some r) : Fails RequestError.IsReading r := by
  have value := tags.value_fails
  have object := tags.object_fails
  have done {r : Request η} : Fails RequestError.IsReading (pure r : Except _ _) := Fails.pure r
  cases a with
  | getAndClearException | constructCall | callbackOp | callBegin | callEnd =>
    exact absurd h (by simp [Action.request?])
  | allocateObject | allocateArray | allocateArrayBuffer | codeParse => cases h; exact done
  | convertToObject v | createSymbol v => cases h; exact (value v).bind fun _ => done
  | allocateFunction name =>
    cases name with
    | none => cases h; exact done
    | some v => cases h; exact (value v).bind fun _ => done
  | getProperty _ v | getOwnPropertyInfo _ v | getOwnPropertiesInfo _ v | deleteProperty v _ _
  | getTypedArrayInfo _ v => cases h; exact (object v).bind fun _ => done
  | getIndex w v | defineProperty v _ w | setPrototype v w | setProperty v _ w _ =>
    cases h; exact (object v).bind fun _ => (value w).bind fun _ => done
  | setIndex v w u =>
    cases h; exact (object v).bind fun _ => (value w).bind fun _ => (value u).bind fun _ => done

end Reading

namespace Session

variable {ρ η σ : Type}

/-! ## Reading and calling, without the engine -/

theorem named_run {α : Type} (time : Time) (find : TagTable η → Except NamingError α)
    (s : Session ρ η σ) : named time find s = match find s.tags with
      | .ok a => .ok a s
      | .error e => .error (.ofNaming time e) s := by
  simp only [named, bind_run, get_run]
  cases find s.tags <;> rfl

theorem callOf_run (time : Time) (function : Tag) (args : List Recorded) (s : Session ρ η σ) :
    callOf time function args s = match s.tags.callOf function args with
      | .ok call => .ok call s
      | .error e => .error (.ofNaming time e) s := by
  simp only [callOf, TagTable.callOf, bind_run, named_run]
  cases s.tags.resolve function with
  | error e => rfl
  | ok callee =>
    dsimp only
    cases args.mapM (Value.decode s.tags) <;> rfl

/-- The session in which a call is opened: a root call leaves no other call open, and may be the
    run of a callback. -/
def rooted (time : Time) (call : CallBegin) (s : Session ρ η σ) : Session ρ η σ :=
  if call.depth = 0 then
    { s with
      stack := s.stack.startRoot time call.callback
      callbacks := (s.callbacks.onRootCall call.callback).2 }
  else s

theorem beginCall_run (time : Time) (call : CallBegin) (s : Session ρ η σ) :
    beginCall time call s =
      if call.depth.toNat ≠ s.stack.depth then
        .error (.depthMismatch time call.depth s.stack.depth) s
      else if s.settings.maxDepth ≤ s.stack.depth then
        .error (.callDepthExceeded time s.settings.maxDepth) s
      else match s.tags.callOf call.function call.args with
        | .error e => .error (.ofNaming time e) (s.rooted time call)
        | .ok (callee, args) =>
          .ok () { s.rooted time call with
            stack := (s.rooted time call).stack.push
              ⟨time, call.depth, call.function, call.callback, callee, args⟩ } := by
  simp only [beginCall, bind_run, get_run]
  by_cases hd : call.depth.toNat = s.stack.depth
  · by_cases hm : s.settings.maxDepth ≤ s.stack.depth
    · simp [hd, hm]
    · simp only [hd, hm, rooted, ne_eq, not_true_eq_false, if_false]
      split
      all_goals
        simp only [bind_run, modify_run, callOf_run]
        cases s.tags.callOf call.function call.args <;> rfl
  · simp [hd]

theorem popCall_run (time : Time) (call : CallEnd) (s : Session ρ η σ) :
    popCall time call s = match s.stack.frames with
      | [] => .error (.callMismatch time call.begun none) s
      | frame :: frames =>
        if frame.begun ≠ call.begun ∨ time ≤ call.begun then
          .error (.callMismatch time call.begun (some frame.begun)) s
        else if frame.depth ≠ call.depth then
          .error (.depthMismatch time call.depth frame.depth.toNat)
            { s with stack := { s.stack with frames } }
        else .ok frame { s with
          stack := { s.stack with frames, ends := s.stack.ends.insert call.begun time } } := by
  simp only [popCall, CallStack.popMatching]
  cases s.stack.frames with
  | nil => rfl
  | cons frame frames =>
    by_cases hb : frame.begun ≠ call.begun ∨ time ≤ call.begun
    · simp [hb]
    · by_cases hd : frame.depth = call.depth
      · simp [hb, hd]
      · simp [hb, hd]

/-- What is done with the outcome of a call: a returned reference is tagged, a thrown value is kept
    until it is taken. -/
def settled [DecidableEq η] (outcome : Outcome η) (s : Session ρ η σ) : Session ρ η σ :=
  match outcome with
  | .ok value => { s with tags := s.tags.trackValue value }
  | .error thrown => { s with pending := some thrown }

theorem settle_run [DecidableEq η] (outcome : Outcome η) (s : Session ρ η σ) :
    settle outcome s = .ok (threw outcome) (s.settled outcome) := by
  cases outcome <;> rfl

theorem invoke_run (m : StateM ρ (Outcome η)) (s : Session ρ η σ) :
    invoke m s = .ok (m s.engine).1 { s with engine := (m s.engine).2 } := rfl

/-- What is done with the result of a request: a reference in it is tagged, if results of such
    requests are. -/
def kept [DecidableEq η] (request : Request η) (result : Value η) (s : Session ρ η σ) :
    Session ρ η σ :=
  if tagsResult request then { s with tags := s.tags.trackValue result } else s

theorem takeException_run [DecidableEq η] (s : Session ρ η σ) :
    takeException s = .ok () (match s.pending with
      | some thrown => { s with pending := none, tags := s.tags.trackValue thrown.value }
      | none => s) := by
  simp only [takeException, bind_run, get_run]
  cases s.pending <;> rfl

/-- Two sessions agree in what the calls of a log decide: which are open, how deep they may go, and
    where their checkpoints are. -/
structure SameCalls (s s' : Session ρ η σ) : Prop where
  stack : s'.stack = s.stack
  settings : s'.settings = s.settings
  checkpoints : s'.notes.checkpoints = s.notes.checkpoints

theorem SameCalls.refl (s : Session ρ η σ) : SameCalls s s := ⟨rfl, rfl, rfl⟩

theorem SameCalls.trans {s t u : Session ρ η σ} (h : SameCalls s t) (h' : SameCalls t u) :
    SameCalls s u :=
  ⟨h'.stack.trans h.stack, h'.settings.trans h.settings, h'.checkpoints.trans h.checkpoints⟩

/-- Of what a session keeps beside its engine only the tags, the pending callbacks, what was thrown
    and the context may differ. -/
structure OnlyOperated (s s' : Session ρ η σ) : Prop where
  stack : s'.stack = s.stack
  settings : s'.settings = s.settings
  notes : s'.notes = s.notes

theorem OnlyOperated.refl (s : Session ρ η σ) : OnlyOperated s s := ⟨rfl, rfl, rfl⟩

theorem OnlyOperated.sameCalls {s s' : Session ρ η σ} (h : OnlyOperated s s') : SameCalls s s' :=
  ⟨h.stack, h.settings, congrArg Notes.checkpoints h.notes⟩

theorem settled_onlyOperated [DecidableEq η] (outcome : Outcome η) (s : Session ρ η σ) :
    OnlyOperated s (s.settled outcome) := by
  cases outcome <;> exact ⟨rfl, rfl, rfl⟩

theorem settled_sameCalls [DecidableEq η] (outcome : Outcome η) (s : Session ρ η σ) :
    SameCalls s (s.settled outcome) := (settled_onlyOperated outcome s).sameCalls

/-- A step did no more than operate on the engine, and if it failed, then as an operation fails. -/
def Operated (s : Session ρ η σ) : EStateM.Result ReplayError (Session ρ η σ) Unit → Prop
  | .ok () s' => OnlyOperated s s'
  | .error err s' => OnlyOperated s s' ∧ err.IsOperational

/-- A step left the calls alone, and if it failed, then as a single operation fails. -/
def Inner (s : Session ρ η σ) : EStateM.Result ReplayError (Session ρ η σ) Unit → Prop
  | .ok () s' => SameCalls s s'
  | .error err s' => SameCalls s s' ∧ err.IsOperational

/-! ## Letting the engine do something -/

variable [Engine ρ η σ]

theorem enter_run (time : Time) (context : Context) (s : Session ρ η σ) :
    enter time context s =
      if s.context = some context then .ok () s
      else match Engine.enter context s.engine with
        | .ok () engine => .ok () { s with engine, context := some context }
        | .error fault engine => .error (.unknownContext time context fault) { s with engine } := by
  simp only [enter, bind_run, get_run]
  by_cases h : s.context = some context
  · simp [h]
  · simp only [ne_eq, h, not_false_eq_true, if_true, if_false, bind_run, operate]
    cases Engine.enter context s.engine <;> rfl

/-- The session with the engine's last statement noted for the end of a root call. -/
def noted (position : Nat) (call : CallEnd) (s : Session ρ η σ) : Session ρ η σ :=
  if call.depth = 0 then
    match Engine.lastStatement? s.engine with
    | some statement => { s with notes := s.notes.addStatement position statement }
    | none => s
  else s

theorem applyCallback_run (position : Nat) (time : Time) (op : CallbackOp) (s : Session ρ η σ) :
    applyCallback position time op s = .ok () { s with
      callbacks := s.callbacks.apply time op
      notes := s.notes.addPlace position
        ⟨s.stack.root, time, Engine.lastStatement? s.engine⟩ } := rfl

theorem enter_inner (time : Time) (context : Context) (s : Session ρ η σ) :
    Inner s (enter time context s) := by
  rw [enter_run]
  split
  · exact .refl s
  · cases Engine.enter context s.engine with
    | ok u engine => exact ⟨rfl, rfl, rfl⟩
    | error fault engine => exact ⟨⟨rfl, rfl, rfl⟩, trivial⟩

theorem noted_sameCalls (position : Nat) (call : CallEnd) (s : Session ρ η σ) :
    SameCalls s (s.noted position call) := by
  unfold noted
  split
  · split <;> exact ⟨rfl, rfl, rfl⟩
  · exact .refl s

variable [DecidableEq η]

/-- The session after the call of a frame, its outcome settled and the statement noted. -/
def called (position : Nat) (call : CallEnd) (frame : Frame η)
    (s : Session ρ η σ) : Session ρ η σ :=
  let made := Engine.call frame.callee frame.args s.engine
  ({ s with engine := made.2 }.settled made.1).noted position call

theorem endCall_run (position : Nat) (time : Time) (call : CallEnd)
    (s : Session ρ η σ) :
    endCall position time call s = match popCall time call s with
      | .error e s' => .error e s'
      | .ok frame s' =>
        let replayed := threw (Engine.call frame.callee frame.args s'.engine).1
        if call.raised ≠ replayed ∧ s'.settings.verifyExceptions then
          .error (.exceptionDivergence time call.raised replayed) (s'.called position call frame)
        else if call.depth = 0 ∧ call.raised then
          .error (.uncaughtException frame.begun time call.terminatingException)
            (s'.called position call frame)
        else .ok () (s'.called position call frame) := by
  simp only [endCall, bind_run]
  cases popCall time call s with
  | error e s' => rfl
  | ok frame s' =>
    dsimp only
    rw [invoke_run]
    simp only [settle_run, called]
    generalize Engine.call frame.callee frame.args s'.engine = made
    have hset : ({ s' with engine := made.2 }.settled made.1).settings = s'.settings := by
      cases made.1 <;> rfl
    generalize ({ s' with engine := made.2 }.settled made.1) = t at hset ⊢
    rw [← hset]
    -- the last statement is noted or not, and each of the two checks fails or passes
    unfold noted
    cases threw made.1 <;> cases hv : t.settings.verifyExceptions <;> cases call.raised <;>
      by_cases hz : call.depth = 0 <;> cases hl : Engine.lastStatement? t.engine <;>
      simp [hz, hv, hl]

theorem answer_run (time : Time) (request : Request η) (s : Session ρ η σ) :
    answer time request s = match Engine.perform request s.engine with
      | .ok result engine => .ok () ({ s with engine }.kept request result)
      | .error fault engine => .error (.executionFailure time request.kind fault) { s with engine } := by
  simp only [answer, operate, bind_run]
  cases Engine.perform request s.engine with
  | error fault engine => rfl
  | ok result engine => unfold kept; dsimp only; split <;> rfl

theorem construct_run (time : Time) (function : Tag) (args : List Recorded)
    (s : Session ρ η σ) :
    construct time function args s = match s.tags.callOf function args with
      | .error e => .error (.ofNaming time e) s
      | .ok (callee, args) =>
        let made := Engine.construct callee args s.engine
        .ok () ({ s with engine := made.2 }.settled made.1) := by
  simp only [construct, bind_run, callOf_run]
  cases s.tags.callOf function args with
  | error e => rfl
  | ok call =>
    dsimp only
    rw [invoke_run]
    simp only [settle_run, pure_run]

/-! ## One event -/

/-- What replaying an event does once its context is entered. -/
def act (position : Nat) (e : Event) : SessionM ρ η σ Unit := fun s =>
  match e.action.request? s.tags with
  | some (.ok request) => answer e.time request s
  | some (.error error) => .error (.ofRequest e.time e.kind error) s
  | none =>
    match e.action with
    | .getAndClearException => takeException s
    | .constructCall function args => construct e.time function args s
    | .callbackOp op => applyCallback position e.time op s
    | .callBegin call => beginCall e.time call s
    | .callEnd call => endCall position e.time call s
    | _ => .ok () s

theorem execute_run (position : Nat) (e : Event) (s : Session ρ η σ) :
    execute position e s = match enter e.time e.context s with
      | .error err s' => .error err s'
      | .ok () s' => act position e s' := by
  simp only [execute, bind_run, get_run]
  cases enter e.time e.context s with
  | error err s' => rfl
  | ok u s' =>
    simp only [act]
    cases e.action.request? s'.tags with
    | some r => cases r <;> rfl
    | none => cases e.action <;> rfl

/-! ## What leaves the calls alone -/

theorem called_sameCalls (position : Nat) (call : CallEnd) (frame : Frame η)
    (s : Session ρ η σ) : SameCalls s (s.called position call frame) :=
  let made := Engine.call frame.callee frame.args s.engine
  have engine : SameCalls s { s with engine := made.2 } := ⟨rfl, rfl, rfl⟩
  (engine.trans (settled_sameCalls made.1 _)).trans (noted_sameCalls position call _)

/-- An event that is neither of a call nor of a callback operates on the engine only. -/
theorem act_operated {position : Nat} {e : Event} (hbegin : e.callBegin? = none)
    (hend : e.callEnd? = none) (other : ∀ op, e.action ≠ .callbackOp op) (s : Session ρ η σ) :
    Operated s (act position e s) := by
  unfold act
  cases hr : e.action.request? s.tags with
  | some r =>
    cases r with
    | error error => exact ⟨.refl s, (Action.request?_fails hr error rfl).operational⟩
    | ok request =>
      dsimp only
      rw [answer_run]
      cases Engine.perform request s.engine with
      | error fault engine => exact ⟨⟨rfl, rfl, rfl⟩, trivial⟩
      | ok result engine => unfold kept; dsimp only; split <;> exact ⟨rfl, rfl, rfl⟩
  | none =>
    cases ha : e.action with
    | callBegin call => exact absurd hbegin (by simp [Event.callBegin?, ha])
    | callEnd call => exact absurd hend (by simp [Event.callEnd?, ha])
    | callbackOp op => exact absurd ha (other op)
    | getAndClearException =>
      dsimp only
      rw [takeException_run]
      cases s.pending <;> exact ⟨rfl, rfl, rfl⟩
    | constructCall function args =>
      dsimp only
      rw [construct_run]
      cases hc : s.tags.callOf function args with
      | error error =>
        obtain ⟨tag, rfl⟩ := TagTable.callOf_error hc
        exact ⟨.refl s, trivial⟩
      | ok call =>
        let made := Engine.construct call.1 call.2 s.engine
        have settled := settled_onlyOperated made.1 { s with engine := made.2 }
        exact ⟨settled.stack, settled.settings, settled.notes⟩
    | _ => exact .refl s

theorem act_callbackOp {position : Nat} {e : Event} {op : CallbackOp}
    (action : e.action = .callbackOp op) (s : Session ρ η σ) :
    act position e s = applyCallback position e.time op s := by
  simp only [act, action, Action.request?]

/-- An event that neither begins nor ends a call leaves the calls alone. -/
theorem act_inner {position : Nat} {e : Event} (hbegin : e.callBegin? = none)
    (hend : e.callEnd? = none) (s : Session ρ η σ) : Inner s (act position e s) := by
  by_cases operation : ∃ op, e.action = .callbackOp op
  · obtain ⟨op, action⟩ := operation
    rw [act_callbackOp action]
    exact ⟨rfl, rfl, rfl⟩
  have operated : Operated s (act position e s) :=
    act_operated hbegin hend (fun op action => operation ⟨op, action⟩) s
  cases ha : act position e s with
  | ok u t => rw [ha] at operated; exact operated.sameCalls
  | error err t => rw [ha] at operated; exact ⟨operated.1.sameCalls, operated.2⟩

end Session

end Retrace
