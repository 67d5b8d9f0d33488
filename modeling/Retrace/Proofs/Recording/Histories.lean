import Retrace.Proofs.Recording.Reports
import Retrace.Proofs.Replay.Calls

/-!
# Histories of a recorder

A `Report` is anything that a recorder can be told: by a host what it did with an engine, or by
whoever has one an event that is finished, with a time of its own. A recorder may be told anything
at any time, so what holds of every history is shown of a single report.

And a single report does little. Either it is refused, and nothing has changed (`record_refused`);
or it puts one event behind the log (`record_taken`). That event is later than all before it: either
the clock gave it its time, or its time was compared with the last. It leaves calls open as an
event of its kind has to (`Event.Leaves`). What was not handed over finished also says how deep it
stands, as far as 32 bits can.
-/

namespace Retrace

/-- Which calls an event leaves open, innermost first, where these calls are open before it. -/
inductive Event.Leaves (e : Event) (calls : List Time) : List Time → Prop
  | inner (noBegin : e.callBegin? = none) (noEnd : e.callEnd? = none) : e.Leaves calls calls
  | begins (call : CallBegin) (action : e.action = .callBegin call) :
      e.Leaves calls (e.time :: calls)
  | ends (call : CallEnd) (action : e.action = .callEnd call) (around : List Time)
      (innermost : calls = call.begun :: around) : e.Leaves calls around

theorem Event.Leaves.eq_of_no_call {e : Event} {calls calls' : List Time}
    (leaves : e.Leaves calls calls') (none : e.callBegin? = none ∧ e.callEnd? = none) :
    calls' = calls := by
  cases leaves with
  | inner => rfl
  | begins call action => exact absurd (Event.callBegin?_eq_some.2 action) (by simp [none.1])
  | ends call action => exact absurd (Event.callEnd?_eq_some.2 action) (by simp [none.2])

/-- If the event begins or ends a call, it says that the call has so many others around it. -/
structure Event.Within (e : Event) (around : Nat) : Prop where
  begins : ∀ call, e.action = .callBegin call → call.depth = UInt32.ofNat around
  ends : ∀ call, e.action = .callEnd call → call.depth = UInt32.ofNat (around - 1)

/-- The action of a request is of the request's kind. -/
theorem Request.kind_encode {η : Type} [DecidableEq η] {tags : TagTable η} {request : Request η}
    {action : Action} (encodes : request.encode tags = .ok action) : action.kind = request.kind := by
  cases request with
  | createObject | createArray | createArrayBuffer | loadScript =>
    obtain rfl := ok_of_pure_ok encodes
    rfl
  | createFunction name =>
    cases name with
    | none =>
      obtain rfl := ok_of_pure_ok encodes
      rfl
    | some v =>
      obtain ⟨_, -, encodes⟩ := ok_of_bind_ok encodes
      obtain rfl := ok_of_pure_ok encodes
      rfl
  | toObject | createSymbol | getProperty | ownPropertyDescriptor | ownPropertyKeys
  | deleteProperty | typedArrayBuffer =>
    obtain ⟨_, -, encodes⟩ := ok_of_bind_ok encodes
    obtain rfl := ok_of_pure_ok encodes
    rfl
  | getIndex | defineProperty | setPrototype | setProperty =>
    obtain ⟨_, -, encodes⟩ := ok_of_bind_ok encodes
    obtain ⟨_, -, encodes⟩ := ok_of_bind_ok encodes
    obtain rfl := ok_of_pure_ok encodes
    rfl
  | setIndex =>
    obtain ⟨_, -, encodes⟩ := ok_of_bind_ok encodes
    obtain ⟨_, -, encodes⟩ := ok_of_bind_ok encodes
    obtain ⟨_, -, encodes⟩ := ok_of_bind_ok encodes
    obtain rfl := ok_of_pure_ok encodes
    rfl

namespace Recorder

/-- What can be reported to a recorder. -/
inductive Report (η : Type) where
  | request (context : Context) (request : Request η) (result : Value η)
  | takeException (context : Context) (exception : Except Fault (Option (Value η)))
  | construct (context : Context) (function : η) (args : List (Value η)) (outcome : Outcome η)
  | callback (context : Context) (cancels repeating : Bool) (current : CallbackId) (function : η)
      (id : CallbackId)
  | beginCall (context : Context) (function : η) (args : List (Value η)) (callback : CallbackId)
      (wallTime : Double) (name : Option String)
  | endCall (context : Context) (begun : Time) (outcome : Outcome η) (wallTime : Double)
  /-- An event that has its time already. -/
  | append (e : Event)

variable {η : Type} {r r' : Recorder η} {context : Context} {time : Time}

/-! ## Refusals -/

/-- If a report is refused, nothing has changed. -/
def Refuses {α : Type} (m : RecordM η α) (r : Recorder η) : Prop :=
  ∀ err r', m r = .error err r' → r' = r

theorem Refuses.throw {α : Type} (err : RecordError) :
    Refuses (throw err : RecordM η α) r :=
  fun _ _ refused => (EStateM.Result.error.inj refused).2.symm

/-- A step that changes nothing comes first. -/
theorem Refuses.bind {α β : Type} {m : RecordM η α} {f : α → RecordM η β} (first : Refuses m r)
    (looks : ∀ a t, m r = .ok a t → t = r) (rest : ∀ a, Refuses (f a) r) :
    Refuses (m >>= f) r := by
  intro err r' refused
  rw [bind_run] at refused
  cases hm : m r with
  | error err' t =>
    rw [hm] at refused
    obtain ⟨rfl, rfl⟩ := EStateM.Result.error.inj refused
    exact first err' t hm
  | ok a t =>
    rw [hm] at refused
    obtain rfl := looks a t hm
    exact rest a err r' refused

/-- Behind the event itself nothing is refused. -/
theorem Refuses.act_bind {β : Type} {action : Action} {f : Time → RecordM η β}
    (rest : ∀ now t, ∃ b t', f now t = .ok b t') : Refuses (act context action >>= f) r := by
  intro err r' refused
  rw [bind_run] at refused
  cases ran : act context action r with
  | ok now t =>
    rw [ran] at refused
    obtain ⟨b, t', passed⟩ := rest now t
    exact absurd (passed.symm.trans refused) (by simp)
  | error err' t =>
    rw [ran] at refused
    obtain ⟨rfl, rfl⟩ := EStateM.Result.error.inj refused
    simp only [act, bind_run, get_run] at ran
    cases isNext : r.next with
    | none => rw [isNext] at ran; exact (EStateM.Result.error.inj ran).2.symm
    | some now => rw [isNext] at ran; exact absurd ran (by simp [commit])

theorem act_refuses (action : Action) : Refuses (act context action) r := by
  have alone : Refuses (act context action >>= pure) r := .act_bind fun now t => ⟨now, t, rfl⟩
  rwa [bind_pure] at alone

theorem encoded_refuses {α : Type} (kind : Kind) (encode : TagTable η → Except NamingError α) :
    Refuses (encoded kind encode) r := by
  intro err r' refused
  simp only [encoded, bind_run, get_run] at refused
  cases he : encode r.tags with
  | error e => rw [he] at refused; exact (EStateM.Result.error.inj refused).2.symm
  | ok a => rw [he] at refused; exact absurd refused (by simp)

theorem checkInnermost_refuses (begun : Time) : Refuses (checkInnermost begun) r := by
  intro err r' refused
  simp only [checkInnermost, bind_run, get_run] at refused
  split at refused
  · exact (EStateM.Result.error.inj refused).2.symm
  · exact absurd refused (by simp)

/-- Writing down what an operation was given may be refused, and comes first. -/
theorem Refuses.encoded_bind {α β : Type} {kind : Kind} {encode : TagTable η → Except NamingError α}
    {f : α → RecordM η β} (rest : ∀ a, Refuses (f a) r) : Refuses (encoded kind encode >>= f) r :=
  (encoded_refuses kind encode).bind (fun _ _ taken => (encoded_inv taken).2) rest

theorem Refuses.get_bind {β : Type} {f : Recorder η → RecordM η β} (rest : Refuses (f r) r) :
    Refuses (get >>= f) r := rest

/-- What an event from outside goes through once its time has been compared. -/
def entered (e : Event) : RecordM η Time := do
  match e.action with
  | .callBegin _ => modify fun r => { r with openCalls := e.time :: r.openCalls }
  | .callEnd call =>
    checkInnermost call.begun
    modify fun r => { r with openCalls := r.openCalls.tail }
  | _ => pure ()
  commit e

theorem entered_refuses (e : Event) : Refuses (entered e) r := by
  intro err r' refused
  unfold entered at refused
  cases action : e.action with
  | callEnd call =>
    simp only [action, bind_run] at refused
    cases checked : checkInnermost call.begun r with
    | error err' t =>
      rw [checked] at refused
      obtain ⟨rfl, rfl⟩ := EStateM.Result.error.inj refused
      exact checkInnermost_refuses _ _ _ checked
    | ok u t =>
      rw [checked] at refused
      exact absurd refused (by simp [commit])
  | _ => simp [action, commit] at refused

theorem append_refuses (e : Event) : Refuses (append e) r := by
  have entered : Refuses (entered e) r := entered_refuses e
  unfold append
  refine Refuses.get_bind ?_
  cases r.last with
  | none => exact entered
  | some previous =>
    dsimp only
    split
    · exact .throw _
    · exact entered

/-! ## Events that are taken -/

/-- The recorder took an event: one that it gave its time, or one with a later time than any. -/
structure Took (r r' : Recorder η) (e : Event) : Prop where
  timely : r.next = some e.time ∨ ∀ previous, r.last = some previous → previous < e.time
  log : r'.log = r.log.push e
  last : r'.last = some e.time
  next : r'.next = e.time.next?
  calls : e.Leaves r.openCalls r'.openCalls

theorem entered_inv {e : Event} (timely : ∀ previous, r.last = some previous → previous < e.time)
    (ran : entered e r = .ok time r') : e.time = time ∧ r.Took r' e ∧ r'.tags = r.tags := by
  have done {calls : List Time} (leaves : e.Leaves r.openCalls calls)
      (ran : commit e { r with openCalls := calls } = .ok time r') :
      e.time = time ∧ r.Took r' e ∧ r'.tags = r.tags := by
    obtain ⟨rfl, rfl⟩ := EStateM.Result.ok.inj ran
    exact ⟨rfl, ⟨Or.inr timely, rfl, rfl, rfl, leaves⟩, rfl⟩
  unfold entered at ran
  cases action : e.action with
  | callBegin call =>
    simp only [action] at ran
    exact done (.begins call action) ran
  | callEnd call =>
    simp only [action] at ran
    obtain ⟨_, t, checked, rest⟩ := ok_of_bind ran
    obtain ⟨innermost, rfl⟩ := checkInnermost_inv checked
    obtain ⟨around, isOpen⟩ := List.head?_eq_some_iff.1 innermost
    have rest : commit e { t with openCalls := t.openCalls.tail } = .ok time r' := rest
    rw [isOpen] at rest
    exact done (.ends call action around isOpen) rest
  | _ =>
    simp only [action] at ran
    exact done (.inner (by simp [Event.callBegin?, action]) (by simp [Event.callEnd?, action])) ran

theorem append_inv {e : Event} (h : append e r = .ok time r') :
    e.time = time ∧ r.Took r' e ∧ r'.tags = r.tags := by
  obtain ⟨_, _, got, rest⟩ := ok_of_bind h
  obtain ⟨rfl, rfl⟩ := EStateM.Result.ok.inj got
  cases last : r.last with
  | none =>
    rw [last] at rest
    exact entered_inv (by simp [last]) rest
  | some previous =>
    rw [last] at rest
    by_cases early : e.time ≤ previous
    · simp only [early, if_true] at rest
      obtain ⟨_, _, thrown, -⟩ := ok_of_bind rest
      exact absurd thrown (by simp)
    · simp only [early, if_false] at rest
      refine entered_inv ?_ rest
      rintro _ same
      obtain rfl := Option.some.inj (last.symm.trans same)
      exact Time.not_le.1 early

variable [DecidableEq η]

theorem Reported.took {e : Event} {value : Value η} (h : Reported r r' e value)
    (calls : e.Leaves r.openCalls r'.openCalls) : r.Took r' e :=
  ⟨h.timely.imp_right And.right, h.events, h.last, h.next, calls⟩

/-- A reported event that is no call. -/
theorem Reported.inner {action : Action} {value : Value η}
    (done : Reported r r' ⟨time, context, action⟩ value) (noBegin : action.kind ≠ .callBegin)
    (noEnd : action.kind ≠ .callEnd) (calls : r'.openCalls = r.openCalls) :
    ∃ e, e.time = time ∧ r.Took r' e ∧ e.Within r.openCalls.length := by
  refine ⟨_, rfl, done.took ?_, ⟨?_, ?_⟩⟩
  · rw [calls]
    refine .inner ?_ ?_
    · cases action <;> first | rfl | exact absurd rfl noBegin
    · cases action <;> first | rfl | exact absurd rfl noEnd
  · rintro call rfl
    exact absurd rfl noBegin
  · rintro call rfl
    exact absurd rfl noEnd

/-! ## Reports -/

/-- Reports something to a recorder. -/
def record : Report η → RecordM η Time
  | .request context asked result => request context asked result
  | .takeException context exception => takeException context exception
  | .construct context function args outcome => construct context function args outcome
  | .callback context cancels repeating current function id =>
    callback context cancels repeating current function id
  | .beginCall context function args callback wallTime name =>
    beginCall context function args callback wallTime name
  | .endCall context begun outcome wallTime => endCall context begun outcome wallTime
  | .append e => append e

/-- **A report that is refused changes nothing.** -/
theorem record_refused {report : Report η} {err : RecordError}
    (refused : record report r = .error err r') : r' = r := by
  -- what is named is encoded first, and that changes nothing
  have called {α : Type} {kind : Kind} {function : η} {args : List (Value η)}
      {f : Tag → List Recorded → RecordM η α} (rest : ∀ tag recorded, Refuses (f tag recorded) r) :
      Refuses (do
        let tag ← functionTag kind function
        let recorded ← arguments kind args
        f tag recorded) r :=
    .encoded_bind fun tag => .encoded_bind fun recorded => rest tag recorded
  suffices Refuses (record report) r from this err r' refused
  cases report with
  | request context asked result =>
    refine .encoded_bind fun action => .act_bind fun now t => ?_
    split <;> exact ⟨_, _, rfl⟩
  | takeException context exception =>
    cases exception with
    | error fault => exact .throw _
    | ok found => exact .act_bind fun now t => ⟨_, _, rfl⟩
  | construct context function args outcome =>
    exact called fun tag recorded => .act_bind fun now t => ⟨_, _, rfl⟩
  | callback context cancels repeating current function id =>
    exact .encoded_bind fun tag => act_refuses _
  | beginCall context function args callback wallTime name =>
    exact called fun tag recorded => .get_bind (.act_bind fun now t => ⟨_, _, rfl⟩)
  | endCall context begun outcome wallTime =>
    refine (checkInnermost_refuses begun).bind (fun _ _ passed => (checkInnermost_inv passed).2)
      fun _ => .get_bind ?_
    cases outcome with
    | ok value => exact .act_bind fun now t => ⟨_, _, rfl⟩
    | error thrown => exact .act_bind fun now t => ⟨_, _, rfl⟩
  | append e => exact append_refuses e

/-- **A report that is taken is one event more.** Only an event that was handed over finished may
    say that it stands at another depth than it does; it tags nothing. -/
theorem record_taken {report : Report η} (taken : record report r = .ok time r') :
    ∃ e, e.time = time ∧ r.Took r' e ∧
      (report = .append e ∧ r'.tags = r.tags ∨ e.Within r.openCalls.length) := by
  have made (done : ∃ e, e.time = time ∧ r.Took r' e ∧ e.Within r.openCalls.length) :
      ∃ e, e.time = time ∧ r.Took r' e ∧
        (report = .append e ∧ r'.tags = r.tags ∨ e.Within r.openCalls.length) := by
    obtain ⟨e, same, took, within⟩ := done
    exact ⟨e, same, took, Or.inr within⟩
  cases report with
  | request context asked result =>
    obtain ⟨action, encodes, done, calls⟩ := request_inv taken
    have kind := asked.kind_encode encodes
    refine made (done.inner ?_ ?_ calls) <;> rw [kind] <;> cases asked <;> simp [Request.kind]
  | takeException context exception =>
    cases exception with
    | error fault => exact absurd taken (by simp [record, takeException])
    | ok found =>
      obtain ⟨done, calls⟩ := takeException_inv taken
      exact made (done.inner (by simp [Action.kind]) (by simp [Action.kind]) calls)
  | construct context function args outcome =>
    obtain ⟨tag, recorded, -, done, calls⟩ := construct_inv taken
    exact made (done.inner (by simp [Action.kind]) (by simp [Action.kind]) calls)
  | callback context cancels repeating current function id =>
    obtain ⟨tag, done, calls⟩ := callback_inv taken
    exact made (done.inner (by simp [Action.kind]) (by simp [Action.kind]) calls)
  | beginCall context function args callback wallTime name =>
    obtain ⟨call, depth, -, done, calls⟩ := beginCall_inv taken
    refine made ⟨_, rfl, done.took (calls ▸ .begins call rfl), ?_, by simp⟩
    rintro _ same
    exact Action.callBegin.inj same ▸ depth
  | endCall context begun outcome wallTime =>
    obtain ⟨_, _, checked, -⟩ := ok_of_bind taken
    -- the call named by its end was found to be the innermost
    obtain ⟨innermost, -⟩ := checkInnermost_inv checked
    obtain ⟨call, rfl, depth, -, done, calls⟩ := endCall_inv taken
    obtain ⟨around, isOpen⟩ := List.head?_eq_some_iff.1 innermost
    refine made ⟨_, rfl, done.took ?_, by simp, ?_⟩
    · rw [calls, isOpen]
      exact .ends call rfl around rfl
    · rintro _ same
      exact Action.callEnd.inj same ▸ depth
  | append e =>
    obtain ⟨same, took, tags⟩ := append_inv taken
    exact ⟨e, same, took, Or.inl ⟨rfl, tags⟩⟩

/-! ## Histories -/

/-- The recorder after a report, which it took or refused. -/
def heard (r : Recorder η) (report : Report η) : Recorder η :=
  match record report r with
  | .ok _ r' | .error _ r' => r'

theorem heard_cases (r : Recorder η) (report : Report η) :
    r.heard report = r ∨ ∃ e, r.Took (r.heard report) e := by
  unfold heard
  cases recorded : record report r with
  | ok time r' =>
    obtain ⟨e, -, took, -⟩ := record_taken recorded
    exact Or.inr ⟨e, took⟩
  | error err r' => exact Or.inl (record_refused recorded)

/-- Reports one thing after the other, up to the first that is refused. -/
def recordAll : List (Report η) → RecordM η Unit
  | [] => return ()
  | report :: reports => do
    let _ ← record report
    recordAll reports

/-- The last of some reports was made when all others had been taken. -/
theorem recordAll_concat {reports : List (Report η)} {report : Report η}
    (taken : recordAll (reports ++ [report]) r = .ok () r') :
    ∃ mid time, recordAll reports r = .ok () mid ∧ record report mid = .ok time r' := by
  induction reports generalizing r with
  | nil =>
    obtain ⟨time, _, recorded, rest⟩ := ok_of_bind taken
    obtain ⟨-, rfl⟩ := EStateM.Result.ok.inj rest
    exact ⟨r, time, rfl, recorded⟩
  | cons first reports ih =>
    obtain ⟨now, next, recorded, rest⟩ := ok_of_bind taken
    obtain ⟨mid, time, before, last⟩ := ih rest
    refine ⟨mid, time, ?_, last⟩
    rw [recordAll, bind_run, recorded]
    exact before

end Recorder
end Retrace
