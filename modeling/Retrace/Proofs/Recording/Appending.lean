import Retrace.Proofs.Recording.Determinism
import Retrace.Proofs.Recording.Histories
import Retrace.Proofs.Recording.Retagging

/-!
# Allocations that are handed over

A host need not report an allocation. It can make one and hand over the finished event, and then the
recorder never sees the object. Replaying the event tags the object all the same. So there are tags
in the replay that the recorder knows nothing of, and from the first of them on it counts too low.

What replay makes of such a recording (`Mixed`) can be told exactly, as long as the host goes on
with objects that were tagged before. A host is imagined that does the same with other tags, namely
those of the replay; this one the replay shadows, and the tags of the other lag behind (`Trails`).
So each tag that the recorder gives is lower than the one in the replay by the number of objects
that were handed over before (`Mixed.appended_allocations_shift_tags`), and stands for another
object there.
-/

namespace Retrace

/-! ## Allocations -/

/-- An object that is made of nothing that has a handle. -/
inductive Allocation where
  | object (regular : Bool)
  | array (length : UInt32)
  | arrayBuffer (bytes : List UInt8)
  | function
deriving DecidableEq, Repr

namespace Allocation

def action : Allocation → Action
  | object regular => .allocateObject regular
  | array length => .allocateArray length
  | arrayBuffer bytes => .allocateArrayBuffer bytes
  | function => .allocateFunction none

def request : Allocation → Request ObjectRef
  | object regular => .createObject regular
  | array length => .createArray length
  | arrayBuffer bytes => .createArrayBuffer bytes
  | function => .createFunction none

variable (a : Allocation)

theorem encode_request (tags : TagTable ObjectRef) : a.request.encode tags = .ok a.action := by
  cases a <;> rfl

theorem tagsResult_request : Recorder.tagsResult a.request = true := by
  cases a <;> rfl

/-- The kinds of an allocation are neither those of a begin nor of an end. -/
theorem no_call {time : Time} {context : Context} :
    (Event.mk time context a.action).callBegin? = none ∧
      (Event.mk time context a.action).callEnd? = none := by
  cases a <;> exact ⟨rfl, rfl⟩

variable {a} {s s' : Sandbox} {result : Value ObjectRef}

/-- The object goes behind all others, and refers to none. -/
theorem performed (done : Sandbox.perform a.request s = .ok result s') :
    result = .ref ⟨s.heap.size⟩ ∧ ∃ o : HeapObject, o.handles = [] ∧
      s' = { s with heap := (s.heap.allocate o).2 } := by
  have allocated {kind : ObjectKind} (none : kind.handles = [])
      (done : (Value.ref <$> Sandbox.allocate kind) s = .ok result s') :
      result = .ref ⟨s.heap.size⟩ ∧ ∃ o : HeapObject, o.handles = [] ∧
        s' = { s with heap := (s.heap.allocate o).2 } := by
    obtain ⟨rfl, rfl⟩ := EStateM.Result.ok.inj done
    exact ⟨rfl, .bare kind, (HeapObject.handles_bare kind).trans none, rfl⟩
  cases a with
  | object regular => exact allocated rfl done
  | array length =>
    simp only [request, Sandbox.perform, Sandbox.createArray] at done
    split at done
    · exact absurd done (by simp [Sandbox.fail])
    · exact allocated (Sandbox.nulls_handles _) done
  | arrayBuffer bytes => exact allocated rfl done
  | function => exact allocated rfl done

end Allocation

/-- To the recorder it is an event that tags nothing. -/
theorem Recorder.append_reported {η : Type} [DecidableEq η] {r r' : Recorder η} {e : Event}
    {time : Time} (started : .first ≤ e.time) (taken : Recorder.append e r = .ok time r') :
    Recorder.Reported r r' e .null := by
  obtain ⟨-, took, tags⟩ := Recorder.append_inv taken
  exact ⟨took.timely.imp_right fun later => ⟨started, later⟩, took.log, took.next, took.last, tags⟩

/-! ## Withholding an object -/

section Withholding

variable {h : Heap} {unseen handles : List ObjectRef} {o : HeapObject}

/-- A handle that was there is not that of the new object. -/
theorem Heap.HasAll.withhold (has : h.HasAll (· ∉ unseen) handles) (o : HeapObject) :
    (h.allocate o).2.HasAll (· ∉ unseen ++ [⟨h.size⟩]) handles := by
  intro r mem
  obtain ⟨inside, seen⟩ := has r mem
  have size : (h.allocate o).2.size = h.size + 1 := Array.size_push _
  refine ⟨by omega, fun withheld => ?_⟩
  rcases List.mem_append.1 withheld with before | new
  · exact seen before
  · rw [List.mem_singleton.1 new] at inside
    exact Nat.lt_irrefl _ inside

/-- Nothing refers to an object that was just made. -/
theorem Heap.Closed.withhold (closed : h.Closed (· ∉ unseen)) (none : o.handles = []) :
    (h.allocate o).2.Closed (· ∉ unseen ++ [⟨h.size⟩]) := by
  have size : (h.allocate o).2.size = h.size + 1 := Array.size_push _
  have same : (h.allocate o).2.handles = h.handles := by
    simp [Heap.handles, Heap.allocate, none]
  refine ⟨same ▸ closed.within.withhold o, fun r later withheld => ?_⟩
  rcases List.mem_append.1 withheld with before | new
  · exact closed.ahead r (by omega) before
  · rw [List.mem_singleton.1 new, size] at later
    exact absurd later (Nat.not_succ_le_self _)

theorem Host.Held.withhold {h : Host} (held : h.Held (· ∉ unseen)) (none : o.handles = []) :
    ({ h with sandbox := { h.sandbox with heap := (h.sandbox.heap.allocate o).2 } } : Host).Held
      (· ∉ unseen ++ [⟨h.sandbox.heap.size⟩]) where
  closed := held.closed.withhold none
  tags := held.tags.withhold o
  calls call isOpen := (held.calls call isOpen).withhold o
  thrown value pending := (held.thrown value pending).withhold o

end Withholding

/-! ## Mixed recordings -/

/-- What a host does that does not report all of it. -/
inductive Turn where
  | deed (deed : Deed)
  /-- Makes an allocation, and hands over an event of it that brings its time along. -/
  | append (time : Time) (started : .first ≤ time) (context : Context) (allocation : Allocation)
deriving DecidableEq

/-- The handles that the host refers to. -/
def Turn.handles : Turn → List ObjectRef
  | deed d => d.operation.handles
  | append .. => []

/-- A host, and the objects that its recorder has not seen. -/
structure Mixed where
  host : Host
  unseen : List ObjectRef
deriving DecidableEq, Repr

namespace Mixed

/-- As with a deed, nothing is done in a context that cannot be entered, and nothing is recorded of
    an allocation that fails. -/
def turn (limit : Nat) (m : Mixed) : Turn → Except HostError Mixed
  | .deed deed => do
    let host ← m.host.step limit deed
    return { m with host }
  | .append time _ context allocation =>
    match Sandbox.enter context m.host.sandbox with
    | .error _ _ => .ok m
    | .ok _ sandbox =>
      match Sandbox.perform allocation.request sandbox with
      | .error _ sandbox => .ok { m with host := { m.host with sandbox } }
      | .ok result sandbox => do
        let (_, host) ← { m.host with sandbox }.report
          (Recorder.append ⟨time, context, allocation.action⟩)
        return ⟨host, m.unseen ++ result.handles⟩

def run (limit : Nat) (m : Mixed) (turns : List Turn) : Except HostError Mixed :=
  turns.foldlM (turn limit) m

/-! ### The log grows -/

theorem turn_reported {limit : Nat} {m m' : Mixed} {t : Turn} (done : m.turn limit t = .ok m') :
    m'.host.recorder = m.host.recorder ∨
      ∃ e value, Recorder.Reported m.host.recorder m'.host.recorder e value := by
  cases t with
  | deed deed =>
    obtain ⟨host, did, rest⟩ := ok_of_bind_ok done
    obtain rfl := ok_of_pure_ok rest
    exact Host.step_reported did
  | append time started context allocation =>
    simp only [turn] at done
    cases entered : Sandbox.enter context m.host.sandbox with
    | error fault sandbox =>
      rw [entered] at done
      obtain rfl := Except.ok.inj done
      exact Or.inl rfl
    | ok _ sandbox =>
      rw [entered] at done
      cases made : Sandbox.perform allocation.request sandbox with
      | error fault after =>
        simp only [made] at done
        obtain rfl := Except.ok.inj done
        exact Or.inl rfl
      | ok result after =>
        simp only [made] at done
        obtain ⟨now, recorder, recorded, rest⟩ := Host.report_of_bind done
        obtain rfl := ok_of_pure_ok rest
        exact Or.inr ⟨_, _, Recorder.append_reported started recorded⟩

/-- Whatever the host does, its log goes on in time. -/
theorem run_grows {limit : Nat} {m m' : Mixed} {turns : List Turn}
    (timed : m.host.recorder.Timed) (ran : m.run limit turns = .ok m') :
    m'.host.recorder.Timed ∧ m.host.recorder.log.Extends m'.host.recorder.log := by
  induction turns generalizing m with
  | nil =>
    obtain rfl := ok_of_pure_ok ran
    exact ⟨timed, .refl _⟩
  | cons t turns ih =>
    obtain ⟨next, done, rest⟩ := foldlM_cons_ok ran
    rcases turn_reported done with same | ⟨e, value, reported⟩
    · rw [← same]
      exact ih (same ▸ timed) rest
    · obtain ⟨timed', extended⟩ := ih (timed.reported reported) rest
      have pushed : m.host.recorder.log.Extends next.host.recorder.log :=
        reported.events ▸ Log.extends_push _ e
      exact ⟨timed', pushed.trans extended⟩

/-! ## The host that has the tags of the replay -/

/-- With the tags of the replay, the host would record the same log, and replay shadows it. The
    recorder's own tags lag behind these by the objects that it has not seen. -/
structure Trails (contexts : Option (List Context)) (limit : Nat) (start : SandboxSession)
    (early : List ObjectRef) (m : Mixed) (tags : TagTable ObjectRef) : Prop where
  follows : (m.host.retagged tags).Follows contexts limit start
  held : m.host.Held (· ∉ m.unseen)
  lag : m.host.recorder.tags.Lag early m.unseen tags

section Trails

variable {contexts : Option (List Context)} {limit : Nat} {start : SandboxSession}
variable {early : List ObjectRef} {m m' : Mixed} {host : Host} {tags tags' : TagTable ObjectRef}

/-- The host has gone on, and what is true of it before is still. -/
structure Onward (contexts : Option (List Context)) (limit : Nat) (start : SandboxSession)
    (early : List ObjectRef) (m m' : Mixed) (tags tags' : TagTable ObjectRef) : Prop where
  trails : m'.Trails contexts limit start early tags'
  continues : tags.Continues tags'
  extended : m.host.recorder.log.Extends m'.host.recorder.log
  close : m'.host.position ≤ m.host.position + 1

/-- A deed leaves the recorder as far behind as it was. -/
theorem Trails.deed (trails : m.Trails contexts limit start early tags)
    (narrow : limit ≤ UInt32.size) {deed : Deed}
    (agree : m.host.recorder.tags.AgreeOn tags deed.operation.handles)
    (done : m.host.step limit deed = .ok host) :
    ∃ value, host.recorder.tags = m.host.recorder.tags.trackValue value ∧
      (∀ r ∈ value.handles, r ∉ m.unseen) ∧
      Onward contexts limit start early m { m with host } tags (tags.trackValue value) := by
  obtain ⟨value, given, again⟩ := Host.step_retagged agree done
  obtain ⟨follows, extended, close⟩ := trails.follows.step narrow again
  have held := Host.step_held trails.held done
  have seen : ∀ r ∈ value.handles, r ∉ m.unseen := by
    intro r mem
    refine (held.tags r ?_).2
    rw [given]
    exact trails.lag.issued.tracks mem
  have issued : (tags.trackValue value).Issued := follows.issued
  have lag := trails.lag.trackValue seen issued
  rw [← given] at lag
  exact ⟨value, given, seen, ⟨follows, held, lag⟩, issued.continues_trackValue, extended, close⟩

/-- An event that is handed over takes the tags of the replay on by one. -/
theorem Trails.append (trails : m.Trails contexts limit start early tags) {time : Time}
    (started : .first ≤ time) {context : Context} {allocation : Allocation}
    (done : m.turn limit (.append time started context allocation) = .ok m') :
    m'.host.recorder.tags = m.host.recorder.tags ∧
      ∃ tags', Onward contexts limit start early m m' tags tags' := by
  simp only [turn] at done
  cases entered : Sandbox.enter context m.host.sandbox with
  | error fault sandbox =>
    rw [entered] at done
    obtain rfl := Except.ok.inj done
    exact ⟨rfl, tags, trails, .refl tags, .refl _, Nat.le_succ _⟩
  | ok _ sandbox =>
    rw [entered] at done
    obtain ⟨c, here, shadow⟩ := trails.follows
    have held := trails.held.entered entered
    cases made : Sandbox.perform allocation.request sandbox with
    | error fault after =>
      simp only [made] at done
      -- an allocation that fails leaves no trace, and nothing is handed over
      obtain rfl := Sandbox.perform_atomic allocation.request sandbox _ _ made
      obtain rfl := Except.ok.inj done
      exact ⟨rfl, tags, ⟨⟨c, here, (shadow.enterHost entered).2⟩, held, trails.lag⟩, .refl tags,
        .refl _, Nat.le_succ _⟩
    | ok result after =>
      simp only [made] at done
      obtain ⟨now, recorder, recorded, rest⟩ := Host.report_of_bind done
      obtain rfl := ok_of_pure_ok rest
      obtain ⟨-, took, given⟩ := Recorder.append_inv recorded
      obtain ⟨rfl, o, none, rfl⟩ := Allocation.performed made
      have openCalls : recorder.openCalls = m.host.recorder.openCalls :=
        took.calls.eq_of_no_call allocation.no_call
      -- the host with the tags of the replay might have reported the allocation
      have event : Recorder.Reported (m.host.retagged tags).recorder
          (recorder.retagged (tags.track ⟨sandbox.heap.size⟩).2)
          ⟨time, context, allocation.action⟩
          (if Recorder.tagsResult allocation.request then .ref ⟨sandbox.heap.size⟩ else .null) := by
        rw [allocation.tagsResult_request]
        exact (Recorder.append_reported started recorded).retagged tags
          (.ref ⟨sandbox.heap.size⟩)
      obtain ⟨e, pushed, followed⟩ := shadow.within entered fun s' session =>
        session.asked made (allocation.encode_request tags) event openCalls
      obtain ⟨follows, extended, size⟩ := Host.Follows.pushed here pushed followed
      -- the object is a new one, so the replay tags it, and the recorder does not
      have new : ⟨sandbox.heap.size⟩ ∉ tags.handles := by
        intro tagged
        rcases (trails.lag.handles _).1 tagged with seen | withheld
        · exact Nat.lt_irrefl _ (held.tags _ seen).1
        · exact held.closed.ahead _ (Nat.le_refl _) withheld
      have issued : (tags.track ⟨sandbox.heap.size⟩).2.Issued := follows.issued
      have withheld := held.withhold none
      refine ⟨given, (tags.track ⟨sandbox.heap.size⟩).2, ⟨follows, ?_, ?_⟩,
        issued.continues_track, extended, Nat.le_of_eq size⟩
      · exact { withheld with tags := by rw [given]; exact withheld.tags }
      · show TagTable.Lag early _ recorder.tags _
        rw [given]
        exact trails.lag.skip new issued

theorem Trails.turn (trails : m.Trails contexts limit start early tags)
    (narrow : limit ≤ UInt32.size) {t : Turn} (known : t.handles ⊆ early)
    (done : m.turn limit t = .ok m') :
    ∃ tags', Onward contexts limit start early m m' tags tags' := by
  cases t with
  | deed deed =>
    obtain ⟨host, did, rest⟩ := ok_of_bind_ok done
    obtain rfl := ok_of_pure_ok rest
    have agree : m.host.recorder.tags.AgreeOn tags deed.operation.handles :=
      fun r mem => trails.lag.agree r (known mem)
    obtain ⟨value, -, -, onward⟩ := trails.deed narrow agree did
    exact ⟨_, onward⟩
  | append time started context allocation => exact (trails.append started done).2

theorem Trails.run (trails : m.Trails contexts limit start early tags)
    (narrow : limit ≤ UInt32.size) {turns : List Turn} (known : ∀ t ∈ turns, t.handles ⊆ early)
    (ran : m.run limit turns = .ok m') :
    m.host.recorder.log.Extends m'.host.recorder.log ∧
      ∃ tags', m'.Trails contexts limit start early tags' ∧ tags.Continues tags' := by
  induction turns generalizing m tags with
  | nil =>
    obtain rfl := ok_of_pure_ok ran
    exact ⟨.refl _, tags, trails, .refl tags⟩
  | cons t turns ih =>
    obtain ⟨next, done, rest⟩ := foldlM_cons_ok ran
    obtain ⟨now, later⟩ := List.forall_mem_cons.1 known
    obtain ⟨between, onward⟩ := trails.turn narrow now done
    obtain ⟨extended, tags', final, continues⟩ := ih onward.trails later rest
    exact ⟨onward.extended.trans extended, tags', final, onward.continues.trans continues⟩

/-- The host comes by every position between where it is and where it ends. -/
theorem Trails.reaches (trails : m.Trails contexts limit start early tags)
    (narrow : limit ≤ UInt32.size) {turns : List Turn} (known : ∀ t ∈ turns, t.handles ⊆ early)
    (ran : m.run limit turns = .ok m') {k : Nat} (low : m.host.position ≤ k)
    (high : k ≤ m'.host.position) :
    ∃ (mid : Mixed) (tags' : TagTable ObjectRef),
      mid.Trails contexts limit start early tags' ∧ tags.Continues tags' ∧
      mid.host.position = k ∧ mid.host.recorder.log.Extends m'.host.recorder.log := by
  induction turns generalizing m tags with
  | nil =>
    obtain rfl := ok_of_pure_ok ran
    exact ⟨m, tags, trails, .refl tags, Nat.le_antisymm low high, .refl _⟩
  | cons t turns ih =>
    by_cases here : m.host.position = k
    · exact ⟨m, tags, trails, .refl tags, here, (trails.run narrow known ran).1⟩
    · obtain ⟨next, done, rest⟩ := foldlM_cons_ok ran
      obtain ⟨now, later⟩ := List.forall_mem_cons.1 known
      obtain ⟨between, onward⟩ := trails.turn narrow now done
      have close := onward.close
      obtain ⟨mid, tags', final, continues, at_, extended⟩ := ih onward.trails later rest (by omega)
      exact ⟨mid, tags', final, onward.continues.trans continues, at_, extended⟩

/-- As long as everything is reported, nothing lags. -/
theorem Trails.reported {h h' : Host}
    (trails : Trails contexts limit start [] ⟨h, []⟩ h.recorder.tags)
    (narrow : limit ≤ UInt32.size) {program : List Deed} (ran : h.run limit program = .ok h') :
    Trails contexts limit start [] ⟨h', []⟩ h'.recorder.tags := by
  induction program generalizing h with
  | nil =>
    obtain rfl := ok_of_pure_ok ran
    exact trails
  | cons deed program ih =>
    obtain ⟨next, done, rest⟩ := Host.run_cons ran
    obtain ⟨value, given, -, onward⟩ := trails.deed narrow (fun _ _ => rfl) done
    exact ih (given ▸ onward.trails) rest

/-- In a turn, the recorder gave a handle a tag. -/
structure Gave (m m' : Mixed) (handle : ObjectRef) (tag : Tag) : Prop where
  new : m.host.recorder.tags.tagOf? handle = none
  gave : m'.host.recorder.tags.tagOf? handle = some tag

/-- The tag that a recorder gives is one that the replay gave before, if there is anything that the
    recorder has not seen. -/
theorem Trails.gives (trails : m.Trails contexts limit start early tags)
    (narrow : limit ≤ UInt32.size) {t : Turn} (known : t.handles ⊆ early)
    (done : m.turn limit t = .ok m') {handle : ObjectRef} {tag : Tag} (gave : m.Gave m' handle tag) :
    ∃ tags', Onward contexts limit start early m m' tags tags' ∧
      (∃ tag' : Tag, tag'.id.toNat = tag.id.toNat + m.unseen.length ∧
        tags'.resolve tag' = .ok handle) ∧
      (m.unseen ≠ [] → ∃ other, other ≠ handle ∧ tags'.resolve tag = .ok other) := by
  obtain ⟨new, gave⟩ := gave
  cases t with
  | deed deed =>
    obtain ⟨host, did, rest⟩ := ok_of_bind_ok done
    obtain rfl := ok_of_pure_ok rest
    obtain ⟨value, given, seen, onward⟩ :=
      trails.deed narrow (fun r mem => trails.lag.agree r (known mem)) did
    have gave : host.recorder.tags.tagOf? handle = some tag := gave
    rw [given] at gave
    obtain rfl := trails.lag.issued.eq_ref_of_trackValue new gave
    have issued : (tags.track handle).2.Issued := onward.trails.follows.issued
    exact ⟨_, onward, trails.lag.gives (seen handle List.mem_cons_self) issued new gave⟩
  | append time started context allocation =>
    obtain ⟨same, -⟩ := trails.append started done
    rw [same, new] at gave
    exact absurd gave (by simp)

/-- A host that has reported everything so far. -/
theorem trails_first {keepsNames : Bool} {program : List Deed} {first : Host} {settings : Settings}
    (ran : (Host.start contexts keepsNames).run limit program = .ok first)
    (deep : limit ≤ settings.maxDepth) (narrow : limit ≤ UInt32.size) :
    Trails contexts limit (Playback.reference (.fresh contexts) settings)
      first.recorder.tags.handles ⟨first, []⟩ first.recorder.tags := by
  have started : Trails contexts limit (Playback.reference (.fresh contexts) settings) []
      ⟨.start contexts keepsNames, []⟩ TagTable.empty := by
    refine ⟨Host.start_follows contexts keepsNames deep, Host.start_held contexts keepsNames ?_, ?_⟩
    · exact fun _ => List.not_mem_nil
    · refine .nothing TagTable.empty_issued (by decide) fun tag positive given => ?_
      have given : tag.id.toNat < 1 := given
      omega
  have trails := started.reported narrow ran
  exact { trails with lag := .nothing trails.lag.issued trails.lag.started trails.lag.full }

end Trails

/-! ## Replay -/

open Playback (drive fresh)

/-- What a playback makes of a tag for a handle that the recorder gave when there were so many
    objects that it had not seen. If there were any, the tag stands for another handle. -/
structure Shifted (p : Playback.OfSandbox) (unseen : Nat) (handle : ObjectRef) (tag : Tag) :
    Prop where
  bound : ∃ tag' : Tag, tag'.id.toNat = tag.id.toNat + unseen ∧
    p.session.tags.resolve tag' = .ok handle
  other : unseen ≠ 0 → ∃ other, other ≠ handle ∧ p.session.tags.resolve tag = .ok other

section Playback

variable {contexts : Option (List Context)} {limit : Nat} {start : SandboxSession}
variable {early : List ObjectRef} {m last : Mixed} {tags : TagTable ObjectRef} {log : Log}
variable {known : Option (List Context)} {errs : List ReplayError} {p : Playback.OfSandbox}

/-- A playback has the tags and the heap of the host that it shadows. -/
theorem Trails.read (trails : m.Trails contexts limit start early tags)
    (extended : m.host.recorder.log.Extends log) (keeps : Playback.Keeps log start known errs p)
    (meet : p.position = m.host.position) :
    p.session.tags = tags ∧ p.session.engine.heap = m.host.sandbox.heap := by
  obtain ⟨c, here, shadow⟩ := trails.follows
  have here := (extended.course start (Nat.le_refl _)).trans here
  obtain ⟨same, heap, -, -⟩ := shadow.agrees here keeps meet
  exact ⟨same, heap⟩

/-- Behind a place of the host, a playback has the tags that those of this place have become. -/
theorem Trails.become (trails : m.Trails contexts limit start early tags)
    (narrow : limit ≤ UInt32.size) {rest : List Turn} (old : ∀ t ∈ rest, t.handles ⊆ early)
    (ran : m.run limit rest = .ok last) (extended : last.host.recorder.log.Extends log)
    (keeps : Playback.Keeps log start known errs p) (low : m.host.position ≤ p.position)
    (high : p.position ≤ last.host.position) : tags.Continues p.session.tags := by
  obtain ⟨there, tags', trails', continues, at_, within⟩ := trails.reaches narrow old ran low high
  obtain ⟨same, -⟩ := trails'.read (within.trans extended) keeps at_.symm
  rw [same]
  exact continues

/-- What the recorder gave in a turn is shifted in a playback that has come behind it. -/
theorem Trails.shifts (trails : m.Trails contexts limit start early tags)
    (narrow : limit ≤ UInt32.size) {t : Turn} (now : t.handles ⊆ early) {next : Mixed}
    (done : m.turn limit t = .ok next) {handle : ObjectRef} {tag : Tag}
    (gave : m.Gave next handle tag) {rest : List Turn} (old : ∀ t ∈ rest, t.handles ⊆ early)
    (ran : next.run limit rest = .ok last) (extended : last.host.recorder.log.Extends log)
    (keeps : Playback.Keeps log start known errs p) (low : next.host.position ≤ p.position)
    (high : p.position ≤ last.host.position) : Shifted p m.unseen.length handle tag := by
  obtain ⟨tags', onward, ⟨tag', shifted, bound⟩, others⟩ := trails.gives narrow now done gave
  have continues := onward.trails.become narrow old ran extended keeps low high
  have issued := onward.trails.lag.issued'
  refine ⟨⟨tag', shifted, continues.resolved issued bound⟩, fun some => ?_⟩
  obtain ⟨other, differs, bound⟩ := others (List.ne_nil_of_length_pos (Nat.pos_of_ne_zero some))
  exact ⟨other, differs, continues.resolved issued bound⟩

end Playback

/-- **An allocation that is handed over shifts all tags behind it.** Let a host report what it does
    for a while. Then let it also hand over events of allocations, but work on with objects that it
    had before; and then let it do what it likes. Whatever is asked of a replay of its log on a
    sandbox that is as fresh, it does not fault before it comes to that last part, and if there is
    none, only because of calls that were left open. As long as it has not come there, it has the
    host's heap. But a tag that the recorder gave is lower than the one that the replay has for the
    same handle, by the number of objects whose events had been handed over. So the tags are right
    that were given before the first of them, and every later one stands for another object. -/
theorem appended_allocations_shift_tags {contexts : Option (List Context)} {keepsNames : Bool}
    {limit : Nat} {program : List Deed} {first : Host} {turns more : List Turn} {last final : Mixed}
    (reported : (Host.start contexts keepsNames).run limit program = .ok first)
    (ran : run limit ⟨first, []⟩ turns = .ok last)
    (early : ∀ t ∈ turns, t.handles ⊆ first.recorder.tags.handles)
    (went : last.run limit more = .ok final)
    {settings : Settings} (deep : limit ≤ settings.maxDepth) (narrow : limit ≤ UInt32.size)
    (fastForward takeCheckpoints : Bool) (demands : List Demand) :
    let made := drive demands (fresh final.host.recorder.log (.fresh contexts) settings fastForward
      takeCheckpoints .empty)
    (made.2.phase = .faulted → last.host.position ≤ made.2.position ∧
      (more = [] → last.host.openCalls ≠ [])) ∧
    (made.2.phase ≠ .faulted → made.2.position ≤ last.host.position →
      (first.position ≤ made.2.position → ∀ handle tag,
        first.recorder.tags.tagOf? handle = some tag →
        made.2.session.tags.resolve tag = .ok handle) ∧
      ∀ done t rest mid next, turns = done ++ t :: rest →
        run limit ⟨first, []⟩ done = .ok mid → mid.turn limit t = .ok next →
        (made.2.position = next.host.position →
          made.2.session.engine.heap = next.host.sandbox.heap) ∧
        (next.host.position ≤ made.2.position → ∀ handle tag, mid.Gave next handle tag →
          Shifted made.2 mid.unseen.length handle tag)) := by
  intro made
  let log := final.host.recorder.log
  let reference := Playback.reference (.fresh contexts) settings
  have begun := trails_first reported deep narrow
  obtain ⟨-, tags, trails, -⟩ := begun.run narrow early ran
  obtain ⟨c, here, shadow⟩ := trails.follows
  obtain ⟨timed, onwards⟩ := run_grows shadow.sound.timed.of_retagged went
  have standing := Playback.reference_standing (.fresh contexts) settings
  have along : Playback.Along log reference contexts [] (fresh log (.fresh contexts) settings
      fastForward takeCheckpoints .empty) :=
    Playback.fresh_along fastForward takeCheckpoints
      fun i cp found => absurd found (by simp [Notes.empty])
  have driven := along.driven timed.ordered rfl standing demands
  -- a fault lies where the course has an error, and there is none before the last part
  constructor
  · intro faulted
    obtain ⟨err, -, place⟩ := (driven.broken faulted).fault
    have there := (onwards.course reference (Nat.le_refl _)).trans here
    refine ⟨place.behind there onwards.size, ?_⟩
    rintro rfl ended
    obtain rfl := ok_of_pure_ok went
    have closed : c.session.stack.frames = [] := List.map_eq_nil_iff.1 (shadow.frames.trans ended)
    exact Log.not_faultsAt here closed place
  -- up to the last part the replay is abreast of the
  -- host, with tags that go on from those given first
  intro unfaulted high
  have keeps := driven.keeps unfaulted
  constructor
  · intro low handle tag tagged
    have issued := begun.lag.issued
    have continues := begun.become narrow early ran onwards keeps low high
    exact continues.resolved issued (TagTable.resolve_tagOf issued tagged)
  · rintro done t rest mid next rfl ran' done'
    obtain ⟨before, after⟩ := List.forall_mem_append.1 early
    obtain ⟨now, after⟩ := List.forall_mem_cons.1 after
    obtain ⟨-, tags', trails, -⟩ := begun.run narrow before ran'
    rw [run, foldlM_append_ok ran', List.foldlM_cons, bind_of_ok done'] at ran
    refine ⟨fun meet => ?_, fun low handle tag gave => ?_⟩
    -- behind the turn the replay has the heap that the host had
    · obtain ⟨tags'', onward⟩ := trails.turn narrow now done'
      have extended := (onward.trails.run narrow after ran).1
      exact (onward.trails.read (extended.trans onwards) keeps meet).2
    · exact trails.shifts narrow now done' gave after ran onwards keeps low high

/-- An object is reported. Then another one is handed over, an array is reported, and something is
    done with the first object. -/
def handedOver : List Turn := [
  .append ⟨2⟩ (by decide) ⟨1⟩ (.object true),
  .deed ⟨⟨1⟩, .ask (.createArray 2)⟩,
  .deed ⟨⟨1⟩, .ask (.setProperty ⟨0⟩ ⟨7⟩ .null true)⟩]

/-- The recorder gives the array the tag 2, which the replay has given to the other object. -/
theorem handedOver_shifts : ∃ first last,
    (Host.start none true).run 0 [⟨⟨1⟩, .ask (.createObject true)⟩] = .ok first ∧
    run 0 ⟨first, []⟩ handedOver = .ok last ∧
    (∀ t ∈ handedOver, t.handles ⊆ first.recorder.tags.handles) ∧
    last.host.recorder.tags.tagOf? ⟨2⟩ = some ⟨2⟩ ∧
    let made := drive [.run] (fresh last.host.recorder.log (.fresh none) {} true true .empty)
    made.2.position = 4 ∧ Shifted made.2 1 ⟨2⟩ ⟨2⟩ := by
  obtain ⟨first, mid, next, last, reported, appended, done, ran, early, ended, lags, new, gave, given,
      before, size, ends⟩ : ∃ first mid next last,
      (Host.start none true).run 0 [⟨⟨1⟩, .ask (.createObject true)⟩] = .ok first ∧
      run 0 ⟨first, []⟩ (handedOver.take 1) = .ok mid ∧
      mid.turn 0 (.deed ⟨⟨1⟩, .ask (.createArray 2)⟩) = .ok next ∧
      run 0 ⟨first, []⟩ handedOver = .ok last ∧
      (∀ t ∈ handedOver, t.handles ⊆ first.recorder.tags.handles) ∧
      last.host.openCalls = [] ∧ mid.unseen.length = 1 ∧
      mid.host.recorder.tags.tagOf? ⟨2⟩ = none ∧
      next.host.recorder.tags.tagOf? ⟨2⟩ = some ⟨2⟩ ∧
      last.host.recorder.tags.tagOf? ⟨2⟩ = some ⟨2⟩ ∧ next.host.position ≤ 4 ∧
      last.host.position = 4 ∧
      (drive [.run] (fresh last.host.recorder.log (.fresh none) {} true true .empty)).2.position = 4 :=
    ⟨_, _, _, _, rfl, rfl, rfl, rfl, by decide +kernel⟩
  have stays : last.run 0 [] = .ok last := rfl
  obtain ⟨faults, law⟩ := appended_allocations_shift_tags reported ran early stays
    (Nat.zero_le _) (Nat.zero_le _) true true [.run]
  have unfaulted := fun faulted => (faults faulted).2 rfl ended
  obtain ⟨-, shifts⟩ := law unfaulted (Nat.le_of_eq (ends.trans size.symm))
  obtain ⟨-, shifted⟩ := shifts _ _ _ mid next rfl appended done
  refine ⟨first, last, reported, ran, early, given, ends, ?_⟩
  rw [← lags]
  exact shifted (ends ▸ before) ⟨2⟩ ⟨2⟩ ⟨new, gave⟩

/-- An object is handed over, the next one is reported, and that one is written to. -/
def misled : List Turn := [
  .append ⟨1⟩ (by decide) ⟨1⟩ (.object true),
  .deed ⟨⟨1⟩, .ask (.createObject true)⟩,
  .deed ⟨⟨1⟩, .ask (.setProperty ⟨1⟩ ⟨7⟩ (.bool true) true)⟩]

/-- Its replay writes to the object that was handed over, and reports nothing. -/
theorem misled_writes_to_other : ∃ last,
    run 0 ⟨.start none true, []⟩ misled = .ok last ∧
    let made := drive [.run] (fresh last.host.recorder.log (.fresh none) {} true true .empty)
    (last.host.recorder.tags.tagOf? ⟨1⟩ = some ⟨1⟩ ∧
      last.host.sandbox.heap.ownProperty? ⟨1⟩ ⟨7⟩ = some (.bool true)) ∧
    (made.2.position = 3 ∧ errorsOf made.1 = []) ∧
      made.2.session.tags.resolve ⟨1⟩ = .ok ⟨0⟩ ∧
      made.2.session.engine.heap.ownProperty? ⟨0⟩ ⟨7⟩ = some (.bool true) ∧
      made.2.session.engine.heap.ownProperty? ⟨1⟩ ⟨7⟩ = none := by
  refine ⟨_, rfl, ?_⟩
  decide +kernel

end Mixed
end Retrace
