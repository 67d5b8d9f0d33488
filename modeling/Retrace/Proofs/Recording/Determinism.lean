import Retrace.Proofs.Recording.Shadow
import Retrace.Proofs.Replay.FastForward

/-!
# What was recorded is replayed

A host works with a sandbox and records what it does. Replaying its log on a fresh sandbox comes to
the same after every event, and to the end of the log (`Host.replay_comes_to_the_same`).

The course of the log is what connects the two. While the host goes on, its log grows at the end
only, so the course of an earlier log is a piece of the course of the whole one
(`Log.Extends.course`). By `Shadow.step` the course behind the last event is always where the host
is (`Follows`). That the course has no errors in it but exceptions that went uncaught makes every
playback of the log reach its end, whatever is asked of it on the way.
-/

namespace Retrace

/-! ## Logs that grow -/

/-- The second log begins with all events of the first. -/
structure Log.Extends (shorter longer : Log) : Prop where
  size : shorter.size ≤ longer.size
  events : ∀ i < shorter.size, longer.get? i = shorter.get? i

theorem Log.Extends.refl (log : Log) : log.Extends log := ⟨Nat.le_refl _, fun _ _ => rfl⟩

theorem Log.Extends.trans {first second third : Log} (h : first.Extends second)
    (h' : second.Extends third) : first.Extends third := by
  refine ⟨Nat.le_trans h.size h'.size, ?_⟩
  intro i inside
  rw [h'.events i (Nat.lt_of_lt_of_le inside h.size), h.events i inside]

theorem Log.extends_push (log : Log) (e : Event) : log.Extends (log.push e) := by
  refine ⟨?_, fun i inside => ?_⟩
  · show log.events.size ≤ (log.events.push e).size
    rw [Array.size_push]
    exact Nat.le_succ _
  · show (log.events.push e)[i]? = log.events[i]?
    rw [Array.getElem?_push_lt inside, Array.getElem?_eq_getElem inside]

/-- The course of a log goes on where that of its beginning ends. -/
theorem Log.Extends.course {ρ η σ : Type} [Engine ρ η σ] [DecidableEq η] {shorter longer : Log}
    (h : shorter.Extends longer) (start : Session ρ η σ) {position : Nat}
    (inside : position ≤ shorter.size) :
    longer.course start position = shorter.course start position := by
  -- the positions gone by are those of the shorter log, where both have the same events
  induction position with
  | zero => rfl
  | succ position ih =>
    rw [Log.course, Log.course, ih (Nat.le_of_succ_le inside), h.events position inside]

namespace Host

/-! ## The course of what was recorded so far -/

/-- The course of a host's log has come to where the host is. -/
def Follows (contexts : Option (List Context)) (limit : Nat) (start : SandboxSession)
    (h : Host) : Prop :=
  ∃ c, h.recorder.log.course start h.position = .ok c ∧ Shadow contexts limit h c.session

section Program

variable {contexts : Option (List Context)} {limit : Nat} {start : SandboxSession} {h h' : Host}

theorem Follows.issued (follows : Follows contexts limit start h) : h.recorder.tags.Issued := by
  obtain ⟨c, -, shadow⟩ := follows
  exact shadow.sound.issued

/-- If the host has recorded an event that is followed, the course goes on by it. -/
theorem Follows.pushed {c : Course Sandbox ObjectRef SandboxSnapshot}
    (here : h.recorder.log.course start h.position = .ok c) {e : Event}
    (pushed : h'.recorder.log = h.recorder.log.push e)
    (followed : ∀ position, Followed contexts limit h' (Session.execute position e c.session)) :
    Follows contexts limit start h' ∧ h.recorder.log.Extends h'.recorder.log ∧
      h'.position = h.position + 1 := by
  have size : h'.position = h.position + 1 := by
    unfold position
    rw [pushed]
    exact Array.size_push _
  have extended : h.recorder.log.Extends h'.recorder.log := pushed ▸ Log.extends_push _ e
  refine ⟨?_, extended, size⟩
  -- the course of the longer log is at the same place, and has one event before it
  have before : h'.recorder.log.course start h.position = .ok c :=
    (extended.course start (Nat.le_refl _)).trans here
  have next : h'.recorder.log.get? h.position = some e := by
    rw [pushed]
    exact Array.getElem?_push_size
  have after := Log.course_succ before next
  rw [← size] at after
  have ended := followed h.position
  unfold Course.after at after
  cases ran : Session.execute h.position e c.session with
  | ok _ session =>
    rw [ran] at after ended
    exact ⟨_, after, ended⟩
  | error err session =>
    rw [ran] at after ended
    obtain ⟨passing, shadow⟩ := ended
    simp only [passing] at after
    exact ⟨_, after, shadow⟩

theorem Follows.step (follows : Follows contexts limit start h) (narrow : limit ≤ UInt32.size)
    {deed : Deed} (done : step limit h deed = .ok h') :
    Follows contexts limit start h' ∧ h.recorder.log.Extends h'.recorder.log ∧
      h'.position ≤ h.position + 1 := by
  obtain ⟨c, here, shadow⟩ := follows
  rcases shadow.step narrow done with ⟨same, shadow⟩ | ⟨e, pushed, followed⟩
  · refine ⟨⟨c, ?_, shadow⟩, ?_, ?_⟩
    · unfold position
      rw [same]
      exact here
    · rw [same]
      exact .refl _
    · unfold position
      rw [same]
      exact Nat.le_succ _
  · obtain ⟨further, extended, size⟩ := Follows.pushed here pushed followed
    exact ⟨further, extended, Nat.le_of_eq size⟩

theorem Follows.run (follows : Follows contexts limit start h) (narrow : limit ≤ UInt32.size)
    {program : List Deed} (ran : run limit h program = .ok h') :
    Follows contexts limit start h' ∧ h.recorder.log.Extends h'.recorder.log := by
  induction program generalizing h with
  | nil =>
    obtain rfl := ok_of_pure_ok ran
    exact ⟨follows, .refl _⟩
  | cons deed program ih =>
    obtain ⟨next, done, rest⟩ := run_cons ran
    obtain ⟨further, extended, -⟩ := follows.step narrow done
    obtain ⟨final, extended'⟩ := ih further rest
    exact ⟨final, extended.trans extended'⟩

/-- A host comes by every position between where it starts and where it ends. -/
theorem Follows.between (follows : Follows contexts limit start h) (narrow : limit ≤ UInt32.size)
    {program : List Deed} (ran : Host.run limit h program = .ok h') {k : Nat}
    (low : h.position ≤ k) (high : k ≤ h'.position) :
    ∃ done rest mid, program = done ++ rest ∧ Host.run limit h done = .ok mid ∧
      mid.position = k := by
  induction program generalizing h with
  | nil =>
    obtain rfl := ok_of_pure_ok ran
    exact ⟨[], [], h, rfl, rfl, Nat.le_antisymm low high⟩
  | cons deed program ih =>
    obtain ⟨next, done, rest⟩ := run_cons ran
    obtain ⟨further, -, close⟩ := follows.step narrow done
    by_cases here : k = h.position
    · exact ⟨[], deed :: program, h, rfl, rfl, here.symm⟩
    · obtain ⟨first, rest', mid, rfl, ran', at_⟩ := ih further rest (by omega)
      refine ⟨deed :: first, rest', mid, rfl, ?_, at_⟩
      unfold Host.run at ran' ⊢
      rw [List.foldlM_cons, done]
      exact ran'

end Program

/-! ## Replaying the whole log -/

/-- A playback has come to what its host had come to. -/
structure Agrees (h : Host) (p : Playback.OfSandbox) : Prop where
  /-- The tags are equal, and so are the handles bound to them and the order in which they were. -/
  tags : p.session.tags = h.recorder.tags
  heap : p.session.engine.heap = h.sandbox.heap
  calls : p.session.engine.calls = h.sandbox.calls
  lastStatement : p.session.engine.lastStatement = h.sandbox.lastStatement

theorem Shadow.agrees {contexts : Option (List Context)} {limit : Nat} {log : Log}
    {start : SandboxSession} {known : Option (List Context)} {errs : List ReplayError} {h : Host}
    {p : Playback.OfSandbox} {c : Course Sandbox ObjectRef SandboxSnapshot}
    (shadow : Shadow contexts limit h c.session) (here : log.course start h.position = .ok c)
    (keeps : Playback.Keeps log start known errs p) (meet : p.position = h.position) :
    Agrees h p := by
  obtain ⟨c', here', abreast, -⟩ := keeps.course
  rw [meet] at here'
  obtain rfl : c' = c := Except.ok.inj (here'.symm.trans here)
  have alike := abreast.engine
  have same := shadow.engine
  exact ⟨abreast.tags.symm.trans shadow.tags, alike.heap.symm.trans same.heap.symm,
    alike.calls.symm.trans same.calls.symm, alike.lastStatement.symm.trans same.lastStatement.symm⟩

theorem start_follows (contexts : Option (List Context)) (keepsNames : Bool) {limit : Nat}
    {settings : Settings} (deep : limit ≤ settings.maxDepth) :
    Follows contexts limit (Playback.reference (.fresh contexts) settings)
      (start contexts keepsNames) :=
  ⟨⟨Playback.reference (.fresh contexts) settings, []⟩, rfl,
    start_shadow contexts keepsNames deep⟩

open Playback (drive fresh)

/-- **Recording and replay are in step.** Let a host do what it likes with a sandbox and record all
    of it, with no more than `limit` calls open at a time, and none in the end. However its log is
    then replayed on a sandbox that is as fresh, nothing faults, not even if the exceptions of calls
    are verified; and wherever the replay stands, it agrees with the host as it was when it had
    recorded as many events. Stepping comes by all positions there are. Running, and going on after
    every exception that went uncaught, comes to the end of the log, and reports nothing else. -/
theorem replay_comes_to_the_same {contexts : Option (List Context)} {keepsNames : Bool}
    {limit : Nat} {program : List Deed} {host : Host}
    (ran : run limit (start contexts keepsNames) program = .ok host)
    (ended : host.openCalls = []) {settings : Settings} (deep : limit ≤ settings.maxDepth)
    (narrow : limit ≤ UInt32.size) (fastForward takeCheckpoints : Bool) :
    let replay := fresh host.recorder.log (.fresh contexts) settings fastForward takeCheckpoints
      .empty
    (∀ demands,
      let made := drive demands replay
      firstTerminal made.1 = none ∧ made.2.phase ≠ .faulted ∧
      ∀ done rest mid, program = done ++ rest →
        run limit (start contexts keepsNames) done = .ok mid →
        made.2.position = mid.position → Agrees mid made.2) ∧
    (∀ k ≤ host.position,
      (drive (List.replicate k .step) replay).2.position = k ∧
      ∃ done rest mid, program = done ++ rest ∧
        run limit (start contexts keepsNames) done = .ok mid ∧ mid.position = k) ∧
    let made := drive (List.replicate (host.position + 2) .run) replay
    made.2.position = host.position ∧ ∀ err ∈ errorsOf made.1, err.isUncaught = true := by
  intro replay
  let log := host.recorder.log
  let reference := Playback.reference (.fresh contexts) settings
  have started : Follows contexts limit reference (start contexts keepsNames) :=
    start_follows contexts keepsNames deep
  obtain ⟨⟨c, here, shadow⟩, -⟩ := started.run narrow ran
  have ordered : log.Ordered := shadow.sound.timed.ordered
  have closed : c.session.stack.frames = [] := List.map_eq_nil_iff.1 (shadow.frames.trans ended)
  have sound (position : Nat) (err : ReplayError) : ¬ log.FaultsAt reference position err :=
    Log.not_faultsAt here closed
  have standing := Playback.reference_standing (.fresh contexts) settings
  have along : Playback.Along log reference contexts [] replay :=
    Playback.fresh_along fastForward takeCheckpoints
      fun i cp found => absurd found (by simp [Notes.empty])
  -- a playback that faults does so where the course has an error, and there is none
  have keeps (demands : List Demand) : Playback.Keeps log reference contexts
      (errorsOf (drive demands replay).1) (drive demands replay).2 := by
    rcases (along.driven ordered rfl standing demands).state with keeps | broken
    · exact keeps
    · obtain ⟨err, -, place⟩ := broken.fault
      exact absurd place (sound _ err)
  refine ⟨fun demands => ?_, fun k inside => ⟨?_, ?_⟩, ?_⟩
  · intro made
    refine ⟨(keeps demands).clean, (keeps demands).sound, ?_⟩
    rintro done rest mid rfl ran' meet
    obtain ⟨⟨c', here', shadow'⟩, -⟩ := started.run narrow ran'
    -- what the rest of the program records comes behind, so the course up to here stays
    rw [run_append ran'] at ran
    obtain ⟨-, extended⟩ := Follows.run ⟨c', here', shadow'⟩ narrow ran
    exact shadow'.agrees ((extended.course reference (Nat.le_refl _)).trans here') (keeps demands)
      meet
  · have within : replay.position + k ≤ log.size := by
      show 0 + k ≤ host.position
      rwa [Nat.zero_add]
    rw [along.steps_to ordered rfl standing sound rfl within]
    exact Nat.zero_add k
  · exact started.between narrow ran (Nat.zero_le k) inside
  · intro made
    obtain ⟨target, rests⟩ := along.rests ordered rfl standing rfl (keeps _).clean
    have kept := keeps (List.replicate (host.position + 2) .run)
    have outside : log.size ≤ made.2.position :=
      Array.getElem?_eq_none_iff.1 (kept.isLog ▸ Playback.finished_of_none rests)
    refine ⟨Nat.le_antisymm kept.within outside, ?_⟩
    intro err reported
    have unstopped : Playback.Unstopped ([] ++ errorsOf made.1) made.2 :=
      Playback.Unstopped.driven (by simp) ⟨rfl, by simp⟩
    -- an error that lets the replay go on is an exception or says that it was stopped
    have passing : ¬ err.isTerminal = true := List.find?_eq_none.1 kept.clean err reported
    cases err with
    | uncaughtException => rfl
    | aborted next => exact absurd reported (unstopped.quiet next)
    | _ => exact absurd rfl passing

/-- A host loads two scripts, calls the second from within the first and catches what it throws, and
    then calls the second again, which throws uncaught. -/
def nestedCalls : List Deed :=
  let script (text : String) : Script := ⟨⟨1⟩, 0, ⟨1⟩, "", "", "", text⟩
  let deeds : List Operation := [
    .ask (.loadScript (script "new object")),
    .ask (.loadScript (script "throw boom")),
    .beginCall ⟨0⟩ [] .none ⟨0⟩ none,
    .beginCall ⟨1⟩ [.ref ⟨0⟩] .none ⟨0⟩ none,
    .endCall ⟨0⟩,
    .takeException,
    .endCall ⟨0⟩,
    .beginCall ⟨1⟩ [.ref ⟨2⟩] .none ⟨0⟩ none,
    .endCall ⟨0⟩]
  deeds.map (Deed.mk ⟨0⟩)

/-- Its log has nine events, and a replay that verifies exceptions comes to what the host came to.
-/
theorem nestedCalls_replayed :
    ∃ host, run 2 (start none true) nestedCalls = .ok host ∧ host.openCalls = [] ∧
      let replay := fresh host.recorder.log (.fresh none)
        { verifyExceptions := true, maxDepth := 2 } true true .empty
      let made := drive (List.replicate (host.position + 2) .run) replay
      made.2.position = 9 ∧ Agrees host made.2 := by
  have ends : (run 2 (start none true) nestedCalls).toOption.map
      (fun h => (h.openCalls, h.position)) = some ([], 9) := by decide +kernel
  have deep : 2 ≤ ({ verifyExceptions := true, maxDepth := 2 } : Settings).maxDepth := Nat.le_refl 2
  cases ran : run 2 (start none true) nestedCalls with
  | error e => rw [ran] at ends; exact absurd ends (by simp [Except.toOption])
  | ok host =>
    rw [ran] at ends
    obtain ⟨closed, nine⟩ := Prod.mk.inj (Option.some.inj ends)
    obtain ⟨driven, -, reaches, -⟩ := replay_comes_to_the_same ran closed deep (by decide) true true
    obtain ⟨-, -, agrees⟩ := driven (List.replicate (host.position + 2) .run)
    exact ⟨host, rfl, closed, reaches.trans nine,
      agrees nestedCalls [] host (List.append_nil _).symm ran reaches⟩

end Host
end Retrace
