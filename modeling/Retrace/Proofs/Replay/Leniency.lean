import Retrace.Proofs.Replay.Course

/-!
# Replaying under stricter settings

Two settings decide what a replay tolerates: how many calls may be open, and whether a call may end
in another way than it was recorded to. Nothing else reads them. So an event that is replayed under
stricter settings either fails by one of these two checks, which the laxer settings do not make
(`ReplayError.Extra`), or it ends as it does under the laxer ones, in the same state
(`Session.execute_under`). And so the course of a log under stricter settings is the one under the
laxer, up to the first error that only the stricter ones raise (`Log.course_under`).
-/

namespace Retrace

/-- What fails under the second settings fails under the first. -/
structure Settings.Stricter (settings lax : Settings) : Prop where
  depth : settings.maxDepth ≤ lax.maxDepth
  verify : lax.verifyExceptions = true → settings.verifyExceptions = true

/-- The error is one of a check that the first settings make and the second do not. -/
def ReplayError.Extra (settings lax : Settings) : ReplayError → Prop
  | .callDepthExceeded .. => settings.maxDepth < lax.maxDepth
  | .exceptionDivergence .. => settings.verifyExceptions = true ∧ lax.verifyExceptions = false
  | _ => False

theorem ReplayError.Extra.terminal {settings lax : Settings} {err : ReplayError}
    (h : err.Extra settings lax) : err.isTerminal = true := by
  cases err <;> first | rfl | exact h.elim

/-- No settings are stricter than themselves. -/
theorem ReplayError.not_extra {settings lax : Settings} (depth : settings.maxDepth = lax.maxDepth)
    (verify : settings.verifyExceptions = lax.verifyExceptions) (err : ReplayError) :
    ¬ err.Extra settings lax := by
  intro extra
  cases err with
  | callDepthExceeded =>
    have less : settings.maxDepth < lax.maxDepth := extra
    omega
  | exceptionDivergence => exact absurd (extra.1.symm.trans (verify.trans extra.2)) (by simp)
  | _ => exact extra

/-! ## What several settings tolerate -/

namespace Settings

theorem Stricter.refl (settings : Settings) : settings.Stricter settings := ⟨Nat.le_refl _, id⟩

theorem Stricter.trans {s t u : Settings} (h : s.Stricter t) (h' : t.Stricter u) : s.Stricter u :=
  ⟨Nat.le_trans h.depth h'.depth, fun verify => h.verify (h'.verify verify)⟩

/-- Settings that tolerate what either of two do. -/
def join (s t : Settings) : Settings :=
  { s with
    maxDepth := max s.maxDepth t.maxDepth
    verifyExceptions := s.verifyExceptions && t.verifyExceptions }

theorem stricter_join_left (s t : Settings) : s.Stricter (s.join t) :=
  ⟨Nat.le_max_left .., fun verify => (Bool.and_eq_true_iff.1 verify).1⟩

theorem stricter_join_right (s t : Settings) : t.Stricter (s.join t) :=
  ⟨Nat.le_max_right .., fun verify => (Bool.and_eq_true_iff.1 verify).2⟩

/-- Settings that tolerate what these do, and what any of the earlier did. -/
def laxest (settings : Settings) (earlier : List Settings) : Settings := earlier.foldr join settings

theorem stricter_laxest (settings : Settings) (earlier : List Settings) :
    settings.Stricter (settings.laxest earlier) := by
  induction earlier with
  | nil => exact .refl settings
  | cons s earlier ih => exact ih.trans (stricter_join_right s _)

theorem stricter_laxest_of_mem (settings : Settings) {earlier : List Settings} {s : Settings}
    (mem : s ∈ earlier) : s.Stricter (settings.laxest earlier) := by
  induction earlier with
  | nil => exact absurd mem List.not_mem_nil
  | cons t earlier ih =>
    rcases List.mem_cons.1 mem with rfl | before
    · exact stricter_join_left s _
    · exact (ih before).trans (stricter_join_right t _)

end Settings

theorem ReplayError.Extra.of_join {settings s t : Settings} {err : ReplayError}
    (h : err.Extra settings (s.join t)) : err.Extra settings s ∨ err.Extra settings t := by
  cases err with
  | callDepthExceeded =>
    have less : settings.maxDepth < max s.maxDepth t.maxDepth := h
    show settings.maxDepth < s.maxDepth ∨ settings.maxDepth < t.maxDepth
    omega
  | exceptionDivergence =>
    obtain ⟨verified, lax⟩ := h
    exact (Bool.and_eq_false_iff.1 lax).imp (⟨verified, ·⟩) (⟨verified, ·⟩)
  | _ => exact h.elim

/-- A check that not all of these settings make is left out by one of the earlier. -/
theorem ReplayError.Extra.of_laxest {settings : Settings} {earlier : List Settings}
    {err : ReplayError} (h : err.Extra settings (settings.laxest earlier)) :
    ∃ s ∈ earlier, err.Extra settings s := by
  induction earlier with
  | nil => exact absurd h (ReplayError.not_extra rfl rfl err)
  | cons s earlier ih =>
    rcases Extra.of_join h with here | before
    · exact ⟨s, List.mem_cons_self, here⟩
    · obtain ⟨t, mem, extra⟩ := ih before
      exact ⟨t, List.mem_cons_of_mem _ mem, extra⟩

namespace Session

variable {ρ η σ : Type}

/-- The session under other settings. -/
def under (lax : Settings) (s : Session ρ η σ) : Session ρ η σ := { s with settings := lax }

/-- Two runs ended alike, but for the settings of the sessions. -/
abbrev Likewise {α : Type} (lax : Settings) :
    EStateM.Result ReplayError (Session ρ η σ) α → EStateM.Result ReplayError (Session ρ η σ) α →
      Prop :=
  Matched (fun s t => t = s.under lax) Eq Eq

/-! ## What does not read the settings -/

section Steps

variable (lax : Settings) (s : Session ρ η σ)

theorem rooted_under (time : Time) (call : CallBegin) :
    (s.under lax).rooted time call = (s.rooted time call).under lax := by
  unfold rooted
  split <;> rfl

theorem popCall_under (time : Time) (call : CallEnd) :
    Likewise lax (popCall time call s) (popCall time call (s.under lax)) := by
  rw [popCall_run, popCall_run, show (s.under lax).stack = s.stack from rfl]
  cases s.stack.frames with
  | nil => exact ⟨rfl, rfl⟩
  | cons frame frames =>
    dsimp only
    split
    · exact ⟨rfl, rfl⟩
    split
    · exact ⟨rfl, rfl⟩
    · exact ⟨rfl, rfl⟩

section Engine

variable [Engine ρ η σ]

theorem enter_under (time : Time) (context : Context) :
    Likewise lax (enter time context s) (enter time context (s.under lax)) := by
  rw [enter_run, enter_run, show (s.under lax).context = s.context from rfl,
    show (s.under lax).engine = s.engine from rfl]
  split
  · exact ⟨rfl, rfl⟩
  · cases Engine.enter context s.engine <;> exact ⟨rfl, rfl⟩

theorem noted_under (position : Nat) (call : CallEnd) :
    (s.under lax).noted position call = (s.noted position call).under lax := by
  unfold noted
  split
  · rw [show (s.under lax).engine = s.engine from rfl]
    split <;> rfl
  · rfl

end Engine

variable [DecidableEq η]

theorem settled_under (outcome : Outcome η) :
    (s.under lax).settled outcome = (s.settled outcome).under lax := by
  cases outcome <;> rfl

theorem takeException_under :
    Likewise lax (takeException s) (takeException (s.under lax)) := by
  rw [takeException_run, takeException_run, show (s.under lax).pending = s.pending from rfl]
  refine ⟨rfl, ?_⟩
  cases s.pending <;> rfl

variable [Engine ρ η σ]

theorem answer_under (time : Time) (request : Request η) :
    Likewise lax (answer time request s) (answer time request (s.under lax)) := by
  rw [answer_run, answer_run, show (s.under lax).engine = s.engine from rfl]
  cases Engine.perform request s.engine with
  | error fault engine => exact ⟨rfl, rfl⟩
  | ok result engine =>
    refine ⟨rfl, ?_⟩
    unfold kept
    split <;> rfl

theorem construct_under (time : Time) (function : Tag) (args : List Recorded) :
    Likewise lax (construct time function args s) (construct time function args (s.under lax)) := by
  rw [construct_run, construct_run, show (s.under lax).tags = s.tags from rfl]
  cases s.tags.callOf function args with
  | error e => exact ⟨rfl, rfl⟩
  | ok call =>
    let made := Engine.construct call.1 call.2 s.engine
    exact ⟨rfl, settled_under lax { s with engine := made.2 } made.1⟩

theorem called_under (position : Nat) (call : CallEnd) (frame : Frame η) :
    (s.under lax).called position call frame = (s.called position call frame).under lax := by
  let made := Engine.call frame.callee frame.args s.engine
  have settled := settled_under lax { s with engine := made.2 } made.1
  exact (congrArg (noted position call) settled).trans (noted_under lax _ position call)

end Steps

/-! ## What does -/

section Checks

variable {lax : Settings} {s : Session ρ η σ}

/-- The run failed by a check that is not made under the laxer settings. -/
def Overchecked {α : Type} (settings lax : Settings) :
    EStateM.Result ReplayError (Session ρ η σ) α → Prop
  | .ok _ _ => False
  | .error err _ => err.Extra settings lax

/-- Only the limit on open calls is read where a call begins. -/
theorem beginCall_under (stricter : s.settings.Stricter lax) (time : Time) (call : CallBegin) :
    Overchecked s.settings lax (beginCall time call s) ∨
      Likewise lax (beginCall time call s) (beginCall time call (s.under lax)) := by
  rw [beginCall_run, beginCall_run, show (s.under lax).stack = s.stack from rfl,
    show (s.under lax).settings = lax from rfl, show (s.under lax).tags = s.tags from rfl]
  split
  · exact Or.inr ⟨rfl, rfl⟩
  split
  · rename_i full
    rcases Nat.lt_or_eq_of_le stricter.depth with less | same
    · exact Or.inl less
    · rw [if_pos (same ▸ full), same]
      exact Or.inr ⟨rfl, rfl⟩
  · rename_i room
    rw [if_neg fun full => room (Nat.le_trans stricter.depth full), rooted_under]
    cases s.tags.callOf call.function call.args with
    | error e => exact Or.inr ⟨rfl, rfl⟩
    | ok made => exact Or.inr ⟨rfl, rfl⟩

theorem popCall_settings {time : Time} {call : CallEnd} {frame : Frame η} {s' : Session ρ η σ}
    (popped : popCall time call s = .ok frame s') : s'.settings = s.settings := by
  rw [popCall_run] at popped
  split at popped
  · exact absurd popped (by simp)
  split at popped
  · exact absurd popped (by simp)
  split at popped
  · exact absurd popped (by simp)
  · obtain ⟨-, rfl⟩ := EStateM.Result.ok.inj popped
    rfl

variable [DecidableEq η] [Engine ρ η σ]

/-- Only whether outcomes are verified is read where a call ends. -/
theorem endCall_under (stricter : s.settings.Stricter lax) (position : Nat) (time : Time)
    (call : CallEnd) :
    Overchecked s.settings lax (endCall position time call s) ∨
      Likewise lax (endCall position time call s) (endCall position time call (s.under lax)) := by
  have popped := popCall_under lax s time call
  rw [endCall_run, endCall_run]
  cases hp : popCall time call s with
  | error err s' =>
    rw [hp] at popped
    cases hq : popCall time call (s.under lax) with
    | error err' t => rw [hq] at popped; exact Or.inr popped
    | ok frame t => rw [hq] at popped; exact popped.elim
  | ok frame s' =>
    rw [hp] at popped
    cases hq : popCall time call (s.under lax) with
    | error err' t => rw [hq] at popped; exact popped.elim
    | ok frame' t =>
      rw [hq] at popped
      obtain ⟨rfl, rfl⟩ := popped
      have settings := popCall_settings hp
      dsimp only
      rw [called_under, show (s'.under lax).engine = s'.engine from rfl,
        show (s'.under lax).settings = lax from rfl]
      by_cases failed : call.raised ≠ threw (Engine.call frame.callee frame.args s'.engine).1 ∧
          s'.settings.verifyExceptions = true
      · rw [if_pos failed]
        cases verified : lax.verifyExceptions with
        | false => exact Or.inl ⟨settings ▸ failed.2, verified⟩
        | true => rw [if_pos ⟨failed.1, rfl⟩]; exact Or.inr ⟨rfl, rfl⟩
      · have passed : ¬ (call.raised ≠ threw (Engine.call frame.callee frame.args s'.engine).1 ∧
            lax.verifyExceptions = true) := fun both =>
          failed ⟨both.1, settings ▸ stricter.verify both.2⟩
        rw [if_neg failed, if_neg passed]
        split
        · exact Or.inr ⟨rfl, rfl⟩
        · exact Or.inr ⟨rfl, rfl⟩

/-! ## One event -/

theorem act_under (stricter : s.settings.Stricter lax) (position : Nat) (e : Event) :
    Overchecked s.settings lax (act position e s) ∨
      Likewise lax (act position e s) (act position e (s.under lax)) := by
  unfold act
  rw [show (s.under lax).tags = s.tags from rfl]
  cases e.action.request? s.tags with
  | some r =>
    cases r with
    | ok request => exact Or.inr (answer_under lax s e.time request)
    | error error => exact Or.inr ⟨rfl, rfl⟩
  | none =>
    cases e.action with
    | getAndClearException => exact Or.inr (takeException_under lax s)
    | constructCall function args => exact Or.inr (construct_under lax s e.time function args)
    | callbackOp op => exact Or.inr ⟨rfl, rfl⟩
    | callBegin call => exact beginCall_under stricter e.time call
    | callEnd call => exact endCall_under stricter position e.time call
    | _ => exact Or.inr ⟨rfl, rfl⟩

/-- **An event under stricter settings fails by a check that the laxer do not make, or ends as it
    does under those.** -/
theorem execute_under (stricter : s.settings.Stricter lax) (position : Nat) (e : Event) :
    Overchecked s.settings lax (execute position e s) ∨
      Likewise lax (execute position e s) (execute position e (s.under lax)) := by
  have entered := enter_under lax s e.time e.context
  have inner := enter_inner e.time e.context s
  rw [execute_run, execute_run]
  rcases entered.cases with ⟨_, s', _, _, hs, ht, -, rfl⟩ | ⟨_, _, _, _, hs, ht, failed⟩
  · rw [hs] at inner
    rw [hs, ht]
    dsimp only
    have settings : s'.settings = s.settings := inner.settings
    rw [← settings] at stricter ⊢
    exact act_under stricter position e
  · rw [hs, ht]
    exact Or.inr failed

end Checks
end Session

/-! ## The course of a log -/

section Course

variable {ρ η σ : Type} [Engine ρ η σ] [DecidableEq η] {log : Log} {lax : Settings}
variable {start : Session ρ η σ}

/-- The course under other settings. -/
def Course.under (lax : Settings) (c : Course ρ η σ) : Course ρ η σ :=
  { c with session := c.session.under lax }

theorem Course.after_under {c : Course ρ η σ} (stricter : c.session.settings.Stricter lax)
    (position : Nat) (e : Event) :
    match c.after position e with
    | .ok d => (c.under lax).after position e = .ok (d.under lax)
    | .error err => err.Extra c.session.settings lax ∨
        (c.under lax).after position e = .error err := by
  unfold Course.after
  rw [show (c.under lax).session = c.session.under lax from rfl,
    show (c.under lax).uncaught = c.uncaught from rfl]
  rcases Session.execute_under stricter position e with strict | like
  · cases hx : Session.execute position e c.session with
    | ok u session => rw [hx] at strict; exact strict.elim
    | error err session =>
      rw [hx] at strict
      dsimp only
      rw [if_pos strict.terminal]
      exact Or.inl strict
  · rcases like.cases with ⟨_, _, _, _, hs, ht, -, rfl⟩ | ⟨err, _, _, _, hs, ht, rfl, rfl⟩
    · rw [hs, ht]
      rfl
    · rw [hs, ht]
      dsimp only
      by_cases terminal : err.isTerminal = true
      · rw [if_pos terminal, if_pos terminal]
        exact Or.inr rfl
      · rw [if_neg terminal, if_neg terminal]
        rfl

/-- **The course under stricter settings is the one under the laxer, up to the first error that only
    the stricter settings raise.** -/
theorem Log.course_under (stricter : start.settings.Stricter lax) (position : Nat) :
    match log.course start position with
    | .ok c => log.course (start.under lax) position = .ok (c.under lax)
    | .error err => err.Extra start.settings lax ∨
        log.course (start.under lax) position = .error err := by
  induction position with
  | zero => rfl
  | succ position ih =>
    cases before : log.course start position with
    | error err =>
      rw [before] at ih
      rw [Log.course_of_error before (Nat.le_succ position)]
      exact ih.imp_right fun failed => Log.course_of_error failed (Nat.le_succ position)
    | ok c =>
      rw [before] at ih
      cases next : log.get? position with
      | none => rw [Log.course, Log.course, before, ih, next]
      | some e =>
        rw [Log.course_succ before next, Log.course_succ ih next]
        have same := Log.course_settings before
        rw [← same] at stricter ⊢
        exact Course.after_under stricter position e

end Course
end Retrace
