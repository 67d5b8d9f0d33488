import Retrace.Replay.CallStack

/-!
# Ends of calls that are refused

The end of a call says which call it ends, by the time at which that call began, and how deep the
call stands. The stack holds it against the innermost open call. An end that does not name that
call, or does not follow its begin, is refused and leaves no trace (`popMatching_mismatch`). One
that names the call is judged by its depth, but only when the call is off the stack already:
whatever the depth is, the call is over (`popMatching_innermost`).

So what holds of every refused end is less than one would hope for. The table of matched ends, the
root call and its callback are as they were; and the open calls are, unless it was the depth that
was refused, for then the innermost one is gone (`popMatching_takes_innermost`).
-/

namespace Retrace
namespace CallStack

variable {η : Type} {s : CallStack η} {time named : Time} {depth : UInt32}

/-- The end of a call, at `time`, names this call as the one that began at `named`. -/
structure Names (time named : Time) (frame : Frame η) : Prop where
  begun : frame.begun = named
  later : named < time

/-- An end that does not name the innermost call is refused, and nothing else happens. -/
theorem popMatching_mismatch (other : ∀ frame ∈ s.innermost?, ¬ Names time named frame) :
    popMatching time named depth s =
      .error (.callMismatch time named (s.innermost?.map Frame.begun)) s := by
  unfold popMatching innermost? at *
  cases open_ : s.frames with
  | nil => rfl
  | cons frame frames =>
    rw [open_] at other
    have mismatch : frame.begun ≠ named ∨ time ≤ named := by
      by_cases begun : frame.begun = named
      · refine Or.inr (Decidable.byContradiction fun later => ?_)
        exact other frame rfl ⟨begun, Time.not_le.1 later⟩
      · exact Or.inl begun
    exact if_pos mismatch

/-- An end that names the innermost call takes it off the stack, and then is held against its
    depth. -/
theorem popMatching_innermost {frame : Frame η} {frames : List (Frame η)}
    (open_ : s.frames = frame :: frames) (names : Names time named frame) :
    popMatching time named depth s =
      if frame.depth = depth then .ok frame { s with frames, ends := s.ends.insert named time }
      else .error (.depthMismatch time depth frame.depth.toNat) { s with frames } := by
  have match_ : ¬ (frame.begun ≠ named ∨ time ≤ named) := by
    rintro (other | early)
    · exact other names.begun
    · exact Time.not_le.2 names.later early
  unfold popMatching
  rw [open_]
  dsimp only
  rw [if_neg match_]
  by_cases same : frame.depth = depth
  · rw [if_pos same, if_neg (not_not_intro same)]
  · rw [if_neg same, if_pos same]

/-- **A refused end takes the innermost call if it names it, and nothing else.** This is so of every
    stack.

    An end is accepted if it names the innermost call and states its depth. Then the call is off
    the stack, its end is found under its begin, and all else is as it was. An end that does not
    name the innermost call is refused, and the stack is the same as before. An end that names it
    with another depth is refused too; the call is off the stack all the same, and its end is not
    noted. -/
theorem popMatching_takes_innermost (s : CallStack η) (time named : Time) (depth : UInt32) :
    match popMatching time named depth s with
    | .ok frame s' =>
      s.frames = frame :: s'.frames ∧ Names time named frame ∧ frame.depth = depth ∧
        (∀ begun, s'.matchingEnd? begun =
          if begun = named then some time else s.matchingEnd? begun) ∧
        s'.root = s.root ∧ s'.rootCallback = s.rootCallback
    | .error error s' =>
      ((∀ frame ∈ s.innermost?, ¬ Names time named frame) ∧
        error = .callMismatch time named (s.innermost?.map Frame.begun) ∧ s' = s) ∨
      ∃ frame, s.frames = frame :: s'.frames ∧ Names time named frame ∧ frame.depth ≠ depth ∧
        error = .depthMismatch time depth frame.depth.toNat ∧
        s' = { s with frames := s'.frames } := by
  by_cases named_ : ∃ frame ∈ s.innermost?, Names time named frame
  · obtain ⟨frame, innermost, names⟩ := named_
    obtain ⟨frames, open_⟩ := List.head?_eq_some_iff.1 innermost
    rw [popMatching_innermost open_ names]
    by_cases same : frame.depth = depth
    · rw [if_pos same]
      exact ⟨open_, names, same, fun begun => OrderedMap.get?_insert .., rfl, rfl⟩
    · rw [if_neg same]
      exact Or.inr ⟨frame, open_, names, same, rfl, rfl⟩
  · have other : ∀ frame ∈ s.innermost?, ¬ Names time named frame :=
      fun frame innermost names => named_ ⟨frame, innermost, names⟩
    rw [popMatching_mismatch other]
    exact Or.inl ⟨other, rfl, rfl⟩

/-- A stack with one open call, which began at time 1. -/
def oneCall : CallStack Unit := (startRoot empty ⟨1⟩ .none).push ⟨⟨1⟩, 0, ⟨1⟩, .none, (), []⟩

/-- **The call is gone although its end was refused.** The end names the call and states the wrong
    depth. The refusal leaves no call open, so that the right end is refused from then on. -/
theorem wrongDepth_ends_call : ∃ s,
    popMatching ⟨2⟩ ⟨1⟩ 3 oneCall = .error (.depthMismatch ⟨2⟩ 3 0) s ∧
      s.frames ≠ oneCall.frames ∧
      popMatching ⟨2⟩ ⟨1⟩ 0 s = .error (.callMismatch ⟨2⟩ ⟨1⟩ none) s :=
  ⟨{ oneCall with frames := [] }, rfl, by decide, rfl⟩

end CallStack
end Retrace
