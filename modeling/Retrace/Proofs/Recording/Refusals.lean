import Retrace.Proofs.Recording.Histories

/-!
# Reports that are refused

A report may be refused for many reasons, and each is met at another step of it: a value has no tag,
the engine did not say what came of the operation, the named call is not the innermost, the event is
not later than the last, the clock has run out. Whichever it is, the report was not made as far as
anyone can tell who goes on with the recorder. Histories that differ by it end in the same recorder,
and all other reports get the same reply (`refused_report_leaves_no_trace`).

The order of the steps is what this rests on. Everything that may be refused stands before the event
is put behind the log, and behind it come only steps that cannot fail.
-/

namespace Retrace
namespace Recorder

variable {η : Type} [DecidableEq η]

/-- What a recorder replies to a report: the time of the event, or why there is none. -/
def reply (r : Recorder η) (report : Report η) : Except RecordError Time :=
  match record report r with
  | .ok time _ => .ok time
  | .error err _ => .error err

/-- What a recorder replies to reports that are made one after the other, refused or not. -/
def replies : List (Report η) → Recorder η → List (Except RecordError Time)
  | [], _ => []
  | report :: reports, r => r.reply report :: replies reports (r.heard report)

theorem replies_append (before after : List (Report η)) (r : Recorder η) :
    replies (before ++ after) r = replies before r ++ replies after (before.foldl heard r) := by
  induction before generalizing r with
  | nil => rfl
  | cons report before ih => exact congrArg (r.reply report :: ·) (ih (r.heard report))

/-- A recorder that refuses a report is the same behind it. -/
theorem heard_refused {r : Recorder η} {report : Report η} {err : RecordError}
    (refused : r.reply report = .error err) : r.heard report = r := by
  unfold reply at refused
  unfold heard
  cases recorded : record report r with
  | ok time r' => rw [recorded] at refused; exact absurd refused (by simp)
  | error err' r' => exact record_refused recorded

/-- **A report that is refused leaves no trace.** Whatever a recorder has been told, and whatever it
    refuses then, nothing of it changes: not the log, the tags, the open calls, the clock or the
    time of the last event. So a history with the report in it and the one without it come to the
    same recorder, and the reports before and after it get the same replies in both. -/
theorem refused_report_leaves_no_trace (r : Recorder η) :
    (∀ (report : Report η) (err : RecordError) (r' : Recorder η),
      record report r = .error err r' → r' = r) ∧
    ∀ (before after : List (Report η)) (report : Report η) (err : RecordError),
      (before.foldl heard r).reply report = .error err →
        (before ++ report :: after).foldl heard r = (before ++ after).foldl heard r ∧
        ∃ earlier later, replies before r = earlier ∧
          replies (before ++ after) r = earlier ++ later ∧
          replies (before ++ report :: after) r = earlier ++ .error err :: later := by
  refine ⟨fun report err r' => record_refused, fun before after report err refused => ?_⟩
  have same := heard_refused refused
  refine ⟨?_, _, replies after (before.foldl heard r), rfl, replies_append before after r, ?_⟩
  · rw [List.foldl_append, List.foldl_append, List.foldl_cons, same]
  · rw [replies_append, replies, refused, same]

/-! ### Five reasons to refuse -/

/-- A recorder whose clock has run out, in a call that it was told of: the function got its tag, the
    call began, and an event with the last time there is was handed over. -/
def lastMoment : Recorder String :=
  [.request ⟨0⟩ (.createFunction none) (.ref "f"), .beginCall ⟨0⟩ "f" [] .none ⟨0⟩ none,
    .append ⟨.last, ⟨0⟩, .allocateObject true⟩].foldl heard (start true)

/-- A construction with an unknown argument, an exception that the engine did not give out, an event
    from before, the end of a call that never began, and the end of the one that did. -/
def refusedReports : List (Report String) :=
  [.construct ⟨0⟩ "f" [.ref "g"] (.ok .null), .takeException ⟨0⟩ (.error ⟨"engine is gone"⟩),
    .append ⟨⟨7⟩, ⟨0⟩, .allocateObject true⟩, .endCall ⟨0⟩ ⟨1⟩ (.ok .null) ⟨0⟩,
    .endCall ⟨0⟩ ⟨2⟩ (.ok .null) ⟨0⟩]

/-- Each of the five is refused for a reason of its own, and the recorder stays as it is. Leaving
    the second out does not show behind the others. -/
theorem lastMoment_unchanged :
    replies refusedReports lastMoment =
      [.error (.untaggedValue .constructCall),
        .error (.failure .getAndClearException ⟨"engine is gone"⟩), .error (.outOfOrder .last ⟨7⟩),
        .error (.callMismatch ⟨1⟩ (some ⟨2⟩)), .error .clockExhausted] ∧
    (∀ report ∈ refusedReports, ∃ err, record report lastMoment = .error err lastMoment) ∧
    (refusedReports.take 1 ++ refusedReports.drop 1).foldl heard lastMoment =
      (refusedReports.take 1 ++ refusedReports.drop 2).foldl heard lastMoment := by
  have refused : ∀ report ∈ refusedReports,
      ∃ err, record report lastMoment = .error err lastMoment := by
    have unchanged {report : Report String} {err : RecordError} {r' : Recorder String}
        (failed : record report lastMoment = .error err r') :
        ∃ err, record report lastMoment = .error err lastMoment :=
      ⟨err, (refused_report_leaves_no_trace lastMoment).1 report err r' failed ▸ failed⟩
    simp only [refusedReports, List.mem_cons, List.not_mem_nil, or_false]
    rintro report (rfl | rfl | rfl | rfl | rfl) <;> exact unchanged rfl
  refine ⟨rfl, refused, ?_⟩
  exact ((refused_report_leaves_no_trace lastMoment).2 (refusedReports.take 1)
    (refusedReports.drop 2) _ _ rfl).1

end Recorder
end Retrace
