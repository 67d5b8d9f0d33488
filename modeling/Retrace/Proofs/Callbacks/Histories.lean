import Retrace.Replay.Callbacks

/-!
# Pending callbacks and their past

A registry of callbacks is told of operations, which schedule and cancel callbacks, and of root
calls, which some callback may drive. What it holds is a matter of record: a callback is pending if
it was scheduled, and nothing that came after has ended that (`Pends`). Its id may have been in use
before, and be cancelled or run while nothing is pending under it; none of this leaves a trace.

The past is a list with the latest first, so that the registry is a recursion on it, and a claim
about all registries an induction. `Became` is the whole of what one more happening can do;
everything else is read off it. `behind_tells` is the result: a registry tells its past, and of all
that was ever scheduled nothing is missing from its counts.
-/

namespace Retrace
namespace Callbacks

/-- What a registry is told of. -/
inductive Happening where
  | operation (time : Time) (op : CallbackOp)
  | rootCall (time : Time) (id : CallbackId)
deriving DecidableEq, Repr

/-- What that means for the callbacks. -/
inductive Deed where
  | schedule (callback : PendingCallback)
  | cancel (id : CallbackId)
  /-- The callback runs. -/
  | drive (id : CallbackId)
  | nothing
deriving DecidableEq, Repr

namespace Happening

def time : Happening → Time
  | operation time _ | rootCall time _ => time

def deed : Happening → Deed
  | operation time op =>
    if op.cancels then .cancel op.callback
    else .schedule ⟨op.callback, op.function, op.repeating, time, op.current⟩
  | rootCall _ id => if id = .none then .nothing else .drive id

end Happening

/-- What the registry is after it was told. -/
def after (c : Callbacks) : Happening → Callbacks
  | .operation time op => c.apply time op
  | .rootCall _ id => (c.onRootCall id).2

/-- The registry that was told of all that happened, the latest first. -/
def behind : List Happening → Callbacks
  | [] => empty
  | h :: past => (behind past).after h

/-! ## What the past says -/

/-- A callback that was pending is so still, and as it was scheduled. -/
structure Deed.Leaves (deed : Deed) (record : PendingCallback) : Prop where
  unscheduled : ∀ other, deed = .schedule other → other.id ≠ record.id
  uncancelled : deed ≠ .cancel record.id
  undriven : record.repeating = false → deed ≠ .drive record.id

/-- A callback was scheduled like this, and whatever happened since has left it pending. -/
def Pends (past : List Happening) (record : PendingCallback) : Prop :=
  ∃ since h earlier, past = since ++ h :: earlier ∧ h.deed = .schedule record ∧
    ∀ g ∈ since, g.deed.Leaves record

/-- Some callback is pending under the id. -/
def IsPending (past : List Happening) (id : CallbackId) : Prop :=
  ∃ record, record.id = id ∧ Pends past record

section Past

variable {past : List Happening} {h : Happening} {record : PendingCallback} {id : CallbackId}

theorem not_pends_nil : ¬ Pends [] record := by
  rintro ⟨since, h, earlier, split, -⟩
  exact absurd split.symm (by simp)

/-- A callback is pending because it has just been scheduled, or because it was and is left so. -/
theorem pends_cons :
    Pends (h :: past) record ↔ h.deed = .schedule record ∨ Pends past record ∧ h.deed.Leaves record := by
  constructor
  · rintro ⟨since, g, earlier, split, scheduled, left⟩
    cases since with
    | nil =>
      obtain ⟨rfl, rfl⟩ := List.cons.inj split
      exact Or.inl scheduled
    | cons first since =>
      obtain ⟨rfl, rfl⟩ := List.cons.inj split
      exact Or.inr ⟨⟨since, g, earlier, rfl, scheduled,
        fun f mem => left f (List.mem_cons_of_mem _ mem)⟩, left h List.mem_cons_self⟩
  · rintro (scheduled | ⟨⟨since, g, earlier, rfl, scheduled, left⟩, leaves⟩)
    · exact ⟨[], h, past, rfl, scheduled, by simp⟩
    · refine ⟨h :: since, g, earlier, rfl, scheduled, fun f mem => ?_⟩
      rcases List.mem_cons.1 mem with rfl | old
      · exact leaves
      · exact left f old

end Past

/-! ## What one happening does -/

section Leaves

variable {callback record : PendingCallback} {id : CallbackId}

theorem leaves_schedule : (Deed.schedule callback).Leaves record ↔ callback.id ≠ record.id :=
  ⟨fun leaves => leaves.unscheduled callback rfl,
    fun other => ⟨fun _ same => Deed.schedule.inj same ▸ other, by simp, by simp⟩⟩

theorem leaves_cancel : (Deed.cancel id).Leaves record ↔ id ≠ record.id :=
  ⟨fun leaves same => leaves.uncancelled (same ▸ rfl),
    fun other => ⟨by simp, by simpa using other, by simp⟩⟩

theorem leaves_drive :
    (Deed.drive id).Leaves record ↔ (record.repeating = false → id ≠ record.id) :=
  ⟨fun leaves once same => leaves.undriven once (same ▸ rfl),
    fun other => ⟨by simp, by simp, by simpa using other⟩⟩

theorem leaves_nothing : Deed.nothing.Leaves record :=
  ⟨by simp, by simp, by simp⟩

end Leaves

/-- All that a deed can make of a registry. -/
inductive Became (c : Callbacks) : Deed → Callbacks → Prop
  | scheduled (callback : PendingCallback) : Became c (.schedule callback) (c.schedule callback)
  | cancelled (id : CallbackId) (record : PendingCallback) (there : c.get? id = some record) :
      Became c (.cancel id)
        { c with pending := c.pending.erase id, cancellations := c.cancellations + 1 }
  | retired (id : CallbackId) (record : PendingCallback) (there : c.get? id = some record)
      (once : record.repeating = false) :
      Became c (.drive id) { c with pending := c.pending.erase id, invocations := c.invocations + 1 }
  | ran (id : CallbackId) (record : PendingCallback) (there : c.get? id = some record)
      (repeats : record.repeating = true) :
      Became c (.drive id) { c with invocations := c.invocations + 1 }
  | uncancelled (id : CallbackId) (absent : c.get? id = none) : Became c (.cancel id) c
  | undriven (id : CallbackId) (absent : c.get? id = none) : Became c (.drive id) c
  | idle : Became c .nothing c

theorem isPending_iff {c : Callbacks} {id : CallbackId} :
    c.isPending id = true ↔ ∃ record, c.get? id = some record :=
  Option.isSome_iff_exists

theorem cancel_became (c : Callbacks) (id : CallbackId) : Became c (.cancel id) (c.cancel id).2 := by
  unfold cancel
  split
  · rename_i there
    obtain ⟨record, found⟩ := isPending_iff.1 there
    exact .cancelled id record found
  · rename_i absent
    exact .uncancelled id (Option.not_isSome_iff_eq_none.1 absent)

/-- A root call that no callback drives changes nothing. -/
theorem onRootCall_none (c : Callbacks) : c.onRootCall .none = (none, c) := rfl

/-- A root call is answered what was pending, and retires it unless it repeats. -/
theorem onRootCall_became (c : Callbacks) {id : CallbackId} (driven : id ≠ .none) :
    (c.onRootCall id).1 = c.get? id ∧ Became c (.drive id) (c.onRootCall id).2 := by
  unfold onRootCall
  rw [if_neg driven]
  cases found : c.get? id with
  | none => exact ⟨rfl, .undriven id found⟩
  | some record =>
    refine ⟨rfl, ?_⟩
    dsimp only
    split
    · rename_i repeats
      exact .ran id record found repeats
    · rename_i once
      exact .retired id record found (Bool.eq_false_iff.2 once)

/-- **These are all the ways in which a registry can take a happening.** -/
theorem after_became (c : Callbacks) (h : Happening) : Became c h.deed (c.after h) := by
  cases h with
  | operation time op =>
    rw [after, apply, Happening.deed]
    split
    · exact c.cancel_became op.callback
    · exact .scheduled _
  | rootCall time id =>
    rw [after, Happening.deed]
    split
    · rename_i undriven
      rw [undriven, onRootCall_none]
      exact .idle
    · rename_i driven
      exact (c.onRootCall_became driven).2

/-- **What is pending then** is what was scheduled, and what was pending and is left so. -/
theorem Became.get? {c c' : Callbacks} {deed : Deed} (became : Became c deed c') {id : CallbackId}
    {record : PendingCallback} (keyed : ∀ record, c.get? id = some record → record.id = id) :
    c'.get? id = some record ↔
      record.id = id ∧ (deed = .schedule record ∨ c.get? id = some record ∧ deed.Leaves record) := by
  have put (callback : PendingCallback) : (c.pending.insert callback.id callback).get? id =
      if id = callback.id then some callback else c.get? id :=
    OrderedMap.get?_insert c.pending callback.id callback id
  have taken (i : CallbackId) : (c.pending.erase i).get? id = if id = i then none else c.get? id :=
    OrderedMap.get?_erase c.pending i id
  -- by what became of the registry: an entry is put in or taken out, or all stay as they are
  cases became with
  | scheduled callback =>
    show (c.pending.insert callback.id callback).get? id = some record ↔ _
    rw [put, leaves_schedule, Deed.schedule.injEq]
    grind
  | cancelled i callback there =>
    show (c.pending.erase i).get? id = some record ↔ _
    rw [taken, leaves_cancel]
    grind
  | retired i callback there once =>
    show (c.pending.erase i).get? id = some record ↔ _
    rw [taken, leaves_drive]
    grind
  | ran i callback there repeats =>
    show c.get? id = some record ↔ _
    rw [leaves_drive]
    grind
  | uncancelled i absent =>
    rw [leaves_cancel]
    grind
  | undriven i absent =>
    rw [leaves_drive]
    grind
  | idle =>
    rw [iff_true_intro leaves_nothing]
    grind

/-! ## What is pending -/

/-- The registry holds what is pending by its past. -/
def Knows (c : Callbacks) (past : List Happening) : Prop :=
  ∀ id record, c.get? id = some record ↔ record.id = id ∧ Pends past record

section Knows

variable {c c' : Callbacks} {past : List Happening} {h : Happening} {id : CallbackId}

theorem Knows.isPending (knows : c.Knows past) : c.isPending id = true ↔ IsPending past id := by
  rw [isPending_iff]
  exact exists_congr fun record => knows id record

theorem Knows.absent (knows : c.Knows past) (absent : c.get? id = none) : ¬ IsPending past id := by
  rw [← knows.isPending, isPending_iff, absent]
  simp

theorem Knows.after (knows : c.Knows past) (became : Became c h.deed c') : c'.Knows (h :: past) := by
  intro id record
  rw [became.get? fun record there => ((knows id record).1 there).1, pends_cons, knows]
  constructor
  · rintro ⟨named, scheduled | ⟨⟨-, pends⟩, leaves⟩⟩
    · exact ⟨named, Or.inl scheduled⟩
    · exact ⟨named, Or.inr ⟨pends, leaves⟩⟩
  · rintro ⟨named, scheduled | ⟨pends, leaves⟩⟩
    · exact ⟨named, Or.inl scheduled⟩
    · exact ⟨named, Or.inr ⟨⟨named, pends⟩, leaves⟩⟩

/-- **A registry holds what is pending by its past.** -/
theorem behind_knows (past : List Happening) : (behind past).Knows past := by
  induction past with
  | nil => exact fun id record => iff_of_false (by simp [behind, empty, get?]) fun both =>
      not_pends_nil both.2
  | cons h past ih => exact ih.after (after_became _ h)

end Knows

/-- A callback is pending under the id, and will run once. -/
def PendsOnce (past : List Happening) (id : CallbackId) : Prop :=
  ∃ record, (record.id = id ∧ Pends past record) ∧ record.repeating = false

instance (past : List Happening) (id : CallbackId) : Decidable (IsPending past id) :=
  decidable_of_iff _ (behind_knows past).isPending

instance (past : List Happening) (id : CallbackId) : Decidable (PendsOnce past id) :=
  decidable_of_iff (((behind past).get? id).any fun record => !record.repeating) (by
    simp only [Option.any_eq_true, Bool.not_eq_true']
    exact exists_congr fun record => and_congr_left' (behind_knows past id record))

/-! ## How often it happened -/

/-- How often something was done that is of a kind, given what had happened before. -/
def times (kind : List Happening → Deed → Bool) : List Happening → Nat
  | [] => 0
  | h :: past => times kind past + (kind past h.deed).toNat

/-- A callback is scheduled. -/
def schedules (_ : List Happening) : Deed → Bool
  | .schedule _ => true
  | _ => false

/-- What is scheduled takes the place of a callback that is pending still. -/
def replaces (past : List Happening) : Deed → Bool
  | .schedule callback => IsPending past callback.id
  | _ => false

/-- What is cancelled is pending. -/
def voids (past : List Happening) : Deed → Bool
  | .cancel id => IsPending past id
  | _ => false

/-- What drives a root call is pending. -/
def hits (past : List Happening) : Deed → Bool
  | .drive id => IsPending past id
  | _ => false

/-- A callback runs that was to run once. -/
def retires (past : List Happening) : Deed → Bool
  | .drive id => PendsOnce past id
  | _ => false

section Counts

variable {c c' : Callbacks} {past : List Happening} {deed : Deed} {id : CallbackId}
variable {record : PendingCallback}

theorem Knows.there (knows : c.Knows past) (there : c.get? id = some record) : IsPending past id :=
  ⟨record, (knows id record).1 there⟩

theorem Knows.pendsOnce (knows : c.Knows past) (there : c.get? id = some record) :
    PendsOnce past id ↔ record.repeating = false := by
  refine ⟨?_, fun once => ⟨record, (knows id record).1 there, once⟩⟩
  rintro ⟨other, pends, once⟩
  obtain rfl := Option.some.inj (there.symm.trans ((knows id other).2 pends))
  exact once

theorem Became.invocations (became : Became c deed c') (knows : c.Knows past) :
    c'.invocations = c.invocations + UInt64.ofNat (hits past deed).toNat := by
  cases became with
  | retired id _ there | ran id _ there => simp [hits, knows.there there]
  | undriven id absent => simp [hits, knows.absent absent]
  | scheduled | cancelled | uncancelled | idle => simp [hits, schedule]

theorem Became.cancellations (became : Became c deed c') (knows : c.Knows past) :
    c'.cancellations = c.cancellations + UInt64.ofNat (voids past deed).toNat := by
  cases became with
  | cancelled id _ there => simp [voids, knows.there there]
  | uncancelled id absent => simp [voids, knows.absent absent]
  | scheduled | retired | ran | undriven | idle => simp [voids, schedule]

theorem Became.distinct (became : Became c deed c') (distinct : c.pending.keys.Nodup) :
    c'.pending.keys.Nodup := by
  cases became with
  | scheduled callback => exact OrderedMap.nodup_keys_insert distinct callback.id callback
  | cancelled id | retired id => exact OrderedMap.nodup_keys_erase distinct id
  | ran | uncancelled | undriven | idle => exact distinct

/-- **What is scheduled is pending, or it takes the place of what was.** What is no longer pending
was cancelled or has run. -/
theorem Became.size (became : Became c deed c') (knows : c.Knows past)
    (distinct : c.pending.keys.Nodup) :
    c.pending.size + (schedules past deed).toNat = c'.pending.size + (voids past deed).toNat +
      (retires past deed).toNat + (replaces past deed).toNat := by
  have erased {id : CallbackId} {record : PendingCallback} (there : c.get? id = some record) :
      (c.pending.erase id).size + 1 = c.pending.size :=
    OrderedMap.size_erase distinct (OrderedMap.mem_keys_of_get? there)
  cases became with
  | scheduled callback =>
    have inserted := c.pending.size_insert callback.id callback
    have pending : c.pending.contains callback.id = true ↔ IsPending past callback.id :=
      knows.isPending
    show _ = (c.pending.insert callback.id callback).size + _ + _ + _
    -- scheduled under the id of a pending one, a callback takes its place
    by_cases isPending : IsPending past callback.id
    · rw [if_pos (pending.2 isPending)] at inserted
      simp [schedules, voids, retires, replaces, isPending, inserted]
    · rw [if_neg fun there => isPending (pending.1 there)] at inserted
      simp [schedules, voids, retires, replaces, isPending, inserted]
  | cancelled id _ there =>
    simp [schedules, voids, retires, replaces, knows.there there, erased there]
  | retired id _ there once =>
    simp [schedules, voids, retires, replaces, (knows.pendsOnce there).2 once, erased there]
  | ran id _ there repeats =>
    have lasting : ¬ PendsOnce past id := by simp [knows.pendsOnce there, repeats]
    simp [schedules, voids, retires, replaces, lasting]
  | uncancelled id absent =>
    simp [schedules, voids, retires, replaces, knows.absent absent]
  | undriven id absent =>
    have absent : ¬ PendsOnce past id := fun ⟨record, pends, _⟩ =>
      knows.absent absent ⟨record, pends⟩
    simp [schedules, voids, retires, replaces, absent]
  | idle => rfl

end Counts

/-! ## A registry and its past -/

/-- A registry holds what is pending by its past, and counts what happened. -/
structure Tells (c : Callbacks) (past : List Happening) : Prop where
  knows : c.Knows past
  distinct : c.pending.keys.Nodup
  invocations : c.invocations = UInt64.ofNat (times hits past)
  cancellations : c.cancellations = UInt64.ofNat (times voids past)
  balance : times schedules past =
    c.pending.size + times voids past + times retires past + times replaces past

theorem Tells.after {c c' : Callbacks} {past : List Happening} {h : Happening}
    (tells : c.Tells past) (became : Became c h.deed c') : c'.Tells (h :: past) where
  knows := tells.knows.after became
  distinct := became.distinct tells.distinct
  invocations := by
    rw [became.invocations tells.knows, tells.invocations, times, UInt64.ofNat_add]
  cancellations := by
    rw [became.cancellations tells.knows, tells.cancellations, times, UInt64.ofNat_add]
  balance := by
    have size := became.size tells.knows tells.distinct
    have before := tells.balance
    simp only [times]
    omega

theorem behind_tells (past : List Happening) : (behind past).Tells past := by
  induction past with
  | nil => exact ⟨behind_knows [], List.nodup_nil, rfl, rfl, rfl⟩
  | cons h past ih => exact ih.after (after_became _ h)

/-- **A registry tells its past.** Whatever happened, in any order and at any times: under an id
    there is pending what was scheduled last, if since then it was not cancelled, and has not run
    unless it repeats. A root call is answered just this; one that no callback drives changes
    nothing. The counters, which are 64 bits wide, count the root calls and the cancellations that
    found something pending. And whatever was scheduled is pending still, or was cancelled, or ran
    and was to run once, or was replaced while it was pending. -/
theorem tells_its_past (past : List Happening) :
    (∀ id record, (behind past).get? id = some record ↔ record.id = id ∧ Pends past record) ∧
    (∀ id, (behind past).isPending id = true ↔ IsPending past id) ∧
    (∀ id record, ((behind past).onRootCall id).1 = some record ↔
      id ≠ .none ∧ record.id = id ∧ Pends past record) ∧
    (behind past).onRootCall .none = (none, behind past) ∧
    (behind past).invocations = UInt64.ofNat (times hits past) ∧
    (behind past).cancellations = UInt64.ofNat (times voids past) ∧
    times schedules past = (behind past).pending.size + times voids past + times retires past +
      times replaces past := by
  have tells := behind_tells past
  refine ⟨tells.knows, fun id => tells.knows.isPending, fun id record => ?_, onRootCall_none _,
    tells.invocations, tells.cancellations, tells.balance⟩
  by_cases undriven : id = .none
  · rw [undriven, onRootCall_none]
    exact iff_of_false (by simp) fun driven => driven.1 rfl
  · rw [((behind past).onRootCall_became undriven).1, tells.knows id record]
    exact ⟨fun pends => ⟨undriven, pends⟩, And.right⟩

end Callbacks
end Retrace
