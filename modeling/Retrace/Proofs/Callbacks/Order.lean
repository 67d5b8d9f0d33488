import Mathlib.Data.List.Pairwise
import Retrace.Proofs.Callbacks.Histories

/-!
# The order of pending callbacks

A registry lists its callbacks by when they became pending. This is the order in which they were
scheduled only as long as nothing is scheduled under an id that is pending already: what is put
there then takes the place of the old callback, ahead of callbacks that were scheduled before it.

`since?` is the time at which an id became pending, by the past alone. It is kept by all that
happens as long as the id stays pending, whereas the record under the id has the time of its own
scheduling.
-/

namespace Retrace
namespace Callbacks

/-- At each time one thing happened. -/
def InTime (past : List Happening) : Prop :=
  past.Pairwise fun later earlier => earlier.time < later.time

instance (past : List Happening) : Decidable (InTime past) := by
  unfold InTime
  infer_instance

/-- When it began that callbacks are pending under the id, one or several after each other. -/
def since? : List Happening → CallbackId → Option Time
  | [], _ => none
  | h :: past, id => if IsPending (h :: past) id then some ((since? past id).getD h.time) else none

/-- The callbacks became pending in this order. -/
def Preceded (past : List Happening) (id other : CallbackId) : Prop :=
  ∃ t u, since? past id = some t ∧ since? past other = some u ∧ t < u

/-- The listing of what is pending. -/
def listed (past : List Happening) : List PendingCallback := (behind past).pending.values

section Since

variable {past : List Happening} {h : Happening} {id other : CallbackId} {record : PendingCallback}
variable {t : Time}

theorem isSome_since? : (since? past id).isSome = true ↔ IsPending past id := by
  cases past with
  | nil => exact iff_of_false (by simp [since?]) fun ⟨_, _, pends⟩ => not_pends_nil pends
  | cons h past =>
    rw [since?]
    split
    · exact iff_of_true rfl (by assumption)
    · exact iff_of_false (by simp) (by assumption)

/-- What stays pending does so since the same time. -/
theorem since?_kept (there : IsPending past id) (still : IsPending (h :: past) id) :
    since? (h :: past) id = since? past id := by
  obtain ⟨t, since⟩ := Option.isSome_iff_exists.1 (isSome_since?.2 there)
  rw [since?, if_pos still, since, Option.getD_some]

theorem since?_new (absent : ¬ IsPending past id) (now : IsPending (h :: past) id) :
    since? (h :: past) id = some h.time := by
  have none : since? past id = none :=
    Option.not_isSome_iff_eq_none.1 fun there => absent (isSome_since?.1 there)
  rw [since?, if_pos now, none, Option.getD_none]

theorem since?_mem (since : since? past id = some t) : ∃ h ∈ past, h.time = t := by
  induction past with
  | nil => exact absurd since (by simp [since?])
  | cons h past ih =>
    rw [since?] at since
    split at since
    · cases before : since? past id with
      | none =>
        rw [before] at since
        exact ⟨h, List.mem_cons_self, Option.some.inj since⟩
      | some u =>
        rw [before] at since
        obtain ⟨g, mem, time⟩ := ih (before.trans since)
        exact ⟨g, List.mem_cons_of_mem _ mem, time⟩
    · exact absurd since (by simp)

theorem Preceded.kept (preceded : Preceded past id other) (still : IsPending (h :: past) id)
    (otherStill : IsPending (h :: past) other) : Preceded (h :: past) id other := by
  obtain ⟨t, u, since, otherSince, before⟩ := preceded
  have there : IsPending past id := isSome_since?.1 (since ▸ rfl)
  have otherThere : IsPending past other := isSome_since?.1 (otherSince ▸ rfl)
  exact ⟨t, u, (since?_kept there still).trans since,
    (since?_kept otherThere otherStill).trans otherSince, before⟩

theorem Preceded.asymm (preceded : Preceded past id other) : ¬ Preceded past other id := by
  rintro ⟨u', t', otherSince', since', after⟩
  obtain ⟨t, u, since, otherSince, before⟩ := preceded
  obtain rfl := Option.some.inj (since.symm.trans since')
  obtain rfl := Option.some.inj (otherSince.symm.trans otherSince')
  exact Time.lt_asymm before after

end Since

/-! ## The ids in their order -/

/-- A deed leaves the ids in order; one that was not there goes behind all others. -/
theorem Became.keys {c c' : Callbacks} {deed : Deed} (became : Became c deed c') :
    c'.pending.keys.Sublist c.pending.keys ∨
    ∃ callback, deed = .schedule callback ∧ callback.id ∉ c.pending.keys ∧
      c'.pending.keys = c.pending.keys ++ [callback.id] := by
  cases became with
  | scheduled callback =>
    by_cases there : c.pending.contains callback.id = true
    · have same : (c.pending.insert callback.id callback).keys = c.pending.keys :=
        OrderedMap.keys_insert_of_contains there callback
      exact Or.inl (same ▸ List.Sublist.refl (c.pending.insert callback.id callback).keys)
    · have new : callback.id ∉ c.pending.keys := fun mem => there (OrderedMap.contains_iff.2 mem)
      exact Or.inr ⟨callback, rfl, new, OrderedMap.keys_insert_of_not_mem new callback⟩
  | cancelled id | retired id =>
    refine Or.inl ?_
    show (c.pending.erase id).keys.Sublist _
    rw [OrderedMap.keys_erase]
    exact List.filter_sublist
  | ran | uncancelled | undriven | idle => exact Or.inl (List.Sublist.refl _)

theorem mem_keys_behind {past : List Happening} {id : CallbackId} :
    id ∈ (behind past).pending.keys ↔ IsPending past id :=
  OrderedMap.contains_iff.symm.trans (behind_knows past).isPending

/-- **The ids stand in the order in which they became pending.** -/
theorem keys_preceded {past : List Happening} (inTime : InTime past) :
    (behind past).pending.keys.Pairwise (Preceded past) := by
  induction past with
  | nil => exact List.Pairwise.nil
  | cons h past ih =>
    obtain ⟨earlier, inTime⟩ := List.pairwise_cons.1 inTime
    have stay {id : CallbackId} (mem : id ∈ (behind (h :: past)).pending.keys) :
        IsPending (h :: past) id := mem_keys_behind.1 mem
    rcases (after_became (behind past) h).keys with sublist | ⟨callback, -, new, added⟩
    · exact ((ih inTime).sublist sublist).imp_of_mem fun mem otherMem preceded =>
        preceded.kept (stay mem) (stay otherMem)
    · have added : (behind (h :: past)).pending.keys = (behind past).pending.keys ++ [callback.id] :=
        added
      rw [added] at stay ⊢
      refine List.pairwise_append.2 ⟨?_, List.pairwise_singleton _ _, fun id mem other last => ?_⟩
      · exact (ih inTime).imp_of_mem fun mem otherMem preceded =>
          preceded.kept (stay (List.mem_append_left _ mem)) (stay (List.mem_append_left _ otherMem))
      · obtain rfl := List.mem_singleton.1 last
        have there : IsPending past id := mem_keys_behind.1 mem
        obtain ⟨t, since⟩ := Option.isSome_iff_exists.1 (isSome_since?.2 there)
        obtain ⟨g, before, rfl⟩ := since?_mem since
        refine ⟨g.time, h.time, ?_, ?_, earlier g before⟩
        · exact (since?_kept there (stay (List.mem_append_left _ mem))).trans since
        · exact since?_new (fun there => new (mem_keys_behind.2 there))
            (stay (List.mem_append_right _ (List.mem_singleton_self _)))

/-! ## The listing -/

section Listing

variable {past : List Happening} {h : Happening} {record : PendingCallback}

theorem entry_listed {id : CallbackId} (mem : (id, record) ∈ (behind past).pending.entries) :
    record.id = id ∧ Pends past record :=
  (behind_knows past id record).1 (OrderedMap.get?_of_mem (behind_tells past).distinct mem)

theorem mem_listed : record ∈ listed past ↔ Pends past record := by
  constructor
  · intro mem
    obtain ⟨⟨id, listed⟩, there, rfl⟩ := List.mem_map.1 mem
    exact (entry_listed there).2
  · intro pends
    have found : (behind past).pending.entries.lookup record.id = some record :=
      (behind_knows past record.id record).2 ⟨rfl, pends⟩
    obtain ⟨before, after, split, -⟩ := List.lookup_eq_some_iff.1 found
    unfold listed OrderedMap.values
    rw [split]
    simp

theorem ids_listed : (listed past).map PendingCallback.id = (behind past).pending.keys := by
  unfold listed OrderedMap.values OrderedMap.keys
  rw [List.map_map]
  exact List.map_congr_left fun entry mem => (entry_listed mem).1

theorem listed_preceded (inTime : InTime past) :
    (listed past).Pairwise fun callback other => Preceded past callback.id other.id := by
  have keys := keys_preceded inTime
  rw [← ids_listed] at keys
  exact List.pairwise_map.1 keys

theorem scheduledAt_of_deed (scheduled : h.deed = .schedule record) : record.scheduledAt = h.time := by
  cases h with
  | operation time op =>
    rw [Happening.deed] at scheduled
    split at scheduled
    · exact absurd scheduled (by simp)
    · obtain rfl := Deed.schedule.inj scheduled
      rfl
  | rootCall time id =>
    rw [Happening.deed] at scheduled
    split at scheduled <;> exact absurd scheduled (by simp)

/-- What replaced nothing is pending since it was scheduled. -/
theorem since?_of_unreplaced (unreplaced : times replaces past = 0) (pends : Pends past record) :
    since? past record.id = some record.scheduledAt := by
  induction past with
  | nil => exact absurd pends not_pends_nil
  | cons h past ih =>
    obtain ⟨unreplaced, now⟩ := Nat.add_eq_zero_iff.1 unreplaced
    have isPending : IsPending (h :: past) record.id := ⟨record, rfl, pends⟩
    rcases pends_cons.1 pends with scheduled | ⟨pends, -⟩
    · have absent : ¬ IsPending past record.id := by simpa [scheduled, replaces] using now
      rw [since?_new absent isPending, scheduledAt_of_deed scheduled]
    · exact (since?_kept ⟨record, rfl, pends⟩ isPending).trans (ih unreplaced pends)

end Listing

/-- They were scheduled in the order in which they stand. -/
def InSchedulingOrder (callbacks : List PendingCallback) : Prop :=
  callbacks.Pairwise fun callback other => callback.scheduledAt < other.scheduledAt

instance (callbacks : List PendingCallback) : Decidable (InSchedulingOrder callbacks) := by
  unfold InSchedulingOrder
  infer_instance

/-- The listing is as scheduled if scheduling and becoming pending went in the same order. -/
theorem inSchedulingOrder_iff {past : List Happening} (inTime : InTime past) :
    InSchedulingOrder (listed past) ↔ ∀ callback other, Pends past callback → Pends past other →
      Preceded past callback.id other.id → callback.scheduledAt < other.scheduledAt := by
  constructor
  · intro inOrder callback other pends otherPends
    let Agree (a b : PendingCallback) : Prop :=
      (Preceded past a.id b.id → a.scheduledAt < b.scheduledAt) ∧
      (Preceded past b.id a.id → b.scheduledAt < a.scheduledAt)
    have : Std.Symm Agree := ⟨fun _ _ agree => agree.symm⟩
    have same (a : PendingCallback) : Agree a a :=
      ⟨fun preceded => absurd preceded preceded.asymm, fun preceded => absurd preceded preceded.asymm⟩
    have inTurn : (listed past).Pairwise Agree :=
      ((listed_preceded inTime).and inOrder).imp fun both =>
        ⟨fun _ => both.2, fun preceded => absurd preceded both.1.asymm⟩
    exact (inTurn.forall_of_forall (fun a _ => same a) (mem_listed.2 pends)
      (mem_listed.2 otherPends)).1
  · intro agree
    exact (listed_preceded inTime).imp_of_mem fun mem otherMem preceded =>
      agree _ _ (mem_listed.1 mem) (mem_listed.1 otherMem) preceded

/-- **Callbacks are listed in the order in which they became pending.** If of any two the one that
    became pending first was scheduled first, this is also the order in which they were scheduled,
    and otherwise it is not. It is if nothing was ever scheduled in the place of a pending
    callback. -/
theorem listed_as_they_became_pending (past : List Happening) (inTime : InTime past) :
    (∀ record, record ∈ listed past ↔ Pends past record) ∧
    ((listed past).Pairwise fun callback other => Preceded past callback.id other.id) ∧
    (InSchedulingOrder (listed past) ↔ ∀ callback other, Pends past callback → Pends past other →
      Preceded past callback.id other.id → callback.scheduledAt < other.scheduledAt) ∧
    (times replaces past = 0 → InSchedulingOrder (listed past)) := by
  refine ⟨fun record => mem_listed, listed_preceded inTime, inSchedulingOrder_iff inTime,
    fun unreplaced => (inSchedulingOrder_iff inTime).2 ?_⟩
  rintro callback other pends otherPends ⟨t, u, since, otherSince, before⟩
  rw [since?_of_unreplaced unreplaced pends] at since
  rw [since?_of_unreplaced unreplaced otherPends] at otherSince
  obtain rfl := Option.some.inj since
  obtain rfl := Option.some.inj otherSince
  exact before

/-- At a time, a script schedules the callback of a number to run once. -/
def scheduling (time id : Int64) : Happening :=
  .operation ⟨time⟩ ⟨false, false, .none, ⟨1⟩, ⟨id⟩⟩

/-- The first callback has run and is scheduled again, behind the second. -/
def reusedId : List Happening := [scheduling 4 1, .rootCall ⟨3⟩ ⟨1⟩, scheduling 2 2, scheduling 1 1]

theorem reusedId_listed : InTime reusedId ∧ times replaces reusedId = 0 ∧
    (listed reusedId).map PendingCallback.id = [⟨2⟩, ⟨1⟩] ∧ InSchedulingOrder (listed reusedId) := by
  have inTime : InTime reusedId := by decide
  have unreplaced : times replaces reusedId = 0 := by decide
  exact ⟨inTime, unreplaced, by decide,
    (listed_as_they_became_pending reusedId inTime).2.2.2 unreplaced⟩

/-- The first callback is scheduled again while it is pending, and stays ahead of the second. -/
def rescheduled : List Happening := [scheduling 3 1, scheduling 2 2, scheduling 1 1]

theorem rescheduled_out_of_order : InTime rescheduled ∧
    (listed rescheduled).map PendingCallback.scheduledAt = [⟨3⟩, ⟨2⟩] ∧
    ¬ InSchedulingOrder (listed rescheduled) := by
  decide

end Callbacks
end Retrace
