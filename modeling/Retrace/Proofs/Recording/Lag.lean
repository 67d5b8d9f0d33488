import Retrace.Proofs.Recording.Tags
import Retrace.Proofs.Replay.Dangling

/-!
# Tables that lag behind

Two tables of tags track the same values, one after the other, but the second is also given handles
that the first never sees. Each of these takes a tag, so from then on the first table is behind by
as many tags as there are such handles (`TagTable.Lag`): the tag that it gives next is one that the
second gave long ago, to some other handle (`TagTable.Lag.gives`). What both had tagged before the
first of them keeps its tag in both.

A table never takes a tag back, so what a tag stands for once, it stands for as long as the table
goes on (`TagTable.Continues`).
-/

namespace Retrace
namespace TagTable

variable {η : Type} [DecidableEq η] {t u w : TagTable η} {x y : η} {tag : Tag} {value : Value η}

/-! ## One handle -/

theorem tagOf?_eq_none : t.tagOf? x = none ↔ x ∉ t.handles := by
  simp only [tagOf?, Option.map_eq_none_iff, List.find?_eq_none, decide_eq_true_eq, handles,
    OrderedMap.values, List.mem_map, not_exists, not_and]

theorem mem_handles_of_tagOf? (h : t.tagOf? x = some tag) : x ∈ t.handles := by
  by_contra absent
  rw [tagOf?_eq_none.2 absent] at h
  exact absurd h (by simp)

theorem track_known (known : x ∈ t.handles) : (t.track x).2 = t := by
  unfold track
  cases found : t.tagOf? x with
  | some tag => rfl
  | none => exact absurd known (tagOf?_eq_none.1 found)

theorem track_new (new : x ∉ t.handles) :
    (t.track x).2 = ⟨⟨t.next.id + 1⟩, t.bound.insert t.next x⟩ := by
  unfold track
  rw [tagOf?_eq_none.2 new]
  rfl

/-- The next tag is not bound, so a new handle is bound behind all others. -/
theorem Issued.entries_track (issued : t.Issued) (new : x ∉ t.handles) :
    (t.track x).2.bound.entries = t.bound.entries ++ [(t.next, x)] := by
  rw [track_new new]
  exact OrderedMap.entries_insert (fun bound => Nat.lt_irrefl _ (issued.below _ bound)) x

theorem Issued.mem_handles_track (issued : t.Issued) :
    y ∈ (t.track x).2.handles ↔ y ∈ t.handles ∨ y = x := by
  by_cases known : x ∈ t.handles
  · rw [track_known known]
    exact ⟨Or.inl, fun h => h.elim id fun same => same ▸ known⟩
  · simp [handles, OrderedMap.values, issued.entries_track known]

theorem Issued.tagOf?_track (issued : t.Issued) (known : y ∈ t.handles) :
    (t.track x).2.tagOf? y = t.tagOf? y := by
  by_cases new : x ∈ t.handles
  · rw [track_known new]
  · have other : x ≠ y := fun same => new (same ▸ known)
    simp [tagOf?, issued.entries_track new, List.find?_append, other]

theorem Issued.tagOf?_track_new (issued : t.Issued) (new : x ∉ t.handles) :
    (t.track x).2.tagOf? x = some t.next := by
  have none : t.bound.entries.find? (fun e => decide (e.2 = x)) = none :=
    Option.map_eq_none_iff.1 (tagOf?_eq_none.2 new)
  simp [tagOf?, issued.entries_track new, List.find?_append, none]

/-- The reference in a value gets a tag. -/
theorem Issued.tracks (issued : t.Issued) : value.handles ⊆ (t.trackValue value).handles := by
  cases value with
  | ref x => exact List.cons_subset.2 ⟨issued.mem_handles_track.2 (Or.inr rfl), List.nil_subset _⟩
  | _ => exact List.nil_subset _

/-- Nothing else does. -/
theorem Issued.eq_ref_of_trackValue (issued : t.Issued) (new : t.tagOf? x = none)
    (gave : (t.trackValue value).tagOf? x = some tag) : value = .ref x := by
  cases value with
  | ref y =>
    rcases issued.mem_handles_track.1 (mem_handles_of_tagOf? gave) with known | rfl
    · exact absurd known (tagOf?_eq_none.1 new)
    · rfl
  | _ => exact absurd (new.symm.trans gave) (by simp)

/-- If there was a tag left, it is the one after those given before. -/
theorem Issued.next_track (issued : (t.track x).2.Issued) (new : x ∉ t.handles) :
    (t.track x).2.next.id.toNat = t.next.id.toNat + 1 := by
  rw [track_new new] at issued ⊢
  have bound : t.next ∈ (t.bound.insert t.next x).keys :=
    OrderedMap.mem_keys_of_get? (OrderedMap.get?_insert_self t.bound t.next x)
  have below : t.next.id.toNat < (t.next.id + 1).toNat := issued.below _ bound
  have size := t.next.id.toNat_lt
  have sum := UInt64.toNat_add t.next.id 1
  have one : (1 : UInt64).toNat = 1 := rfl
  show (t.next.id + 1).toNat = t.next.id.toNat + 1
  omega

/-! ## Going on -/

/-- The second table is one that the first has become: all tags that were given are what they were.
-/
structure Continues (t u : TagTable η) : Prop where
  next : t.next.id.toNat ≤ u.next.id.toNat
  resolve : ∀ tag : Tag, tag.id.toNat < t.next.id.toNat → u.resolve tag = t.resolve tag

omit [DecidableEq η] in
theorem Continues.refl (t : TagTable η) : t.Continues t := ⟨Nat.le_refl _, fun _ _ => rfl⟩

omit [DecidableEq η] in
theorem Continues.trans (h : t.Continues u) (h' : u.Continues w) : t.Continues w := by
  refine ⟨Nat.le_trans h.next h'.next, fun tag old => ?_⟩
  rw [h'.resolve tag (Nat.lt_of_lt_of_le old h.next), h.resolve tag old]

omit [DecidableEq η] in
/-- What a tag stands for, it stands for from then on. -/
theorem Continues.resolved (h : t.Continues u) (issued : t.Issued) (bound : t.resolve tag = .ok x) :
    u.resolve tag = .ok x := by
  have given : tag ∈ t.bound.keys := by
    unfold TagTable.resolve at bound
    cases found : t.bound.get? tag with
    | none => rw [found] at bound; exact absurd bound (by simp)
    | some _ => exact OrderedMap.mem_keys_of_get? found
  rw [h.resolve tag (issued.below tag given), bound]

theorem Issued.continues_track (issued : (t.track x).2.Issued) : t.Continues (t.track x).2 := by
  by_cases known : x ∈ t.handles
  · rw [track_known known]
    exact .refl t
  · refine ⟨by rw [issued.next_track known]; exact Nat.le_succ _, fun tag old => ?_⟩
    have other : tag ≠ t.next := fun same => Nat.lt_irrefl _ (same ▸ old)
    rw [track_new known]
    simp [resolve, OrderedMap.get?_insert, other]

theorem Issued.continues_trackValue (issued : (t.trackValue value).Issued) :
    t.Continues (t.trackValue value) := by
  cases value with
  | ref x => exact issued.continues_track
  | _ => exact .refl t

theorem resolve_track_new (new : x ∉ t.handles) : (t.track x).2.resolve t.next = .ok x := by
  rw [track_new new]
  simp [resolve]

/-- Every tag that was given out is bound. -/
def Full (t : TagTable η) : Prop :=
  ∀ tag : Tag, 0 < tag.id.toNat → tag.id.toNat < t.next.id.toNat → ∃ x, t.resolve tag = .ok x

theorem Full.track (full : t.Full) (issued : (t.track x).2.Issued) : (t.track x).2.Full := by
  by_cases known : x ∈ t.handles
  · rw [track_known known]
    exact full
  · intro tag started given
    rw [issued.next_track known] at given
    rcases Nat.lt_or_eq_of_le (Nat.le_of_lt_succ given) with old | last
    · rw [issued.continues_track.resolve tag old]
      exact full tag started old
    · obtain rfl : tag = t.next := by
        obtain ⟨id⟩ := tag
        exact congrArg Tag.mk (UInt64.toNat_inj.1 last)
      exact ⟨x, resolve_track_new known⟩

/-! ## Two tables -/

/-- Some handles have the same tags in both tables. -/
def AgreeOn (t u : TagTable η) (handles : List η) : Prop := ∀ x ∈ handles, t.tagOf? x = u.tagOf? x

/-- The second table has tagged all that the first has, and besides some handles that the first has
    not seen. Those that were tagged before any of these have the same tags in both. -/
structure Lag (early unseen : List η) (t u : TagTable η) : Prop where
  issued : t.Issued
  issued' : u.Issued
  started : 0 < t.next.id.toNat
  next : u.next.id.toNat = t.next.id.toNat + unseen.length
  handles : ∀ x, x ∈ u.handles ↔ x ∈ t.handles ∨ x ∈ unseen
  apart : ∀ x ∈ unseen, x ∉ t.handles
  known : early ⊆ t.handles
  agree : t.AgreeOn u early
  full : u.Full

variable {early unseen : List η}

/-- A table that was given everything does not lag. -/
theorem Lag.nothing (issued : t.Issued) (started : 0 < t.next.id.toNat) (full : t.Full) :
    t.Lag t.handles [] t where
  issued := issued
  issued' := issued
  started := started
  next := rfl
  handles := by simp
  apart := by simp
  known := List.Subset.refl _
  agree _ _ := rfl
  full := full

theorem Lag.new_iff (lag : t.Lag early unseen u) (seen : x ∉ unseen) :
    x ∉ u.handles ↔ x ∉ t.handles := by
  rw [lag.handles x]
  simp [seen]

/-- Both track a handle. -/
theorem Lag.track (lag : t.Lag early unseen u) (seen : x ∉ unseen)
    (issued : (u.track x).2.Issued) : (t.track x).2.Lag early unseen (u.track x).2 := by
  -- a handle that is known on one side is known on the other, unless it was withheld
  by_cases known : x ∈ t.handles
  · rw [track_known known, track_known ((lag.handles x).2 (Or.inl known))]
    exact lag
  · have new := (lag.new_iff seen).2 known
    have next' := issued.next_track new
    -- the table that is ahead had room for the handle, so the one that lags behind has
    have room : t.next.id.toNat + 1 < UInt64.size := by
      have := (u.track x).2.next.id.toNat_lt
      have := lag.next
      show _ < 2 ^ 64
      omega
    obtain ⟨issuedLeft, -⟩ := track_issued lag.issued room x
    exact {
      issued := issuedLeft
      issued' := issued
      started := by
        rw [issuedLeft.next_track known]
        exact Nat.succ_pos _
      next := by
        rw [next', issuedLeft.next_track known, lag.next]
        omega
      handles := fun y => by
        rw [lag.issued'.mem_handles_track, lag.issued.mem_handles_track, lag.handles y]
        tauto
      apart := fun y mem tracked => by
        rcases lag.issued.mem_handles_track.1 tracked with before | rfl
        · exact lag.apart y mem before
        · exact seen mem
      known := fun y mem => lag.issued.mem_handles_track.2 (Or.inl (lag.known mem))
      agree := fun y mem => by
        have there := lag.known mem
        rw [lag.issued.tagOf?_track there,
          lag.issued'.tagOf?_track ((lag.handles y).2 (Or.inl there))]
        exact lag.agree y mem
      full := lag.full.track issued }

/-- The second alone tracks one that it has not seen either. -/
theorem Lag.skip (lag : t.Lag early unseen u) (new : x ∉ u.handles)
    (issued : (u.track x).2.Issued) : t.Lag early (unseen ++ [x]) (u.track x).2 where
  issued := lag.issued
  issued' := issued
  started := lag.started
  next := by
    rw [issued.next_track new, lag.next, List.length_append]
    rfl
  handles y := by
    rw [lag.issued'.mem_handles_track, lag.handles y, List.mem_append, List.mem_singleton, or_assoc]
  apart y mem before := by
    rcases List.mem_append.1 mem with old | last
    · exact lag.apart y old before
    · exact new ((lag.handles x).2 (Or.inl (List.mem_singleton.1 last ▸ before)))
  known := lag.known
  agree y mem := by
    rw [lag.issued'.tagOf?_track ((lag.handles y).2 (Or.inl (lag.known mem)))]
    exact lag.agree y mem
  full := lag.full.track issued

/-- Both track the reference in a value. -/
theorem Lag.trackValue (lag : t.Lag early unseen u) (seen : ∀ x ∈ value.handles, x ∉ unseen)
    (issued : (u.trackValue value).Issued) :
    (t.trackValue value).Lag early unseen (u.trackValue value) := by
  cases value with
  | ref x => exact lag.track (seen x List.mem_cons_self) issued
  | _ => exact lag

/-- **A table that lags gives a handle a tag that is too low**, by as many as it has not seen. If
    these are any, the tag stands for another handle in the table that has seen them. -/
theorem Lag.gives (lag : t.Lag early unseen u) (seen : x ∉ unseen)
    (issued : (u.track x).2.Issued) (new : t.tagOf? x = none)
    (gave : (t.track x).2.tagOf? x = some tag) :
    (∃ tag' : Tag, tag'.id.toNat = tag.id.toNat + unseen.length ∧
      (u.track x).2.resolve tag' = .ok x) ∧
    (unseen ≠ [] → ∃ other, other ≠ x ∧ (u.track x).2.resolve tag = .ok other) := by
  have absent := tagOf?_eq_none.1 new
  have absent' := (lag.new_iff seen).2 absent
  obtain rfl := Option.some.inj (gave.symm.trans (lag.issued.tagOf?_track_new absent))
  refine ⟨⟨u.next, lag.next, resolve_track_new absent'⟩, fun some => ?_⟩
  have old : t.next.id.toNat < u.next.id.toNat := by
    have behind := List.length_pos_of_ne_nil some
    have next := lag.next
    omega
  obtain ⟨other, bound⟩ := lag.full t.next lag.started old
  refine ⟨other, ?_, (issued.continues_track.resolve _ old).trans bound⟩
  rintro rfl
  exact absent' (resolve_mem bound)

end TagTable
end Retrace
