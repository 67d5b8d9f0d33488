import Retrace.Proofs.Tagging.Indexes

/-!
# Tags go by the pattern of what is observed

Two sessions track their handles one after the other, each from an empty table. The handles may be
of different types, so they cannot be compared with each other. What can is their *pattern*: at
which positions the handle is one that stood at another position too. This is all that the tags show
(`tags_eq_iff_samePattern`): they have the pattern of the handles themselves
(`Tagged.samePattern`), and a new handle gets a tag that depends only on how many came before.
-/

namespace Retrace
namespace TagTable

variable {η κ μ : Type}

section

variable [DecidableEq η]

/-- The tags of some handles that are tracked one after the other, and the table afterwards. -/
def trackAll (t : TagTable η) : List η → List Tag × TagTable η
  | [] => ([], t)
  | x :: xs =>
    let (tag, t) := t.track x
    let (tags, t) := t.trackAll xs
    (tag :: tags, t)

/-- The tags that a session gives. -/
def tagsOf (xs : List η) : List Tag := (empty.trackAll xs).1

def tracked (xs : List η) : TagTable η := (empty.trackAll xs).2

end

/-- Each list has the same element at two positions where the other has. -/
def SamePattern (xs : List η) (ys : List κ) : Prop :=
  ∀ i j, i < xs.length → j < xs.length → (xs[i]? = xs[j]? ↔ ys[i]? = ys[j]?)

/-! ## Patterns -/

section Patterns

variable {xs : List η} {ys : List κ} {zs : List μ} {x : η} {y : κ}

theorem SamePattern.symm (length : xs.length = ys.length) (same : SamePattern xs ys) :
    SamePattern ys xs :=
  fun i j hi hj => (same i j (length ▸ hi) (length ▸ hj)).symm

theorem SamePattern.trans (length : xs.length = ys.length) (same : SamePattern xs ys)
    (same' : SamePattern ys zs) : SamePattern xs zs :=
  fun i j hi hj => (same i j hi hj).trans (same' i j (length ▸ hi) (length ▸ hj))

theorem SamePattern.take (same : SamePattern xs ys) (k : Nat) :
    SamePattern (xs.take k) (ys.take k) := by
  intro i j hi hj
  rw [List.length_take, Nat.lt_min] at hi hj
  simp only [List.getElem?_take, hi.1, hj.1, if_true]
  exact same i j hi.2 hj.2

/-- The last elements stand where the other stands. -/
theorem SamePattern.last (length : xs.length = ys.length)
    (same : SamePattern (xs ++ [x]) (ys ++ [y])) (i : Nat) :
    xs[i]? = some x ↔ ys[i]? = some y := by
  by_cases inside : i < xs.length
  · have both := same i xs.length (by simp; omega) (by simp)
    have inside' : i < ys.length := length ▸ inside
    rwa [List.getElem?_concat_length, length, List.getElem?_concat_length,
      List.getElem?_append_left inside, List.getElem?_append_left inside'] at both
  · rw [List.getElem?_eq_none (Nat.le_of_not_lt inside),
      List.getElem?_eq_none (length ▸ Nat.le_of_not_lt inside)]
    simp

end Patterns

/-! ## One session -/

section Session

variable [DecidableEq η] {t : TagTable η} {xs : List η} {tags : List Tag} {x : η}

/-- The handles were tracked, got these tags, and nothing else is in the table. -/
structure Tagged (xs : List η) (tags : List Tag) (t : TagTable η) : Prop where
  issued : t.Issued
  next : t.next.id.toNat = xs.eraseDups.length + 1
  handles : t.handles = xs.eraseDups
  order : t.order = tags.eraseDups
  tags : xs.map t.tagOf? = tags.map some

omit [DecidableEq η] in
theorem order_eq (t : TagTable η) : t.order = t.bound.entries.map Prod.fst := rfl

omit [DecidableEq η] in
theorem handles_eq (t : TagTable η) : t.handles = t.bound.entries.map Prod.snd := rfl

theorem trackAll_append (t : TagTable η) (xs : List η) (x : η) :
    t.trackAll (xs ++ [x]) = ((t.trackAll xs).1 ++ [((t.trackAll xs).2.track x).1],
      ((t.trackAll xs).2.track x).2) := by
  induction xs generalizing t with
  | nil => rfl
  | cons y xs ih =>
    show (_ :: ((t.track y).2.trackAll (xs ++ [x])).1, ((t.track y).2.trackAll (xs ++ [x])).2) = _
    rw [ih]
    rfl

theorem eraseDups_append_known {xs : List η} (known : x ∈ xs) :
    (xs ++ [x]).eraseDups = xs.eraseDups := by
  simp [List.eraseDups_append, List.removeAll, known]

theorem eraseDups_append_new {xs : List η} (new : x ∉ xs) :
    (xs ++ [x]).eraseDups = xs.eraseDups ++ [x] := by
  simp [List.eraseDups_append, List.removeAll, new, List.eraseDups_cons]

theorem Tagged.mem_handles (tagged : Tagged xs tags t) : x ∈ t.handles ↔ x ∈ xs := by
  rw [tagged.handles, List.mem_eraseDups]

theorem Tagged.length_eq (tagged : Tagged xs tags t) : xs.length = tags.length := by
  simpa using congrArg List.length tagged.tags

/-- There are as many tags as handles. -/
theorem Tagged.length_eraseDups (tagged : Tagged xs tags t) :
    xs.eraseDups.length = tags.eraseDups.length := by
  rw [← tagged.handles, ← tagged.order, handles_eq, order_eq, List.length_map, List.length_map]

/-- What was tracked has the tag that it got. -/
theorem Tagged.tagOf?_at (tagged : Tagged xs tags t) {i : Nat} (there : xs[i]? = some x) :
    ∃ tag, tags[i]? = some tag ∧ t.tagOf? x = some tag := by
  have both : (xs.map t.tagOf?)[i]? = (tags.map some)[i]? := by rw [tagged.tags]
  rw [List.getElem?_map, List.getElem?_map, there, eq_comm, Option.map_some,
    Option.map_eq_some_iff] at both
  obtain ⟨tag, found, same⟩ := both
  exact ⟨tag, found, same.symm⟩

theorem Tagged.track_known (tagged : Tagged xs tags t) (known : x ∈ xs) :
    Tagged (xs ++ [x]) (tags ++ [(t.track x).1]) (t.track x).2 := by
  obtain ⟨i, there⟩ := List.mem_iff_getElem?.1 known
  obtain ⟨tag, found, named⟩ := tagged.tagOf?_at there
  have again : t.track x = (tag, t) := by rw [track, named]
  have given : tag ∈ tags := List.mem_iff_getElem?.2 ⟨i, found⟩
  rw [again]
  refine ⟨tagged.issued, ?_, ?_, ?_, ?_⟩
  · rw [tagged.next, eraseDups_append_known known]
  · rw [tagged.handles, eraseDups_append_known known]
  · rw [tagged.order, eraseDups_append_known given]
  · rw [List.map_append, tagged.tags, List.map_append, List.map_singleton, named]
    rfl

theorem Tagged.track_new (tagged : Tagged xs tags t) (new : x ∉ xs)
    (room : xs.eraseDups.length + 1 < UInt64.size - 1) :
    Tagged (xs ++ [x]) (tags ++ [(t.track x).1]) (t.track x).2 := by
  have absent : x ∉ t.handles := fun there => new (tagged.mem_handles.1 there)
  have enough : t.next.id.toNat + 1 < UInt64.size := by
    rw [tagged.next]
    omega
  have issued := (track_issued tagged.issued enough x).1
  have entries := tagged.issued.entries_track absent
  have tag : (t.track x).1 = t.next := by
    rw [track, tagOf?_eq_none.2 absent]
    rfl
  have unused : t.next ∉ tags := by
    intro used
    have bound : t.next ∈ t.order := by
      rw [tagged.order]
      exact List.mem_eraseDups.2 used
    exact Nat.lt_irrefl _ (tagged.issued.below _ bound)
  refine ⟨issued, ?_, ?_, ?_, ?_⟩
  · rw [issued.next_track absent, tagged.next, eraseDups_append_new new, List.length_append]
    rfl
  · rw [handles_eq, entries, List.map_append, eraseDups_append_new new, ← tagged.handles]
    rfl
  · rw [tag, order_eq, entries, List.map_append, eraseDups_append_new unused, ← tagged.order]
    rfl
  · have kept : xs.map (t.track x).2.tagOf? = xs.map t.tagOf? :=
      List.map_congr_left fun y mem => tagged.issued.tagOf?_track (tagged.mem_handles.2 mem)
    rw [List.map_append, kept, tagged.tags, List.map_append, List.map_singleton,
      tagged.issued.tagOf?_track_new absent, tag]
    rfl

theorem length_eraseDups_le (xs ys : List η) :
    xs.eraseDups.length ≤ (xs ++ ys).eraseDups.length := by
  rw [List.eraseDups_append, List.length_append]
  exact Nat.le_add_right _ _

theorem tagged_tracked {xs : List η} (room : xs.eraseDups.length < UInt64.size - 1) :
    Tagged xs (tagsOf xs) (tracked xs) := by
  induction xs using List.reverseRecOn with
  | nil => exact ⟨empty_issued, rfl, rfl, rfl, rfl⟩
  | append_singleton xs x ih =>
    have tagged := ih (Nat.lt_of_le_of_lt (length_eraseDups_le xs [x]) room)
    rw [tagsOf, tracked, trackAll_append]
    by_cases known : x ∈ xs
    · exact tagged.track_known known
    · rw [eraseDups_append_new known, List.length_append] at room
      exact tagged.track_new known room

/-- **Tags have the pattern of the handles.** -/
theorem Tagged.samePattern (tagged : Tagged xs tags t) : SamePattern xs tags := by
  intro i j hi hj
  obtain ⟨tag, tag_at, named⟩ := tagged.tagOf?_at (List.getElem?_eq_getElem hi)
  obtain ⟨tag', tag'_at, named'⟩ := tagged.tagOf?_at (List.getElem?_eq_getElem hj)
  rw [List.getElem?_eq_getElem hi, List.getElem?_eq_getElem hj, tag_at, tag'_at,
    Option.some_inj, Option.some_inj]
  constructor
  · intro same
    rw [same] at named
    exact Option.some_inj.1 (named.symm.trans named')
  · rintro rfl
    have one := resolve_tagOf tagged.issued named
    exact Except.ok.inj (one.symm.trans (resolve_tagOf tagged.issued named'))

theorem Tagged.resolve_order (tagged : Tagged xs tags t) :
    t.order.map t.resolve = xs.eraseDups.map .ok := by
  rw [← tagged.handles, order_eq, handles_eq, List.map_map, List.map_map]
  exact List.map_congr_left fun e mem => tagged.issued.resolve_eq_ok.2 mem

end Session

/-! ## Two sessions -/

section TwoSessions

variable [DecidableEq η] [DecidableEq κ] {xs : List η} {ys : List κ} {tags : List Tag}
variable {t : TagTable η} {u : TagTable κ} {x : η} {y : κ}

/-- If the tags are the same, as many are given. -/
theorem Tagged.next_eq (tagged : Tagged xs tags t) (tagged' : Tagged ys tags u) :
    t.next = u.next := by
  have same : t.next.id.toNat = u.next.id.toNat := by
    rw [tagged.next, tagged'.next, tagged.length_eraseDups, tagged'.length_eraseDups]
  exact congrArg Tag.mk (UInt64.toNat_inj.1 same)

theorem Tagged.isIsomorphic (tagged : Tagged xs tags t) (tagged' : Tagged ys tags u) :
    t.isIsomorphic u = true := by
  simp [TagTable.isIsomorphic, tagged.next_eq tagged', tagged.order, tagged'.order]

/-- Handles that were observed at the same positions get the same tag next. -/
theorem Tagged.track_alike (tagged : Tagged xs tags t) (tagged' : Tagged ys tags u)
    (same : ∀ i : Nat, xs[i]? = some x ↔ ys[i]? = some y) : (t.track x).1 = (u.track y).1 := by
  by_cases known : x ∈ xs
  · obtain ⟨i, there⟩ := List.mem_iff_getElem?.1 known
    obtain ⟨tag, found, named⟩ := tagged.tagOf?_at there
    obtain ⟨tag', found', named'⟩ := tagged'.tagOf?_at ((same i).1 there)
    rw [track, track, named, named']
    exact Option.some_inj.1 (found.symm.trans found')
  · have known' : y ∉ ys := by
      intro there
      obtain ⟨i, at_i⟩ := List.mem_iff_getElem?.1 there
      exact known (List.mem_iff_getElem?.2 ⟨i, (same i).2 at_i⟩)
    have new := tagOf?_eq_none.2 fun there => known (tagged.mem_handles.1 there)
    have new' := tagOf?_eq_none.2 fun there => known' (tagged'.mem_handles.1 there)
    rw [track, track, new, new']
    exact tagged.next_eq tagged'

/-- Handles of one pattern get the same tags. -/
theorem SamePattern.tagsOf_eq (length : xs.length = ys.length) (same : SamePattern xs ys)
    (room : xs.eraseDups.length < UInt64.size - 1)
    (room' : ys.eraseDups.length < UInt64.size - 1) : tagsOf xs = tagsOf ys := by
  induction xs using List.reverseRecOn generalizing ys with
  | nil => rw [List.eq_nil_of_length_eq_zero length.symm]; rfl
  | append_singleton xs x ih =>
    obtain rfl | ⟨ys, y, rfl⟩ := List.eq_nil_or_concat' ys
    · exact absurd length (by simp)
    have length : xs.length = ys.length := by simpa using length
    have room := Nat.lt_of_le_of_lt (length_eraseDups_le xs [x]) room
    have room' := Nat.lt_of_le_of_lt (length_eraseDups_le ys [y]) room'
    have shorter : SamePattern xs ys := by
      have taken := same.take xs.length
      rwa [List.take_left, length, List.take_left] at taken
    have tags : tagsOf xs = tagsOf ys := ih length shorter room room'
    have last := (tagged_tracked room).track_alike (tags ▸ tagged_tracked room') (same.last length)
    rw [tagsOf, tagsOf, trackAll_append, trackAll_append]
    show tagsOf xs ++ [((tracked xs).track x).1] = tagsOf ys ++ [((tracked ys).track y).1]
    rw [tags, last]

/-- **All that the tags show of the handles is their pattern.** Two sessions give the same tags if
and only if they observe handles of the same pattern. Then their tables are isomorphic all along,
and the order in which tags are bound is that in which the handles are seen first. Only the tags
have to last: whoever sees more handles than there are numbers gives a tag twice. -/
theorem tags_eq_iff_samePattern (length : xs.length = ys.length)
    (room : xs.eraseDups.length < UInt64.size - 1)
    (room' : ys.eraseDups.length < UInt64.size - 1) :
    (tagsOf xs = tagsOf ys ↔ SamePattern xs ys) ∧
      (SamePattern xs ys → ∀ k,
        (tracked (xs.take k)).isIsomorphic (tracked (ys.take k)) = true ∧
          (tracked (xs.take k)).order.map (tracked (xs.take k)).resolve =
            (xs.take k).eraseDups.map .ok ∧
          (tracked (ys.take k)).order.map (tracked (ys.take k)).resolve =
            (ys.take k).eraseDups.map .ok) := by
  refine ⟨⟨fun same => ?_, fun same => same.tagsOf_eq length room room'⟩, fun same k => ?_⟩
  · have pattern := (tagged_tracked room).samePattern
    have pattern' := (tagged_tracked room').samePattern
    rw [← same] at pattern'
    exact pattern.trans (tagged_tracked room).length_eq
      (pattern'.symm ((same ▸ tagged_tracked room').length_eq))
  · have fewer : (xs.take k).eraseDups.length ≤ xs.eraseDups.length := by
      simpa using length_eraseDups_le (xs.take k) (xs.drop k)
    have fewer' : (ys.take k).eraseDups.length ≤ ys.eraseDups.length := by
      simpa using length_eraseDups_le (ys.take k) (ys.drop k)
    have room := Nat.lt_of_le_of_lt fewer room
    have room' := Nat.lt_of_le_of_lt fewer' room'
    have tagged := tagged_tracked room
    have tagged' := tagged_tracked room'
    have tags : tagsOf (xs.take k) = tagsOf (ys.take k) :=
      (same.take k).tagsOf_eq (by simp [length]) room room'
    exact ⟨tagged.isIsomorphic (tags ▸ tagged'), tagged.resolve_order, tagged'.resolve_order⟩

end TwoSessions

/-- Names and numbers that come again in the same places, and numbers that do not. -/
theorem namesAndNumbers : ["a", "b", "a"].length = [7, 3, 7].length ∧
    ["a", "b", "a"].eraseDups.length < UInt64.size - 1 ∧
    [7, 3, 7].eraseDups.length < UInt64.size - 1 ∧
    SamePattern ["a", "b", "a"] [7, 3, 7] ∧ ¬ SamePattern ["a", "b", "a"] [7, 3, 3] := by
  have room : ["a", "b", "a"].eraseDups.length < UInt64.size - 1 := by decide
  have room' : [7, 3, 7].eraseDups.length < UInt64.size - 1 := by decide
  have room'' : [7, 3, 3].eraseDups.length < UInt64.size - 1 := by decide
  have again : tagsOf ["a", "b", "a"] = tagsOf [7, 3, 7] ↔ SamePattern ["a", "b", "a"] [7, 3, 7] :=
    (tags_eq_iff_samePattern (by decide) room room').1
  have other : tagsOf ["a", "b", "a"] = tagsOf [7, 3, 3] ↔ SamePattern ["a", "b", "a"] [7, 3, 3] :=
    (tags_eq_iff_samePattern (by decide) room room'').1
  exact ⟨rfl, room, room', again.1 (by decide), fun same => absurd (other.2 same) (by decide)⟩

end TagTable
end Retrace
