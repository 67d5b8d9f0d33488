import Retrace.IndexedTags
import Retrace.Proofs.Recording.Lag

/-!
# The index of the handles agrees with the bindings

A table with an index finds the tag of a handle without going through the bindings. The index is
written wherever a binding is made: binding by hand leaves a handle that is in the index as it is
there, and tracking comes to write only a handle that is not. What a binding behind all others does
to the first binding of a handle is the same (`TagTable.tagOf?_insert`), so the two agree behind
every operation that they agreed in front of (`IndexedTags.Agrees`).

Tracking needs that the next tag is free. A counter that has run through all tags comes upon bound
ones: the binding of a new handle then takes the place of an old one, and the index names the tag
for both handles.

As long as they agree, each operation is the one of the plain table, with the same answer.
-/

namespace Retrace

namespace TagTable

variable {η : Type} {t : TagTable η} {tag : Tag} {x : η}

/-- A tag stands for the handle of its only binding. -/
theorem Issued.resolve_eq_ok (issued : t.Issued) :
    t.resolve tag = .ok x ↔ (tag, x) ∈ t.bound.entries := by
  unfold resolve
  constructor
  · intro found
    cases there : t.bound.get? tag with
    | none => rw [there] at found; exact absurd found (by simp)
    | some y =>
      rw [there] at found
      obtain rfl := Except.ok.inj found
      obtain ⟨before, after, split, -⟩ := List.lookup_eq_some_iff.1 there
      rw [split]
      simp
  · intro mem
    rw [OrderedMap.get?_of_mem issued.nodup mem]

variable [DecidableEq η]

/-- A binding behind the others gives a handle its tag only if it had none. -/
theorem tagOf?_insert (new : tag ∉ t.bound.keys) (next : Tag) (x y : η) :
    tagOf? ⟨next, t.bound.insert tag x⟩ y =
      if y = x then some ((t.tagOf? x).getD tag) else t.tagOf? y := by
  have search : tagOf? ⟨next, t.bound.insert tag x⟩ y =
      (t.tagOf? y).or (if x = y then some tag else none) := by
    unfold tagOf?
    rw [OrderedMap.entries_insert new, List.find?_append, Option.map_or]
    by_cases same : x = y <;> simp [same]
  rw [search]
  by_cases same : y = x
  · subst same
    cases t.tagOf? y <;> simp
  · simp [same, Ne.symm same]

end TagTable

namespace IndexedTags

variable {η : Type} [DecidableEq η] {t u : IndexedTags η} {tag : Tag} {x : η}

/-- The tag in the index is the one that a search in the bindings comes upon first. -/
def Agrees (t : IndexedTags η) : Prop := ∀ x, t.tagOf? x = t.plain.tagOf? x

theorem empty_agrees : (empty : IndexedTags η).Agrees := fun _ => rfl

/-! ## Binding by hand -/

/-- A tag is bound if it was issued and is not bound yet. The index keeps the first of a handle. -/
theorem bind_eq_ok : t.bind tag x = .ok u ↔
    (0 < tag.id.toNat ∧ tag.id.toNat < t.next.id.toNat) ∧ tag ∉ t.byTag.keys ∧
      u = { t with byHandle := t.byHandle.insertNew x tag, byTag := t.byTag.insert tag x } := by
  have range : (tag.id < TagTable.firstTag.id ∨ t.next.id ≤ tag.id) ↔
      ¬ (0 < tag.id.toNat ∧ tag.id.toNat < t.next.id.toNat) := by
    have first : TagTable.firstTag.id.toNat = 1 := rfl
    rw [UInt64.lt_iff_toNat_lt, UInt64.le_iff_toNat_le, first]
    omega
  unfold bind
  simp only [range, OrderedMap.contains_iff]
  by_cases issued : 0 < tag.id.toNat ∧ tag.id.toNat < t.next.id.toNat
  · by_cases bound : tag ∈ t.byTag.keys
    · simp [issued, bound]
    · simp [issued, bound, eq_comm]
  · simp [issued]

/-- The index plays no part in what is refused. -/
theorem plain_bind (t : IndexedTags η) (tag : Tag) (x : η) :
    (t.bind tag x).map plain = t.plain.bind tag x := by
  unfold bind TagTable.bind plain
  dsimp only
  split
  · rfl
  · split <;> rfl

theorem Agrees.bind (agrees : t.Agrees) (bound : t.bind tag x = .ok u) : u.Agrees := by
  obtain ⟨-, new, rfl⟩ := bind_eq_ok.1 bound
  intro y
  have noted : (t.byHandle.insertNew x tag).get? y =
      if y = x then some ((t.tagOf? x).getD tag) else t.tagOf? y := OrderedMap.get?_insertNew ..
  refine noted.trans ?_
  rw [agrees x, agrees y]
  exact (TagTable.tagOf?_insert (t := t.plain) new t.next x y).symm

/-! ## Tracking -/

theorem track_known (known : t.tagOf? x = some tag) : t.track x = (tag, t) := by
  unfold track
  rw [show t.byHandle.get? x = some tag from known]

theorem track_new (new : t.tagOf? x = none) :
    t.track x =
      (t.next, ⟨⟨t.next.id + 1⟩, t.byTag.insert t.next x, t.byHandle.insert x t.next⟩) := by
  unfold track
  rw [show t.byHandle.get? x = none from new]
  rfl

/-- Where the index agrees, it decides as the bindings do whether a handle is new. -/
theorem plain_track (agrees : t.Agrees) (x : η) :
    ((t.track x).1, (t.track x).2.plain) = t.plain.track x := by
  unfold TagTable.track
  rw [← agrees x]
  cases known : t.tagOf? x with
  | some tag => rw [track_known known]
  | none =>
    rw [track_new known]
    rfl

theorem Agrees.track (agrees : t.Agrees) (issued : t.plain.Issued) (x : η) :
    (t.track x).2.Agrees := by
  cases known : t.tagOf? x with
  | some tag =>
    rw [track_known known]
    exact agrees
  | none =>
    rw [track_new known]
    intro y
    have free : t.next ∉ t.byTag.keys := fun bound => Nat.lt_irrefl _ (issued.below _ bound)
    have noted : (t.byHandle.insert x t.next).get? y =
        if y = x then some t.next else t.tagOf? y := OrderedMap.get?_insert ..
    refine noted.trans ?_
    rw [agrees y]
    refine Eq.trans ?_ (TagTable.tagOf?_insert (t := t.plain) free ⟨t.next.id + 1⟩ x y).symm
    rw [← agrees x, known]
    rfl

/-! ## Values -/

omit [DecidableEq η] in
theorem resolve_eq (t : IndexedTags η) (tag : Tag) : t.resolve tag = t.plain.resolve tag := rfl

theorem encode_eq (agrees : t.Agrees) (value : Value η) : t.encode value = value.encode t.plain := by
  unfold encode Value.encode
  refine congrArg value.traverse (funext fun handle => ?_)
  cases named : t.plain.tagOf? handle <;> simp only [agrees handle, named]

omit [DecidableEq η] in
theorem decode_eq (t : IndexedTags η) (value : Recorded) : t.decode value = value.decode t.plain :=
  rfl

end IndexedTags
end Retrace
