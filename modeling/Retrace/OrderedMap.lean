/-!
# Maps that remember the order of their keys

An `OrderedMap` is a finite map whose keys stay in the order in which they were first inserted.
Putting a new value under a present key keeps the key's place; erasing a key closes the gap and
leaves the others in order. Tags, properties of heap objects and pending callbacks all live in such
maps, because their order can be seen from outside.

The view of a map is its list of entries. `get?_insert`, `get?_insertNew` and `get?_erase` say what
the operations do to look-up; `keys_insert_of_contains` and `keys_insert_of_not_mem` say what they
do to the order.
-/

namespace Retrace

/-- A finite map, as its entries in the order in which their keys were first inserted. -/
structure OrderedMap (κ ν : Type) where
  entries : List (κ × ν)
deriving DecidableEq, Repr

namespace OrderedMap

variable {κ ν : Type}

def empty : OrderedMap κ ν := ⟨[]⟩

instance : EmptyCollection (OrderedMap κ ν) := ⟨empty⟩
instance : Inhabited (OrderedMap κ ν) := ⟨empty⟩

def size (m : OrderedMap κ ν) : Nat := m.entries.length

def isEmpty (m : OrderedMap κ ν) : Bool := m.entries.isEmpty

/-- The keys, first inserted first. -/
def keys (m : OrderedMap κ ν) : List κ := m.entries.map Prod.fst

/-- The values, in the order of their keys. -/
def values (m : OrderedMap κ ν) : List ν := m.entries.map Prod.snd

variable [DecidableEq κ]

/-- The value under a key. -/
def get? (m : OrderedMap κ ν) (k : κ) : Option ν := m.entries.lookup k

def contains (m : OrderedMap κ ν) (k : κ) : Bool := (m.get? k).isSome

/-- Puts `v` under `k`: in the place of an entry that is there already, else behind all others. -/
def insert (m : OrderedMap κ ν) (k : κ) (v : ν) : OrderedMap κ ν :=
  if m.contains k then ⟨m.entries.map fun e => if e.1 = k then (k, v) else e⟩
  else ⟨m.entries ++ [(k, v)]⟩

/-- Puts `v` under `k`, unless there is a value under it already. -/
def insertNew (m : OrderedMap κ ν) (k : κ) (v : ν) : OrderedMap κ ν :=
  if m.contains k then m else m.insert k v

/-- Takes `k` out; the other entries keep their order. -/
def erase (m : OrderedMap κ ν) (k : κ) : OrderedMap κ ν :=
  ⟨m.entries.filter fun e => e.1 ≠ k⟩

/-! ## Look-up after an operation -/

@[simp] theorem get?_empty (k : κ) : (empty : OrderedMap κ ν).get? k = none := rfl

private theorem lookup_map_replace (k : κ) (v : ν) (l : List (κ × ν)) (k' : κ) :
    (l.map fun e => if e.1 = k then (k, v) else e).lookup k' =
      if k' = k ∧ (l.lookup k).isSome then some v else l.lookup k' := by
  induction l with
  | nil => simp
  | cons e l ih =>
    obtain ⟨a, b⟩ := e
    by_cases ha : a = k
    · subst ha
      by_cases hk : k' = a
      · simp [hk]
      · have : (k' == a) = false := by simpa using hk
        simp only [List.map_cons, if_true, List.lookup_cons, this, ih]
        simp [hk]
    · by_cases hka : k' = a
      · subst hka; simp [ha]
      · have h₁ : (k' == a) = false := by simpa using hka
        have h₂ : (k == a) = false := by simpa using fun h : k = a => ha h.symm
        simp only [List.map_cons, if_neg ha, List.lookup_cons, h₁, h₂, ih]

/-- What was put under a key is found there, and no other key is touched. -/
theorem get?_insert (m : OrderedMap κ ν) (k : κ) (v : ν) (k' : κ) :
    (m.insert k v).get? k' = if k' = k then some v else m.get? k' := by
  unfold insert
  split
  · rename_i h
    simp only [get?, lookup_map_replace]
    simp only [contains, get?] at h
    simp [h]
  · rename_i h
    simp only [contains, get?, Bool.not_eq_true, Option.isSome_eq_false_iff,
      Option.isNone_iff_eq_none] at h
    simp only [get?, List.lookup_append]
    by_cases hk : k' = k
    · subst hk; simp [h]
    · have : (k' == k) = false := by simpa using hk
      simp [hk, List.lookup_cons, this]

@[simp] theorem get?_insert_self (m : OrderedMap κ ν) (k : κ) (v : ν) :
    (m.insert k v).get? k = some v := by simp [get?_insert]

/-- What was there first stays. -/
theorem get?_insertNew (m : OrderedMap κ ν) (k : κ) (v : ν) (k' : κ) :
    (m.insertNew k v).get? k' = if k' = k then some ((m.get? k).getD v) else m.get? k' := by
  unfold insertNew contains
  cases old : m.get? k with
  | none => simp [get?_insert]
  | some first =>
    by_cases same : k' = k
    · simp [same, old]
    · simp [same]

/-- An erased key is gone, and no other key is touched. -/
theorem get?_erase (m : OrderedMap κ ν) (k k' : κ) :
    (m.erase k).get? k' = if k' = k then none else m.get? k' := by
  unfold erase get?
  induction m.entries with
  | nil => simp
  | cons e l ih =>
    obtain ⟨a, b⟩ := e
    by_cases ha : a = k
    · subst ha
      simp only [ne_eq, decide_not, decide_true, Bool.not_true, Bool.false_eq_true,
        not_false_eq_true, List.filter_cons_of_neg]
      simp only [ne_eq, decide_not] at ih
      rw [ih]
      by_cases hk : k' = a
      · simp [hk]
      · have : (k' == a) = false := by simpa using hk
        simp [hk, List.lookup_cons, this]
    · simp only [ne_eq, ha, not_false_eq_true, decide_true, List.filter_cons_of_pos]
      by_cases hka : k' = a
      · subst hka; simp [ha]
      · have : (k' == a) = false := by simpa using hka
        simp only [List.lookup_cons, this, ih]

/-! ## The keys -/

theorem mem_keys_of_get? {m : OrderedMap κ ν} {k : κ} {v : ν} (h : m.get? k = some v) :
    k ∈ m.keys := by
  obtain ⟨before, after, split, -⟩ := List.lookup_eq_some_iff.1 h
  unfold keys
  rw [split]
  simp

/-- The map contains its keys, and nothing else. -/
theorem contains_iff {m : OrderedMap κ ν} {k : κ} : m.contains k = true ↔ k ∈ m.keys := by
  unfold contains
  constructor
  · intro some_
    obtain ⟨v, found⟩ := Option.isSome_iff_exists.1 some_
    exact mem_keys_of_get? found
  · intro mem
    obtain ⟨e, there, rfl⟩ := List.mem_map.1 mem
    cases found : m.get? e.1 with
    | some v => rfl
    | none => exact absurd (List.lookup_eq_none_iff.1 found e there) (by simp)

theorem exists_of_mem_keys {m : OrderedMap κ ν} {k : κ} (mem : k ∈ m.keys) :
    ∃ v, m.get? k = some v :=
  Option.isSome_iff_exists.1 (contains_iff.2 mem)

/-- Putting a value under a key adds this key, and takes none away. -/
theorem mem_keys_insert {m : OrderedMap κ ν} {k k' : κ} {v : ν} :
    k' ∈ (m.insert k v).keys ↔ k' = k ∨ k' ∈ m.keys := by
  rw [← contains_iff, ← contains_iff, contains, contains, get?_insert]
  split
  · simp [*]
  · simp [*]

/-- A new entry goes behind all others. -/
theorem entries_insert {m : OrderedMap κ ν} {k : κ} (new : k ∉ m.keys) (v : ν) :
    (m.insert k v).entries = m.entries ++ [(k, v)] := by
  have absent : ¬ m.contains k = true := fun there => new (contains_iff.1 there)
  simp [insert, absent]

theorem get?_of_mem {m : OrderedMap κ ν} {k : κ} {v : ν} (nodup : m.keys.Nodup)
    (mem : (k, v) ∈ m.entries) : m.get? k = some v := by
  obtain ⟨entries⟩ := m
  unfold keys at nodup
  unfold get?
  dsimp only at nodup mem ⊢
  induction entries with
  | nil => exact absurd mem (by simp)
  | cons entry entries ih =>
    obtain ⟨k', v'⟩ := entry
    rw [List.map_cons, List.nodup_cons] at nodup
    rcases List.mem_cons.1 mem with same | later
    · obtain ⟨rfl, rfl⟩ := Prod.mk.inj same
      exact List.lookup_cons_self
    · have other : (k == k') = false := by
        rw [beq_eq_false_iff_ne]
        rintro rfl
        exact nodup.1 (List.mem_map.2 ⟨(k, v), later, rfl⟩)
      rw [List.lookup_cons, other]
      exact ih nodup.2 later

/-- A present key keeps its place. -/
theorem keys_insert_of_contains {m : OrderedMap κ ν} {k : κ} (h : m.contains k = true) (v : ν) :
    (m.insert k v).keys = m.keys := by
  simp only [insert, h, if_true, keys, List.map_map]
  apply List.map_congr_left
  intro e _
  by_cases he : e.1 = k <;> simp [he]

/-- A new key goes behind all others. -/
theorem keys_insert_of_not_mem {m : OrderedMap κ ν} {k : κ} (new : k ∉ m.keys) (v : ν) :
    (m.insert k v).keys = m.keys ++ [k] := by
  simp [keys, entries_insert new]

theorem keys_erase (m : OrderedMap κ ν) (k : κ) : (m.erase k).keys = m.keys.filter (· ≠ k) := by
  simp only [keys, erase, List.filter_map]
  rfl

/-! ## Distinct keys -/

theorem nodup_keys_insert {m : OrderedMap κ ν} (nodup : m.keys.Nodup) (k : κ) (v : ν) :
    (m.insert k v).keys.Nodup := by
  by_cases there : m.contains k = true
  · rw [keys_insert_of_contains there]
    exact nodup
  · have new : k ∉ m.keys := fun mem => there (contains_iff.2 mem)
    rw [keys_insert_of_not_mem new, List.nodup_append]
    refine ⟨nodup, List.pairwise_singleton _ _, fun a mem b isNew same => ?_⟩
    rw [List.mem_singleton.1 isNew] at same
    exact new (same ▸ mem)

theorem nodup_keys_erase {m : OrderedMap κ ν} (nodup : m.keys.Nodup) (k : κ) :
    (m.erase k).keys.Nodup := by
  rw [keys_erase]
  exact nodup.filter _

theorem size_insert (m : OrderedMap κ ν) (k : κ) (v : ν) :
    (m.insert k v).size = m.size + if m.contains k then 0 else 1 := by
  unfold insert
  by_cases there : m.contains k = true
  · simp [there, size]
  · simp [there, size]

/-- With distinct keys, erasing a present one takes away one entry. -/
theorem size_erase {m : OrderedMap κ ν} (nodup : m.keys.Nodup) {k : κ} (there : k ∈ m.keys) :
    (m.erase k).size + 1 = m.size := by
  have sizes (m : OrderedMap κ ν) : m.size = m.keys.length := by simp [size, keys]
  have filtered : m.keys.filter (· ≠ k) = m.keys.erase k := by
    rw [nodup.erase_eq_filter]
    exact List.filter_congr fun a _ => decide_not
  rw [sizes, sizes, keys_erase, filtered, List.length_erase_of_mem there]
  exact Nat.sub_add_cancel (List.length_pos_of_mem there)

end OrderedMap
end Retrace
