import Retrace.Proofs.Runs
import Retrace.Sandbox.Basic

/-!
# What a heap refers to

An object refers to others in four ways: by what it is, be it an array, a wrapper or a view of a
buffer, by its properties, and by its prototype. `HeapObject.handles` lists them all, with no regard
to which is which.

A heap is closed if no handle in it dangles (`Heap.Closed`). It stays so when an object is put on it
or replaced, as long as the object refers to objects of the heap only, and in a closed heap no
search fails. Besides, a set of handles may be given that alone may be held. All objects that are
still to come belong to it, so what does not is some objects that are there already: nothing on the
heap refers to them, and nothing ever will.
-/

namespace Retrace

/-! ## Handles -/

/-- The handle in a value, if there is one. -/
def Value.handles {η : Type} (v : Value η) : List η := v.handle?.toList

def ObjectKind.handles : ObjectKind → List ObjectRef
  | .wrapper value => value.handles
  | .array items => items.toList.flatMap Value.handles
  | .typedArray buffer => [buffer]
  | _ => []

/-- What an object refers to. -/
def HeapObject.handles (o : HeapObject) : List ObjectRef :=
  o.kind.handles ++ o.properties.values.flatMap Value.handles ++ o.prototype.toList

/-- What the objects of a heap refer to. -/
def Heap.handles (h : Heap) : List ObjectRef := h.objects.toList.flatMap HeapObject.handles

section Objects

variable {o : HeapObject} {r : ObjectRef}

theorem HeapObject.mem_handles : r ∈ o.handles ↔
    r ∈ o.kind.handles ∨ (∃ v ∈ o.properties.values, r ∈ v.handles) ∨ o.prototype = some r := by
  simp only [handles, List.mem_append, List.mem_flatMap, Option.mem_toList, or_assoc]

theorem HeapObject.handles_bare (kind : ObjectKind) : (bare kind).handles = kind.handles := by
  simp [handles, bare, OrderedMap.values, OrderedMap.empty]

theorem OrderedMap.mem_values_of_get? {κ ν : Type} [DecidableEq κ] {m : OrderedMap κ ν} {k : κ}
    {v : ν} (h : m.get? k = some v) : v ∈ m.values := by
  obtain ⟨before, after, split, -⟩ := List.lookup_eq_some_iff.1 h
  rw [values, split]
  simp

theorem OrderedMap.mem_values_insert {κ ν : Type} [DecidableEq κ] {m : OrderedMap κ ν} {k : κ}
    {v w : ν} (h : w ∈ (m.insert k v).values) : w ∈ m.values ∨ w = v := by
  obtain ⟨e, mem, rfl⟩ := List.mem_map.1 h
  unfold insert at mem
  split at mem
  · obtain ⟨e', mem', rfl⟩ := List.mem_map.1 mem
    split
    · exact Or.inr rfl
    · exact Or.inl (List.mem_map_of_mem mem')
  · rcases List.mem_append.1 mem with before | new
    · exact Or.inl (List.mem_map_of_mem before)
    · exact Or.inr (by rw [List.mem_singleton.1 new])

theorem OrderedMap.mem_values_erase {κ ν : Type} [DecidableEq κ] {m : OrderedMap κ ν} {k : κ}
    {w : ν} (h : w ∈ (m.erase k).values) : w ∈ m.values := by
  obtain ⟨e, mem, rfl⟩ := List.mem_map.1 h
  exact List.mem_map_of_mem (List.mem_filter.1 mem).1

/-- An object with one more property refers to what is in it besides. -/
theorem HeapObject.mem_handles_set {property : PropertyId} {value : Value ObjectRef}
    (h : r ∈ (o.set property value).handles) : r ∈ o.handles ∨ r ∈ value.handles := by
  rcases mem_handles.1 h with kind | ⟨v, mem, held⟩ | prototype
  · exact Or.inl (mem_handles.2 (Or.inl kind))
  · rcases OrderedMap.mem_values_insert mem with before | rfl
    · exact Or.inl (mem_handles.2 (Or.inr (Or.inl ⟨v, before, held⟩)))
    · exact Or.inr held
  · exact Or.inl (mem_handles.2 (Or.inr (Or.inr prototype)))

/-- A constructed object refers to its function and to what the call was given. -/
theorem Sandbox.mem_handles_constructed {function : ObjectRef} {args : List (Value ObjectRef)}
    (h : r ∈ (constructed function args).handles) :
    r = function ∨ r ∈ args.flatMap Value.handles := by
  have filled (pairs : List (Value ObjectRef × Nat)) (o : HeapObject)
      (h : r ∈ (pairs.foldl (fun o arg => o.set ⟨UInt32.ofNat arg.2⟩ arg.1) o).handles) :
      r ∈ o.handles ∨ r ∈ (pairs.map Prod.fst).flatMap Value.handles := by
    induction pairs generalizing o with
    | nil => exact Or.inl h
    | cons pair pairs ih =>
      rw [List.map_cons, List.flatMap_cons, List.mem_append]
      rcases ih _ h with set | rest
      · exact (HeapObject.mem_handles_set set).imp_right Or.inl
      · exact Or.inr (Or.inr rest)
  have places : args.zipIdx.map Prod.fst = args := List.zipIdx_map_fst 0 args
  rcases HeapObject.mem_handles.1 h with kind | property | prototype
  · exact Or.inr (places ▸ (filled args.zipIdx _
      (HeapObject.mem_handles.2 (Or.inl kind))).resolve_left (by
        simp [HeapObject.handles_bare, ObjectKind.handles]))
  · exact Or.inr (places ▸ (filled args.zipIdx _
      (HeapObject.mem_handles.2 (Or.inr (Or.inl property)))).resolve_left (by
        simp [HeapObject.handles_bare, ObjectKind.handles]))
  · exact Or.inl (Option.some.inj prototype).symm

end Objects

/-! ## Closed heaps -/

namespace Heap

variable (allowed : ObjectRef → Prop)

/-- The handle is one of an object on the heap, and may be held. -/
def Has (h : Heap) (r : ObjectRef) : Prop := r.index < h.size ∧ allowed r

def HasAll (h : Heap) (handles : List ObjectRef) : Prop := ∀ r ∈ handles, h.Has allowed r

/-- Every handle on the heap is one of an object there, and may be held. So may all handles to come.
-/
structure Closed (h : Heap) : Prop where
  within : h.HasAll allowed h.handles
  ahead : ∀ r, h.size ≤ r.index → allowed r

variable {allowed} {h h' : Heap} {r : ObjectRef} {o : HeapObject} {handles more : List ObjectRef}

theorem Has.mono (has : h.Has allowed r) (grown : h.size ≤ h'.size) : h'.Has allowed r :=
  ⟨Nat.lt_of_lt_of_le has.1 grown, has.2⟩

theorem HasAll.mono (has : h.HasAll allowed handles) (grown : h.size ≤ h'.size) :
    h'.HasAll allowed handles := fun r mem => (has r mem).mono grown

theorem HasAll.nil : h.HasAll allowed [] := fun _ mem => absurd mem List.not_mem_nil

theorem HasAll.cons (first : h.Has allowed r) (rest : h.HasAll allowed handles) :
    h.HasAll allowed (r :: handles) := List.forall_mem_cons.2 ⟨first, rest⟩

theorem closed_empty (all : ∀ r, allowed r) : empty.Closed allowed := ⟨.nil, fun r _ => all r⟩

theorem Closed.object (closed : h.Closed allowed) (found : h.object? r = some o) :
    h.HasAll allowed o.handles := by
  intro q mem
  have there : o ∈ h.objects.toList := Array.mem_toList_iff.2 (Array.mem_of_getElem? found)
  exact closed.within q (List.mem_flatMap.2 ⟨o, there, mem⟩)

/-- An object that refers to objects of the heap may be put on it. -/
theorem Closed.allocate (closed : h.Closed allowed) (has : h.HasAll allowed o.handles) :
    h.size ≤ (h.allocate o).2.size ∧ (h.allocate o).2.Closed allowed ∧
      (h.allocate o).2.Has allowed (h.allocate o).1 := by
  have size : (h.allocate o).2.size = h.size + 1 := Array.size_push _
  have grown : h.size ≤ (h.allocate o).2.size := by omega
  refine ⟨grown, ⟨?_, fun r later => closed.ahead r (by omega)⟩, ?_, closed.ahead _ (Nat.le_refl _)⟩
  · intro r mem
    obtain ⟨p, there, held⟩ := List.mem_flatMap.1 mem
    rw [Heap.allocate, Array.toList_push, List.mem_append] at there
    rcases there with before | new
    · exact (closed.within r (List.mem_flatMap.2 ⟨p, before, held⟩)).mono grown
    · rw [List.mem_singleton.1 new] at held
      exact (has r held).mono grown
  · rw [size]
    exact Nat.lt_succ_self _

/-- It may take the place of another one. -/
theorem Closed.replace (closed : h.Closed allowed) (has : h.HasAll allowed o.handles) :
    (h.replace r o).size = h.size ∧ (h.replace r o).Closed allowed := by
  have size : (h.replace r o).size = h.size := Array.size_setIfInBounds
  refine ⟨size, ⟨?_, fun r later => closed.ahead r (size ▸ later)⟩⟩
  intro q mem
  obtain ⟨p, there, held⟩ := List.mem_flatMap.1 mem
  refine Has.mono ?_ (Nat.le_of_eq size.symm)
  rw [Heap.replace, Array.toList_setIfInBounds] at there
  rcases List.mem_or_eq_of_mem_set there with before | rfl
  · exact closed.within q (List.mem_flatMap.2 ⟨p, before, held⟩)
  · exact has q held

/-! ## Searching a closed heap -/

theorem Has.found (has : h.Has allowed r) : ∃ o, h.object? r = some o ∧ h.get r = .ok o := by
  have inside : r.index < h.objects.size := has.1
  have there : h.object? r = some h.objects[r.index] := Array.getElem?_eq_getElem inside
  exact ⟨_, there, by rw [get, there]⟩

theorem Closed.prototype (closed : h.Closed allowed) (found : h.object? r = some o) :
    h.HasAll allowed o.prototype.toList := fun q mem =>
  closed.object found q (HeapObject.mem_handles.2 (Or.inr (Or.inr (Option.mem_toList.1 mem))))

/-- Looking a property up does not fail, and finds nothing from elsewhere. -/
theorem Closed.lookupWithin (closed : h.Closed allowed) (property : PropertyId) (bound : Nat)
    {start : Option ObjectRef} (has : h.HasAll allowed start.toList) :
    ∃ v, h.lookupWithin property bound start = .ok v ∧ h.HasAll allowed v.handles := by
  induction bound generalizing start with
  | zero => exact ⟨.null, rfl, .nil⟩
  | succ bound ih =>
    cases start with
    | none => exact ⟨.null, rfl, .nil⟩
    | some r =>
      obtain ⟨o, there, got⟩ := (has r (by simp)).found
      rw [Heap.lookupWithin, got]
      cases value : o.properties.get? property with
      | some v =>
        refine ⟨v, by simp [bind, Except.bind, value, pure, Except.pure], fun q mem => ?_⟩
        exact closed.object there q (HeapObject.mem_handles.2
          (Or.inr (Or.inl ⟨v, OrderedMap.mem_values_of_get? value, mem⟩)))
      | none =>
        obtain ⟨v, further, held⟩ := ih (closed.prototype there)
        exact ⟨v, by simpa [bind, Except.bind, value] using further, held⟩

/-- Neither does following prototypes. -/
theorem Closed.reachesWithin (closed : h.Closed allowed) (target : ObjectRef) (bound : Nat)
    {start : Option ObjectRef} (has : h.HasAll allowed start.toList) :
    ∃ reaches, h.reachesWithin target bound start = .ok reaches := by
  induction bound generalizing start with
  | zero => exact ⟨false, rfl⟩
  | succ bound ih =>
    cases start with
    | none => exact ⟨false, rfl⟩
    | some r =>
      rw [Heap.reachesWithin]
      split
      · exact ⟨true, rfl⟩
      · obtain ⟨o, there, got⟩ := (has r (by simp)).found
        obtain ⟨reaches, further⟩ := ih (closed.prototype there)
        exact ⟨reaches, by simpa [bind, Except.bind, got] using further⟩

end Heap
end Retrace
