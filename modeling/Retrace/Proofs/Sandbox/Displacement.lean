import Retrace.Proofs.Renaming.Sessions
import Retrace.Proofs.Sandbox.Operations
import Retrace.Proofs.Sandbox.Prototypes

/-!
# Sandboxes with other objects in front

A handle of the sandbox is a position in its heap. If there are `k` objects more in front, every
handle is larger by `k`, and nothing else is different: every operation does the same to the objects
behind, and leaves those in front alone. What could tell the two heaps apart is their size. It is a
bound on the way along a chain of prototypes, which is why that bound must not matter
(`Heap.lookupWithin_add`). And handles are printed in faults (`Renumbered`).

Which contexts there are, and which one is current, has no part in what an operation does either.
This is shown along with it: an operation that `Follows` another one does so in any two contexts.
`Sandbox.displacement` collects what was found: putting objects in front is a renaming.
-/

namespace Retrace

/-! ## Handles and objects -/

/-- The handle that an object has with `k` more objects in front of it. -/
def ObjectRef.shift (k : Nat) (r : ObjectRef) : ObjectRef := ⟨r.index + k⟩

theorem ObjectRef.shift_injective (k : Nat) : Function.Injective (shift k) := by
  rintro ⟨i⟩ ⟨j⟩ same
  have same : i + k = j + k := congrArg ObjectRef.index same
  exact congrArg ObjectRef.mk (Nat.add_right_cancel same)

/-- Two faults are the same, but for a handle that they may print. -/
inductive Renumbered (k : Nat) : Fault → Fault → Prop
  | same (f : Fault) : Renumbered k f f
  | printed (before after : String) (r : ObjectRef) :
      Renumbered k ⟨before ++ toString r ++ after⟩ ⟨before ++ toString (r.shift k) ++ after⟩

/-- A handle may stand at the end. -/
theorem Renumbered.atEnd {k : Nat} (before : String) (r : ObjectRef) :
    Renumbered k ⟨before ++ toString r⟩ ⟨before ++ toString (r.shift k)⟩ := by
  have printed := Renumbered.printed (k := k) before "" r
  rwa [String.append_empty, String.append_empty] at printed

section Objects

variable (f : ObjectRef → ObjectRef)

def ObjectKind.rename : ObjectKind → ObjectKind
  | plain regular => plain regular
  | wrapper value => wrapper (value.mapRef f)
  | symbol description => symbol description
  | array items => array (items.map (Value.mapRef f))
  | arrayBuffer bytes => arrayBuffer bytes
  | typedArray buffer => typedArray (f buffer)
  | function name behaviour source => function name behaviour source

/-- The object with other handles for what it refers to. -/
def HeapObject.rename (o : HeapObject) : HeapObject :=
  ⟨o.kind.rename f, o.properties.mapValues (Value.mapRef f), o.prototype.map f⟩

theorem HeapObject.properties_rename (o : HeapObject) :
    (o.rename f).properties = o.properties.mapValues (Value.mapRef f) := rfl

theorem HeapObject.rename_id (o : HeapObject) : o.rename id = o := by
  obtain ⟨kind, properties, prototype⟩ := o
  cases kind <;> simp [rename, ObjectKind.rename]

theorem HeapObject.rename_set (o : HeapObject) (property : PropertyId) (value : Value ObjectRef) :
    (o.rename f).set property (value.mapRef f) = (o.set property value).rename f := by
  unfold set rename
  rw [OrderedMap.insert_mapValues]

/-- What is not about references is the same for other references. -/
theorem Value.wholeNumber?_mapRef (v : Value ObjectRef) :
    Sandbox.wholeNumber? (v.mapRef f) = Sandbox.wholeNumber? v := by
  cases v <;> rfl

theorem Value.byteOf_mapRef (v : Value ObjectRef) :
    Sandbox.byteOf (v.mapRef f) = Sandbox.byteOf v := by
  cases v <;> rfl

theorem Value.index_mapRef (v : Value ObjectRef) :
    Sandbox.index (v.mapRef f) = Sandbox.index v := by
  unfold Sandbox.index
  rw [Value.wholeNumber?_mapRef, Value.typeName_mapRef]

end Objects

/-! ## Heaps -/

namespace Heap

/-- The heap with other objects in front. -/
def displaced (extra : Array HeapObject) (h : Heap) : Heap :=
  ⟨extra ++ h.objects.map (HeapObject.rename (ObjectRef.shift extra.size))⟩

variable {extra : Array HeapObject}

theorem size_displaced (h : Heap) : (h.displaced extra).size = h.size + extra.size := by
  simp [displaced, size, Nat.add_comm]

theorem object?_displaced (h : Heap) (r : ObjectRef) :
    (h.displaced extra).object? (r.shift extra.size) =
      (h.object? r).map (HeapObject.rename (ObjectRef.shift extra.size)) := by
  show (extra ++ h.objects.map _)[r.index + extra.size]? = _
  rw [Array.getElem?_append_right (Nat.le_add_left _ _), Nat.add_sub_cancel, Array.getElem?_map]
  rfl

theorem allocate_displaced (extra : Array HeapObject) (h : Heap) (o : HeapObject) :
    (h.displaced extra).allocate (o.rename (ObjectRef.shift extra.size)) =
      ((h.allocate o).1.shift extra.size, (h.allocate o).2.displaced extra) := by
  refine Prod.ext (congrArg ObjectRef.mk (size_displaced h)) ?_
  simp only [allocate, displaced, Array.map_push, Array.push_append]

theorem replace_displaced (h : Heap) (r : ObjectRef) (o : HeapObject) :
    (h.displaced extra).replace (r.shift extra.size) (o.rename (ObjectRef.shift extra.size)) =
      (h.replace r o).displaced extra := by
  unfold replace displaced
  simp only [mk.injEq, ObjectRef.shift]
  rw [Array.setIfInBounds_append_right (Nat.le_add_left _ _), Nat.add_sub_cancel,
    Array.map_setIfInBounds]

theorem ownProperty?_displaced (h : Heap) (r : ObjectRef) (property : PropertyId) :
    (h.displaced extra).ownProperty? (r.shift extra.size) property =
      (h.ownProperty? r property).map (Value.mapRef (ObjectRef.shift extra.size)) := by
  unfold ownProperty?
  rw [object?_displaced]
  cases h.object? r with
  | none => rfl
  | some o => exact OrderedMap.get?_mapValues ..

/-- An object of the heap, or none, is found under the other handle too. -/
theorem get_displaced (h : Heap) (r : ObjectRef) :
    Paired (fun o o' => o' = o.rename (ObjectRef.shift extra.size)) (Renumbered extra.size)
      (h.get r) ((h.displaced extra).get (r.shift extra.size)) := by
  unfold get
  rw [object?_displaced]
  cases h.object? r with
  | some o => rfl
  | none => exact Renumbered.atEnd "dangling handle " r

/-- As far as it is followed, a chain has the same properties. -/
theorem lookupWithin_displaced (extra : Array HeapObject) (h : Heap) (property : PropertyId)
    (bound : Nat) (start : Option ObjectRef) :
    Paired (fun v w => w = v.mapRef (ObjectRef.shift extra.size)) (Renumbered extra.size)
      (h.lookupWithin property bound start)
      ((h.displaced extra).lookupWithin property bound
        (start.map (ObjectRef.shift extra.size))) := by
  induction bound generalizing start with
  | zero => exact (rfl : Value.null = _)
  | succ bound ih =>
    cases start with
    | none => exact (rfl : Value.null = _)
    | some r =>
      refine (get_displaced h r).bind ?_
      rintro o _ rfl
      rw [HeapObject.properties_rename, OrderedMap.get?_mapValues]
      cases o.properties.get? property with
      | some value => exact (rfl : value.mapRef _ = _)
      | none => exact ih o.prototype

/-- A property is found where it was: the objects in front only make the way longer that a chain
    may have. -/
theorem lookup_displaced (h : Heap) (r : ObjectRef) (property : PropertyId) :
    Paired (fun v w => w = v.mapRef (ObjectRef.shift extra.size)) (Renumbered extra.size)
      (h.lookup r property) ((h.displaced extra).lookup (r.shift extra.size) property) := by
  have further := lookupWithin_displaced extra h property (h.size + 1 + extra.size) (some r)
  have bound : h.size + 1 + extra.size = (h.displaced extra).size + 1 := by
    rw [size_displaced]
    omega
  rw [lookupWithin_add, bound] at further
  exact further

theorem reachesWithin_displaced (extra : Array HeapObject) (h : Heap) (target : ObjectRef)
    (bound : Nat) (start : Option ObjectRef) :
    Paired Eq (Renumbered extra.size) (h.reachesWithin target bound start)
      ((h.displaced extra).reachesWithin (target.shift extra.size) bound
        (start.map (ObjectRef.shift extra.size))) := by
  induction bound generalizing start with
  | zero => exact (rfl : false = false)
  | succ bound ih =>
    cases start with
    | none => exact (rfl : false = false)
    | some r =>
      simp only [reachesWithin, Option.map_some, (ObjectRef.shift_injective extra.size).eq_iff]
      split
      · exact (rfl : true = true)
      · refine (get_displaced h r).bind ?_
        rintro o _ rfl
        exact ih o.prototype

/-- Whether an object is on a chain does not change. -/
theorem reaches_displaced (h : Heap) (target r : ObjectRef) :
    Paired Eq (Renumbered extra.size) (h.reachesWithin target (h.size + 1) (some r))
      ((h.displaced extra).reachesWithin (target.shift extra.size)
        ((h.displaced extra).size + 1) (some (r.shift extra.size))) := by
  have further := reachesWithin_displaced extra h target (h.size + 1 + extra.size) (some r)
  have bound : h.size + 1 + extra.size = (h.displaced extra).size + 1 := by
    rw [size_displaced]
    omega
  rw [reachesWithin_add, bound] at further
  exact further

end Heap

/-! ## Operations -/

/-- The snapshot with other objects in front. -/
def SandboxSnapshot.displaced (extra : Array HeapObject) (c : SandboxSnapshot) : SandboxSnapshot :=
  { c with heap := c.heap.displaced extra }

namespace Sandbox

/-- The sandbox with other objects in front of its own. -/
def displaced (extra : Array HeapObject) (s : Sandbox) : Sandbox :=
  { s with heap := s.heap.displaced extra }

/-- The sandbox in the state of a snapshot, and in the context that it was in. -/
def holding (s : Sandbox) (c : SandboxSnapshot) : Sandbox :=
  { s with heap := c.heap, calls := c.calls, lastStatement := c.lastStatement }

/-- Two sandboxes have come to the same state, the second one with objects in front, and both are in
    the contexts that they were in. -/
def InStep (extra : Array HeapObject) (s t s' t' : Sandbox) : Prop :=
  ∃ c : SandboxSnapshot, s' = s.holding c ∧ t' = t.holding (c.displaced extra)

section InStep

variable {extra : Array HeapObject} {s t s' t' : Sandbox}

theorem heap_displaced (same : t.snapshot = s.snapshot.displaced extra) :
    t.heap = s.heap.displaced extra := congrArg SandboxSnapshot.heap same

theorem InStep.refl (same : t.snapshot = s.snapshot.displaced extra) : InStep extra s t s t :=
  ⟨s.snapshot, rfl, by rw [← same]; rfl⟩

theorem InStep.ofHeap (same : t.snapshot = s.snapshot.displaced extra) (heap : Heap) :
    InStep extra s t { s with heap } { t with heap := heap.displaced extra } := by
  have calls : t.calls = s.calls := congrArg SandboxSnapshot.calls same
  have statement : t.lastStatement = s.lastStatement :=
    congrArg SandboxSnapshot.lastStatement same
  refine ⟨⟨heap, s.calls, s.lastStatement⟩, rfl, ?_⟩
  show _ = { t with
    heap := heap.displaced extra, calls := s.calls, lastStatement := s.lastStatement }
  rw [← calls, ← statement]

end InStep

/-- Whatever contexts they are in, the second operation does with objects in front what the first
    one does without them. -/
structure Follows (extra : Array HeapObject) {α β : Type} (Q : α → β → Prop) (m : SandboxM α)
    (n : SandboxM β) : Prop where
  run : ∀ {s t : Sandbox}, t.snapshot = s.snapshot.displaced extra →
    Matched (InStep extra s t) Q (Renumbered extra.size) (m s) (n t)

section Follows

variable {extra : Array HeapObject} {α β γ κ : Type} {Q : α → β → Prop} {P : γ → κ → Prop}

theorem Follows.pure {a : α} {b : β} (h : Q a b) :
    Follows extra Q (pure a : SandboxM α) (pure b : SandboxM β) := ⟨fun same => ⟨h, .refl same⟩⟩

theorem Follows.throw {f g : Fault} (h : Renumbered extra.size f g) :
    Follows extra Q (throw f : SandboxM α) (throw g : SandboxM β) := ⟨fun same => ⟨h, .refl same⟩⟩

theorem Follows.fail (message : String) :
    Follows extra Q (fail message : SandboxM α) (fail message : SandboxM β) := .throw (.same _)

theorem Follows.ofExcept {x : Except Fault α} {y : Except Fault β}
    (h : Paired Q (Renumbered extra.size) x y) :
    Follows extra Q (MonadExcept.ofExcept x : SandboxM α)
      (MonadExcept.ofExcept y : SandboxM β) := by
  rcases h.cases with ⟨a, b, rfl, rfl, answers⟩ | ⟨f, g, rfl, rfl, faults⟩
  · exact .pure answers
  · exact .throw faults

theorem Follows.bind {m : SandboxM α} {n : SandboxM β} {f : α → SandboxM γ} {g : β → SandboxM κ}
    (first : Follows extra Q m n) (rest : ∀ a b, Q a b → Follows extra P (f a) (g b)) :
    Follows extra P (m >>= f) (n >>= g) := by
  refine ⟨fun same => (first.run same).bind ?_⟩
  rintro a b _ _ related ⟨c, rfl, rfl⟩
  exact (rest a b related).run rfl

/-- An operation may be refused at first, by messages that differ in a handle at most. -/
theorem Follows.unless {c : Prop} [Decidable c] {message message' : String} {m : SandboxM α}
    {n : SandboxM β} (refusals : Renumbered extra.size ⟨message⟩ ⟨message'⟩)
    (h : Follows extra Q m n) :
    Follows extra Q
      (do
        if c then Sandbox.fail message
        m)
      (do
        if c then Sandbox.fail message'
        n) := by
  have refused : Follows extra Eq (Sandbox.fail message : SandboxM PUnit)
    (Sandbox.fail message' : SandboxM PUnit) := .throw refusals
  split
  · exact refused.bind fun _ _ _ => h
  · exact h

theorem Follows.map {m : SandboxM α} {n : SandboxM β} {f : α → γ} {g : β → κ}
    (h : Follows extra Q m n) (answers : ∀ a b, Q a b → P (f a) (g b)) :
    Follows extra P (f <$> m) (g <$> n) := ⟨fun same => (h.run same).map answers⟩

/-- What is done with the heap alone may look at the sandbox. -/
theorem Follows.withHeap {f : Heap → SandboxM α} {g : Heap → SandboxM β}
    (h : ∀ heap : Heap, Follows extra Q (f heap) (g (heap.displaced extra))) :
    Follows extra Q (do f (← EStateM.get).heap) (do g (← EStateM.get).heap) := by
  refine ⟨fun {s t} same => ?_⟩
  show Matched _ _ _ (f s.heap s) (g t.heap t)
  rw [heap_displaced same]
  exact (h s.heap).run same

theorem Follows.modifyHeap {f g : Heap → Heap}
    (h : ∀ heap : Heap, g (heap.displaced extra) = (f heap).displaced extra) :
    Follows extra Eq (modify fun s => { s with heap := f s.heap } : SandboxM Unit)
      (modify fun s => { s with heap := g s.heap } : SandboxM Unit) := by
  refine ⟨fun {s t} same => ⟨rfl, ?_⟩⟩
  show InStep extra s t { s with heap := f s.heap } { t with heap := g t.heap }
  rw [heap_displaced same, h]
  exact .ofHeap same (f s.heap)

end Follows

/-- The second handle stands for the same object, with objects in front. -/
abbrev Moved (extra : Array HeapObject) (r r' : ObjectRef) : Prop :=
  r' = r.shift extra.size

/-- The second value is the same, over handles of the same objects with objects in front. -/
abbrev MovedValue (extra : Array HeapObject) (v w : Value ObjectRef) : Prop :=
  w = v.mapRef (ObjectRef.shift extra.size)

/-! ## Requests -/

section Requests

variable (extra : Array HeapObject) (r : ObjectRef)

theorem allocated_follows {s t : Sandbox} (same : t.snapshot = s.snapshot.displaced extra)
    (o : HeapObject) :
    Moved extra (s.allocated o).1 (t.allocated (o.rename (ObjectRef.shift extra.size))).1 ∧
      InStep extra s t (s.allocated o).2
        (t.allocated (o.rename (ObjectRef.shift extra.size))).2 := by
  unfold allocated
  rw [heap_displaced same, Heap.allocate_displaced]
  exact ⟨rfl, .ofHeap same _⟩

theorem allocate_follows (kind : ObjectKind) : Follows extra (Moved extra) (allocate kind)
    (allocate (kind.rename (ObjectRef.shift extra.size))) :=
  ⟨fun same => allocated_follows extra same (.bare kind)⟩

theorem get_follows : Follows extra
    (fun o o' => o' = HeapObject.rename (ObjectRef.shift extra.size) o) (get r)
    (get (r.shift extra.size)) :=
  .withHeap (f := fun heap => MonadExcept.ofExcept (heap.get r))
    (g := fun heap => MonadExcept.ofExcept (heap.get (r.shift extra.size)))
    fun heap => .ofExcept (heap.get_displaced r)

theorem update_follows {change change' : HeapObject → HeapObject}
    (h : ∀ o, change' (o.rename (ObjectRef.shift extra.size)) =
      (change o).rename (ObjectRef.shift extra.size)) :
    Follows extra Eq (update r change) (update (r.shift extra.size) change') := by
  refine (get_follows extra r).bind ?_
  rintro o _ rfl
  refine .modifyHeap (f := fun heap => heap.replace r (change o))
    (g := fun heap => heap.replace (r.shift extra.size) (change' (o.rename _))) fun heap => ?_
  rw [h, Heap.replace_displaced]

theorem toObject_follows (value : Value ObjectRef) : Follows extra (Moved extra) (toObject value)
    (toObject (value.mapRef (ObjectRef.shift extra.size))) := by
  cases value with
  | ref r => exact (get_follows extra r).bind fun _ _ _ => .pure rfl
  | null => exact .fail _
  | _ => exact allocate_follows extra _

theorem createSymbol_follows (description : Value ObjectRef) :
    Follows extra (Moved extra) (createSymbol description)
      (createSymbol (description.mapRef (ObjectRef.shift extra.size))) := by
  cases description with
  | str s => exact allocate_follows extra _
  | null => exact allocate_follows extra _
  | _ => exact .fail _

theorem createArray_follows (length : UInt32) :
    Follows extra (Moved extra) (createArray length) (createArray length) := by
  unfold createArray
  split
  · exact .fail _
  · have made := allocate_follows extra (.array (Array.replicate length.toNat .null))
    rw [ObjectKind.rename, Array.map_replicate] at made
    exact made

theorem createFunction_follows (name : Option (Value ObjectRef)) :
    Follows extra (Moved extra) (createFunction name)
      (createFunction (name.map (Value.mapRef (ObjectRef.shift extra.size)))) := by
  cases name with
  | none => exact allocate_follows extra _
  | some value => cases value <;> exact allocate_follows extra _

theorem getProperty_follows (property : PropertyId) :
    Follows extra (MovedValue extra) (getProperty r property)
      (getProperty (r.shift extra.size) property) :=
  .withHeap (f := fun heap => MonadExcept.ofExcept (heap.lookup r property))
    (g := fun heap => MonadExcept.ofExcept (heap.lookup (r.shift extra.size) property))
    fun heap => .ofExcept (heap.lookup_displaced r property)

theorem ownPropertyDescriptor_follows (property : PropertyId) :
    Follows extra (MovedValue extra) (ownPropertyDescriptor r property)
      (ownPropertyDescriptor (r.shift extra.size) property) := by
  refine (get_follows extra r).bind ?_
  rintro o _ rfl
  rw [HeapObject.properties_rename, OrderedMap.get?_mapValues]
  cases o.properties.get? property with
  | none => exact .pure rfl
  | some value =>
    refine (allocate_follows extra (.plain true)).bind ?_
    rintro descriptor _ rfl
    refine (update_follows extra descriptor fun o => ?_).bind fun _ _ _ => .pure rfl
    exact HeapObject.rename_set _ o descriptorValue value

theorem ownPropertyKeys_follows (names : Bool) :
    Follows extra (Moved extra) (ownPropertyKeys r names)
      (ownPropertyKeys (r.shift extra.size) names) := by
  refine (get_follows extra r).bind ?_
  rintro o _ rfl
  have made := allocate_follows extra
    (.array (if names then (o.properties.keys.map fun p => Value.u32 p.id).toArray else #[]))
  rw [ObjectKind.rename] at made
  rw [HeapObject.properties_rename, OrderedMap.keys_mapValues]
  cases names <;> simpa [Function.comp_def, Value.mapRef] using made

theorem defineProperty_follows (property : PropertyId) (descriptor : Value ObjectRef) :
    Follows extra Eq (defineProperty r property descriptor)
      (defineProperty (r.shift extra.size) property
        (descriptor.mapRef (ObjectRef.shift extra.size))) := by
  unfold defineProperty
  rw [Value.handle?_mapRef]
  cases descriptor.handle? with
  | none => exact .pure rfl
  | some d =>
    refine .withHeap
      (f := fun heap => do
        update r fun o => o.set property ((heap.ownProperty? d descriptorValue).getD .null)
        return true)
      (g := fun heap => do
        update (r.shift extra.size) fun o => o.set property
          ((heap.ownProperty? (d.shift extra.size) descriptorValue).getD .null)
        return true) fun heap => ?_
    refine (update_follows extra r fun o => ?_).bind fun _ _ _ => .pure rfl
    rw [Heap.ownProperty?_displaced, ← HeapObject.rename_set]
    cases heap.ownProperty? d descriptorValue <;> rfl

theorem deleteProperty_follows (property : PropertyId) :
    Follows extra Eq (deleteProperty r property)
      (deleteProperty (r.shift extra.size) property) := by
  refine (get_follows extra r).bind ?_
  rintro o _ rfl
  refine (update_follows extra r fun o => ?_).bind fun _ _ _ => .pure ?_
  · simp only [HeapObject.rename, OrderedMap.erase_mapValues]
  · exact (OrderedMap.contains_mapValues ..).symm

theorem setPrototype_follows (prototype : Value ObjectRef) :
    Follows extra Eq (setPrototype r prototype)
      (setPrototype (r.shift extra.size) (prototype.mapRef (ObjectRef.shift extra.size))) := by
  cases prototype with
  | null => exact update_follows extra r fun o => rfl
  | ref p =>
    refine .withHeap
      (f := fun heap => do
        if ← MonadExcept.ofExcept (heap.reachesWithin r (heap.size + 1) (some p)) then
          fail s!"prototype cycle through {r}"
        update r fun o => { o with prototype := some p })
      (g := fun heap => do
        if ← MonadExcept.ofExcept (heap.reachesWithin (r.shift extra.size) (heap.size + 1)
            (some (p.shift extra.size))) then
          fail s!"prototype cycle through {r.shift extra.size}"
        update (r.shift extra.size) fun o => { o with prototype := some (p.shift extra.size) })
      fun heap => ?_
    refine (Follows.ofExcept (heap.reaches_displaced r p)).bind ?_
    rintro reaches _ rfl
    have changed : Follows extra Eq (update r fun o => { o with prototype := some p })
        (update (r.shift extra.size) fun o => { o with prototype := some (p.shift extra.size) }) :=
      update_follows extra r fun o => rfl
    exact changed.unless (c := reaches = true) (.atEnd "prototype cycle through " r)
  | _ => exact .fail _

theorem index_follows (at_ : Value ObjectRef) :
    Follows extra Eq (MonadExcept.ofExcept (index at_) : SandboxM UInt32)
      (MonadExcept.ofExcept (index (at_.mapRef (ObjectRef.shift extra.size)))) := by
  rw [Value.index_mapRef]
  cases index at_ with
  | ok i => exact .pure rfl
  | error fault => exact .throw (.same fault)

theorem getIndex_follows (at_ : Value ObjectRef) :
    Follows extra (MovedValue extra) (getIndex r at_)
      (getIndex (r.shift extra.size) (at_.mapRef (ObjectRef.shift extra.size))) := by
  refine (index_follows extra at_).bind ?_
  rintro i _ rfl
  refine (get_follows extra r).bind ?_
  rintro o _ rfl
  obtain ⟨kind, properties, prototype⟩ := o
  cases kind with
  | array items =>
    refine .pure ?_
    rw [MovedValue, Array.getElem?_map]
    cases items[i.toNat]? <;> rfl
  | arrayBuffer bytes =>
    refine .pure ?_
    cases bytes[i.toNat]? <;> rfl
  | _ => exact getProperty_follows extra r _

theorem withElement_map (f : ObjectRef → ObjectRef) (items : Array (Value ObjectRef)) (i : Nat)
    (value : Value ObjectRef) : withElement (items.map (Value.mapRef f)) i (value.mapRef f) =
      (withElement items i value).map (Value.mapRef f) := by
  simp [withElement, Array.map_setIfInBounds, Value.mapRef]

theorem setIndex_follows (at_ value : Value ObjectRef) :
    Follows extra Eq (setIndex r at_ value)
      (setIndex (r.shift extra.size) (at_.mapRef (ObjectRef.shift extra.size))
        (value.mapRef (ObjectRef.shift extra.size))) := by
  refine (index_follows extra at_).bind ?_
  rintro i _ rfl
  refine (get_follows extra r).bind ?_
  rintro o _ rfl
  obtain ⟨kind, properties, prototype⟩ := o
  -- an element is set in arrays and buffers alone; anything else takes the index as a name
  cases kind with
  | array items =>
    have changed : Follows extra Eq
        (update r fun o => { o with kind := .array (withElement items i.toNat value) })
        (update (r.shift extra.size) fun o => { o with kind := .array (withElement
          (items.map (Value.mapRef (ObjectRef.shift extra.size))) i.toNat
          (value.mapRef (ObjectRef.shift extra.size))) }) := by
      refine update_follows extra r fun o => ?_
      rw [withElement_map]
      rfl
    exact changed.unless (c := maxLength ≤ i) (.same _)
  | arrayBuffer bytes =>
    have changed : Follows extra Eq
        (update r fun o => { o with
          kind := .arrayBuffer (bytes.setIfInBounds i.toNat (byteOf value)) })
        (update (r.shift extra.size) fun o => { o with
          kind := .arrayBuffer (bytes.setIfInBounds i.toNat (byteOf value)) }) :=
      update_follows extra r fun o => rfl
    dsimp only [HeapObject.rename, ObjectKind.rename]
    rw [Value.byteOf_mapRef]
    exact changed.unless (c := bytes.size ≤ i.toNat) (.same _)
  | _ => exact update_follows extra r fun o => HeapObject.rename_set _ o _ value

theorem typedArrayBuffer_follows :
    Follows extra (Moved extra) (typedArrayBuffer r) (typedArrayBuffer (r.shift extra.size)) := by
  refine (get_follows extra r).bind ?_
  rintro o _ rfl
  obtain ⟨kind, properties, prototype⟩ := o
  cases kind with
  | typedArray buffer => exact .pure rfl
  | _ => exact .throw (.printed "" " is not a typed array" r)

end Requests

/-- **No request is answered differently because of objects in front.** -/
theorem perform_follows (extra : Array HeapObject) (request : Request ObjectRef) :
    Follows extra (MovedValue extra) (perform request)
      (perform (request.rename (ObjectRef.shift extra.size))) := by
  have handle {r r' : ObjectRef} (moved : Moved extra r r') :
      MovedValue extra (.ref r) (.ref r') := congrArg Value.ref moved
  have flag {b b' : Bool} (same : b = b') : MovedValue extra (.bool b) (.bool b') :=
    congrArg Value.bool same.symm
  cases request with
  | toObject value => exact (toObject_follows extra value).map fun _ _ => handle
  | createSymbol description => exact (createSymbol_follows extra description).map fun _ _ => handle
  | createObject regular => exact (allocate_follows extra _).map fun _ _ => handle
  | createArray length => exact (createArray_follows extra length).map fun _ _ => handle
  | createArrayBuffer bytes => exact (allocate_follows extra _).map fun _ _ => handle
  | createFunction name => exact (createFunction_follows extra name).map fun _ _ => handle
  | getProperty object property => exact getProperty_follows extra object property
  | getIndex object index => exact getIndex_follows extra object index
  | ownPropertyDescriptor object property =>
    exact ownPropertyDescriptor_follows extra object property
  | ownPropertyKeys object names =>
    exact (ownPropertyKeys_follows extra object names).map fun _ _ => handle
  | defineProperty object property descriptor =>
    exact (defineProperty_follows extra object property descriptor).map fun _ _ => flag
  | deleteProperty object property _ =>
    exact (deleteProperty_follows extra object property).map fun _ _ => flag
  | setPrototype object prototype =>
    exact (setPrototype_follows extra object prototype).bind fun _ _ _ => .pure rfl
  | setProperty object property value _ =>
    exact (update_follows extra object fun o => HeapObject.rename_set _ o property value).bind
      fun _ _ _ => .pure rfl
  | setIndex object index value =>
    exact (setIndex_follows extra object index value).bind fun _ _ _ => .pure rfl
  | typedArrayBuffer object _ => exact (typedArrayBuffer_follows extra object).map fun _ _ => handle
  | loadScript script => exact (allocate_follows extra _).map fun _ _ => handle

/-! ## Calls and constructions -/

section Calls

variable {extra : Array HeapObject} {s t : Sandbox}

theorem createTypedArray_follows (extra : Array HeapObject) (length : UInt32) :
    Follows extra (Moved extra) (createTypedArray length) (createTypedArray length) := by
  unfold createTypedArray
  split
  · exact .fail _
  · have buffer := allocate_follows extra (.arrayBuffer (Array.replicate length.toNat 0))
    refine buffer.bind ?_
    rintro r _ rfl
    exact allocate_follows extra (.typedArray r)

/-- No handle is printed if a typed array cannot be made. -/
theorem createTypedArray_fault {length : UInt32} {s s' t t' : Sandbox} {f g : Fault}
    (hs : createTypedArray length s = .error f s') (ht : createTypedArray length t = .error g t') :
    f = g := by
  unfold createTypedArray at hs ht
  split at hs
  · rename_i tooLong
    rw [if_pos tooLong] at ht
    exact (EStateM.Result.error.inj hs).1.symm.trans (EStateM.Result.error.inj ht).1
  · exact absurd hs (by simp [allocate])

theorem function?_displaced (same : t.snapshot = s.snapshot.displaced extra) (r : ObjectRef) :
    t.function? (r.shift extra.size) = s.function? r := by
  unfold function?
  rw [heap_displaced same, Heap.object?_displaced]
  cases s.heap.object? r with
  | none => rfl
  | some o =>
    obtain ⟨kind, properties, prototype⟩ := o
    cases kind <;> rfl

theorem invoke_follows (same : t.snapshot = s.snapshot.displaced extra) (behaviour : Behaviour)
    (args : List (Value ObjectRef)) :
    (invoke behaviour (args.map (Value.mapRef (ObjectRef.shift extra.size))) t).1 =
        renamedOutcome (ObjectRef.shift extra.size) (invoke behaviour args s).1 ∧
      InStep extra s t (invoke behaviour args s).2
        (invoke behaviour (args.map (Value.mapRef (ObjectRef.shift extra.size))) t).2 := by
  cases behaviour with
  | nothing => exact ⟨rfl, .refl same⟩
  | echo => exact ⟨by cases args <;> rfl, .refl same⟩
  | newObject =>
    obtain ⟨made, inStep⟩ := allocated_follows extra same (.bare (.plain true))
    exact ⟨congrArg (fun r => Except.ok (Value.ref r)) made, inStep⟩
  | typedArray length =>
    dsimp only [invoke]
    rcases ((createTypedArray_follows extra length).run same).cases with
      ⟨r, s', _, t', hs, ht, rfl, inStep⟩ | ⟨f, s', g, t', hs, ht, -, inStep⟩
    · rw [hs, ht]
      exact ⟨rfl, inStep⟩
    · obtain rfl := createTypedArray_fault hs ht
      rw [hs, ht]
      exact ⟨rfl, inStep⟩
  | throws message => exact ⟨rfl, .refl same⟩
  | terminates => exact ⟨rfl, .refl same⟩

/-- **A call ends alike with objects in front, and in another context.** -/
theorem call_follows (same : t.snapshot = s.snapshot.displaced extra) (function : ObjectRef)
    (args : List (Value ObjectRef)) :
    (call (function.shift extra.size) (args.map (Value.mapRef (ObjectRef.shift extra.size))) t).1 =
        renamedOutcome (ObjectRef.shift extra.size) (call function args s).1 ∧
      InStep extra s t (call function args s).2 (call (function.shift extra.size)
        (args.map (Value.mapRef (ObjectRef.shift extra.size))) t).2 := by
  have calls : t.calls = s.calls := congrArg SandboxSnapshot.calls same
  unfold call
  rw [function?_displaced same, calls]
  cases s.function? function with
  | none => exact ⟨rfl, .refl same⟩
  | some found =>
    have counted (calls : UInt64) (statement : Statement) :
        { t with calls, lastStatement := some statement }.snapshot =
          ({ s with calls, lastStatement := some statement }.snapshot).displaced extra :=
      congrArg (fun c : SandboxSnapshot => { c with calls, lastStatement := some statement }) same
    exact invoke_follows (counted _ _) found.1 args

theorem constructed_rename (f : ObjectRef → ObjectRef) (function : ObjectRef)
    (args : List (Value ObjectRef)) :
    constructed (f function) (args.map (Value.mapRef f)) =
      (constructed function args).rename f := by
  -- the arguments are set one by one, on an object that is renamed already
  have filled (numbered : List (Value ObjectRef × Nat)) (o : HeapObject) :
      (numbered.map fun arg => (arg.1.mapRef f, arg.2)).foldl
          (fun o arg => o.set ⟨UInt32.ofNat arg.2⟩ arg.1) (o.rename f) =
        (numbered.foldl (fun o arg => o.set ⟨UInt32.ofNat arg.2⟩ arg.1) o).rename f := by
    induction numbered generalizing o with
    | nil => rfl
    | cons arg rest ih => rw [List.map_cons, List.foldl_cons, HeapObject.rename_set, ih]; rfl
  have numbered : (args.map (Value.mapRef f)).zipIdx =
      args.zipIdx.map fun arg => (arg.1.mapRef f, arg.2) := by
    rw [List.zipIdx_map]
    rfl
  unfold constructed
  rw [numbered]
  have made := filled args.zipIdx (.bare (.plain true))
  exact congrArg (fun o : HeapObject => { o with prototype := some (f function) }) made

/-- **A construction ends alike with objects in front, and in another context.** -/
theorem construct_follows (same : t.snapshot = s.snapshot.displaced extra) (function : ObjectRef)
    (args : List (Value ObjectRef)) :
    (construct (function.shift extra.size)
          (args.map (Value.mapRef (ObjectRef.shift extra.size))) t).1 =
        renamedOutcome (ObjectRef.shift extra.size) (construct function args s).1 ∧
      InStep extra s t (construct function args s).2 (construct (function.shift extra.size)
        (args.map (Value.mapRef (ObjectRef.shift extra.size))) t).2 := by
  obtain ⟨made, inStep⟩ := allocated_follows extra same (constructed function args)
  rw [← constructed_rename] at made inStep
  unfold construct
  rw [function?_displaced same]
  cases s.function? function with
  | none => exact ⟨rfl, .refl same⟩
  | some found =>
    obtain ⟨behaviour, source⟩ := found
    cases behaviour with
    | throws message => exact ⟨rfl, .refl same⟩
    | terminates => exact ⟨rfl, .refl same⟩
    | _ => exact ⟨congrArg (fun r => Except.ok (Value.ref r)) made, inStep⟩

end Calls

/-! ## A renaming -/

section Displacement

variable (extra : Array HeapObject) {s s' t' : Sandbox}

theorem InStep.displaced (h : InStep extra s (s.displaced extra) s' t') :
    t' = s'.displaced extra := by
  obtain ⟨c, rfl, rfl⟩ := h
  rfl

theorem enter_displaced (s : Sandbox) (context : Context) :
    Matched (fun s t => t = s.displaced extra) Eq (Renumbered extra.size) (enter context s)
      (enter context (s.displaced extra)) := by
  rw [enter_run, enter_run]
  show Matched _ _ _ _ (if enterable s.contexts context then _ else _)
  split
  · exact ⟨rfl, rfl⟩
  · exact ⟨.same _, rfl⟩

/-- **Putting objects in front is a renaming.** -/
def displacement (extra : Array HeapObject) :
    Renaming Sandbox ObjectRef SandboxSnapshot Sandbox ObjectRef SandboxSnapshot where
  handle := ObjectRef.shift extra.size
  state := displaced extra
  snapshot := SandboxSnapshot.displaced extra
  fault := Renumbered extra.size
  injective := ObjectRef.shift_injective extra.size
  enter context s := enter_displaced extra s context
  perform request _ := ((perform_follows extra request).run rfl).imp fun _ _ inStep =>
    inStep.displaced
  construct function args s :=
    have ended := construct_follows (s := s) rfl function args
    Prod.ext ended.1 ended.2.displaced
  call function args s :=
    have ended := call_follows (s := s) rfl function args
    Prod.ext ended.1 ended.2.displaced
  lastStatement _ := rfl
  capture _ := rfl
  restore _ _ := ⟨rfl, rfl⟩

end Displacement

end Sandbox
end Retrace
