import Retrace.Proofs.Sandbox.Handles
import Retrace.Proofs.Sandbox.Operations

/-!
# Operations on a closed heap

If the heap of a sandbox is closed, and an operation is only given what the heap has, then no handle
dangles: the operation does not fail because of one, leaves a closed heap, and what it answers is on
that heap (`Sandbox.perform_contained`). It may fail for other reasons, as it may on any heap. A
call is like an operation that does not fail, except that what is thrown may be a reference too.

Heaps only grow here, so what was on the heap before is still there afterwards.
-/

namespace Retrace

/-- The fault reports a handle that is one of no object. -/
def Fault.Dangling (f : Fault) : Prop := ∃ rest, f.message = "dangling handle " ++ rest

/-- A message that begins otherwise reports none. -/
def Harmless (message : String) : Prop := message.toList.head?.any (· ≠ 'd') = true

instance (message : String) : Decidable (Harmless message) :=
  inferInstanceAs (Decidable (message.toList.head?.any (· ≠ 'd') = true))

theorem Harmless.append {start : String} (harmless : Harmless start) (rest : String) :
    Harmless (start ++ rest) := by
  unfold Harmless at harmless ⊢
  rw [String.toList_append, List.head?_append]
  cases head : start.toList.head? with
  | none => rw [head] at harmless; exact absurd harmless (by simp)
  | some c => rw [head] at harmless; exact harmless

theorem Harmless.not_dangling {message : String} (harmless : Harmless message) :
    ¬ (Fault.mk message).Dangling := by
  rintro ⟨rest, rfl⟩
  unfold Harmless at harmless
  rw [String.toList_append] at harmless
  exact absurd harmless (by simp)

theorem Value.typeName_harmless {η : Type} (v : Value η) : Harmless v.typeName := by
  have names : ∀ name ∈ ["Null", "Bool", "I32", "U32", "I64", "U64", "F64", "Str", "Object"],
      Harmless name := by decide
  refine names _ ?_
  cases v <;> simp [typeName]

/-- The handles in what a request is made with. -/
def Request.handles {η : Type} : Request η → List η
  | toObject value => value.handles
  | createSymbol description => description.handles
  | createFunction name => (name.map Value.handles).getD []
  | getProperty object _ | ownPropertyDescriptor object _ | ownPropertyKeys object _
  | deleteProperty object _ _ | typedArrayBuffer object _ => [object]
  | getIndex object index => object :: index.handles
  | defineProperty object _ descriptor => object :: descriptor.handles
  | setPrototype object prototype => object :: prototype.handles
  | setProperty object _ value _ => object :: value.handles
  | setIndex object index value => object :: index.handles ++ value.handles
  | createObject _ | createArray _ | createArrayBuffer _ | loadScript _ => []

/-- The handles in how a call ended. -/
def Outcome.handles {η : Type} : Outcome η → List η
  | .ok value => value.handles
  | .error thrown => thrown.value.handles

namespace Sandbox

section Contained

variable {allowed : ObjectRef → Prop} {α β : Type} {Q : Heap → α → Prop} {P : Heap → β → Prop}
variable {s : Sandbox} {r : ObjectRef}

variable (allowed) in
/-- An operation that found a heap left a closed one that has grown from it. It answered something
    for which `Q` holds on the new heap, or failed, but not because of a handle. -/
def Contained (heap : Heap) (Q : Heap → α → Prop) : EStateM.Result Fault Sandbox α → Prop
  | .ok a s => heap.size ≤ s.heap.size ∧ s.heap.Closed allowed ∧ Q s.heap a
  | .error fault s => heap.size ≤ s.heap.size ∧ s.heap.Closed allowed ∧ ¬ fault.Dangling

theorem Contained.pure (closed : s.heap.Closed allowed) {a : α} (answers : Q s.heap a) :
    Contained allowed s.heap Q ((pure a : SandboxM α) s) := ⟨Nat.le_refl _, closed, answers⟩

theorem Contained.fail (closed : s.heap.Closed allowed) {message : String}
    (harmless : Harmless message) :
    Contained allowed s.heap Q ((fail message : SandboxM α) s) :=
  ⟨Nat.le_refl _, closed, harmless.not_dangling⟩

theorem Contained.bind {m : SandboxM α} {f : α → SandboxM β}
    (first : Contained allowed s.heap Q (m s))
    (rest : ∀ a t, s.heap.size ≤ t.heap.size → t.heap.Closed allowed → Q t.heap a →
      Contained allowed t.heap P (f a t)) : Contained allowed s.heap P ((m >>= f) s) := by
  rw [bind_run]
  cases hm : m s with
  | error fault t => rw [hm] at first; exact first
  | ok a t =>
    rw [hm] at first
    obtain ⟨grown, closed, answers⟩ := first
    have further := rest a t grown closed answers
    dsimp only
    cases hf : f a t with
    | ok b u => rw [hf] at further; exact ⟨Nat.le_trans grown further.1, further.2⟩
    | error fault u => rw [hf] at further; exact ⟨Nat.le_trans grown further.1, further.2⟩

theorem Contained.map {m : SandboxM α} {f : α → β} (h : Contained allowed s.heap Q (m s))
    (answers : ∀ heap a, Q heap a → P heap (f a)) :
    Contained allowed s.heap P ((f <$> m) s) := by
  rw [map_eq_pure_bind]
  exact h.bind fun a t _ closed held => .pure closed (answers t.heap a held)

/-- The operation answers a value on the heap. -/
abbrev Holds (allowed : ObjectRef → Prop) (heap : Heap) (v : Value ObjectRef) : Prop :=
  heap.HasAll allowed v.handles

theorem Contained.ref {m : SandboxM ObjectRef}
    (h : Contained allowed s.heap (Heap.Has allowed) (m s)) :
    Contained allowed s.heap (Holds allowed) ((Value.ref <$> m) s) :=
  h.map fun _ _ has => .cons has .nil

/-- A step that answers nothing of interest comes before what is answered. -/
theorem Contained.null {m : SandboxM Unit} (h : Contained allowed s.heap (fun _ _ => True) (m s)) :
    Contained allowed s.heap (Holds allowed) ((do m; return Value.null) s) :=
  h.bind fun _ _ _ closed _ => .pure closed .nil

/-! ## Objects -/

theorem get_found (has : s.heap.Has allowed r) :
    ∃ o, s.heap.object? r = some o ∧ get r s = .ok o s := by
  obtain ⟨o, there, got⟩ := has.found
  refine ⟨o, there, ?_⟩
  show (MonadExcept.ofExcept (s.heap.get r) : SandboxM HeapObject) s = _
  rw [got]
  rfl

/-- Looking at an object does not fail. -/
theorem Contained.get_bind (has : s.heap.Has allowed r) {f : HeapObject → SandboxM β}
    (rest : ∀ o, s.heap.object? r = some o → Contained allowed s.heap P (f o s)) :
    Contained allowed s.heap P ((get r >>= f) s) := by
  obtain ⟨o, there, got⟩ := get_found has
  rw [bind_run, got]
  exact rest o there

theorem allocate_contained (closed : s.heap.Closed allowed) {kind : ObjectKind}
    (has : s.heap.HasAll allowed kind.handles) :
    Contained allowed s.heap (Heap.Has allowed) (allocate kind s) :=
  closed.allocate (o := .bare kind) (HeapObject.handles_bare kind ▸ has)

theorem update_contained (closed : s.heap.Closed allowed) (has : s.heap.Has allowed r)
    {change : HeapObject → HeapObject}
    (changed : ∀ o, s.heap.HasAll allowed o.handles → s.heap.HasAll allowed (change o).handles) :
    Contained allowed s.heap (fun _ _ => True) (update r change s) := by
  refine .get_bind has fun o there => ?_
  obtain ⟨size, replaced⟩ := closed.replace (r := r) (changed o (closed.object there))
  exact ⟨Nat.le_of_eq size.symm, replaced, trivial⟩

theorem set_contained (closed : s.heap.Closed allowed) (has : s.heap.Has allowed r)
    (property : PropertyId) {value : Value ObjectRef} (held : s.heap.HasAll allowed value.handles) :
    Contained allowed s.heap (fun _ _ => True) (update r (fun o => o.set property value) s) := by
  refine update_contained closed has fun o refers q mem => ?_
  exact (HeapObject.mem_handles_set mem).elim (refers q) (held q)

/-- Another object in its kind, with the same properties and prototype. -/
theorem kind_contained (closed : s.heap.Closed allowed) (has : s.heap.Has allowed r)
    {kind : ObjectKind} (held : s.heap.HasAll allowed kind.handles) :
    Contained allowed s.heap (fun _ _ => True) (update r (fun o => { o with kind }) s) := by
  refine update_contained closed has fun o refers q mem => ?_
  rcases HeapObject.mem_handles.1 mem with new | rest
  · exact held q new
  · exact refers q (HeapObject.mem_handles.2 (Or.inr rest))

/-! ## Requests -/

theorem toObject_contained (closed : s.heap.Closed allowed) {value : Value ObjectRef}
    (held : s.heap.HasAll allowed value.handles) :
    Contained allowed s.heap (Heap.Has allowed) (toObject value s) := by
  cases value with
  | ref r =>
    have has := held r (by simp [Value.handles, Value.handle?])
    exact .get_bind has fun _ _ => .pure closed has
  | null => exact .fail closed (by decide)
  | _ => exact allocate_contained closed held

theorem createSymbol_contained (closed : s.heap.Closed allowed) (description : Value ObjectRef) :
    Contained allowed s.heap (Heap.Has allowed) (createSymbol description s) := by
  have found : Harmless "symbol description must be a string, found " := by decide
  cases description with
  | str | null => exact allocate_contained closed .nil
  | _ => exact .fail closed (found.append _)

/-- An array that was just made refers to nothing. -/
theorem nulls_handles (n : Nat) :
    (ObjectKind.array (Array.replicate n .null)).handles = [] := by
  refine List.flatMap_eq_nil_iff.2 fun v there => ?_
  rw [Array.toList_replicate] at there
  rw [List.eq_of_mem_replicate there]
  rfl

theorem createArray_contained (closed : s.heap.Closed allowed) (length : UInt32) :
    Contained allowed s.heap (Heap.Has allowed) (createArray length s) := by
  have start : Harmless "array length " := by decide
  unfold createArray
  split
  · exact .fail closed (((start.append _).append _).append _)
  · exact allocate_contained closed (nulls_handles _ ▸ .nil)

theorem createTypedArray_contained (closed : s.heap.Closed allowed) (length : UInt32) :
    Contained allowed s.heap (Heap.Has allowed) (createTypedArray length s) := by
  have start : Harmless "typed array length " := by decide
  unfold createTypedArray
  split
  · exact .fail closed (((start.append _).append _).append _)
  · exact (allocate_contained closed .nil).bind fun buffer t _ closed has =>
      allocate_contained closed (.cons has .nil)

theorem getProperty_contained (closed : s.heap.Closed allowed) (has : s.heap.Has allowed r)
    (property : PropertyId) :
    Contained allowed s.heap (Holds allowed) (getProperty r property s) := by
  have start : s.heap.HasAll allowed (some r).toList := .cons has .nil
  obtain ⟨v, found, held⟩ := closed.lookupWithin property (s.heap.size + 1) start
  show Contained allowed s.heap (Holds allowed)
    ((MonadExcept.ofExcept (s.heap.lookup r property) : SandboxM (Value ObjectRef)) s)
  rw [Heap.lookup, found]
  exact ⟨Nat.le_refl _, closed, held⟩

/-- A property of an object on the heap holds a value on the heap. -/
theorem property_held (closed : s.heap.Closed allowed) {o : HeapObject}
    (there : s.heap.object? r = some o) {property : PropertyId} {value : Value ObjectRef}
    (found : o.properties.get? property = some value) : s.heap.HasAll allowed value.handles :=
  fun q mem => closed.object there q (HeapObject.mem_handles.2
    (Or.inr (Or.inl ⟨value, OrderedMap.mem_values_of_get? found, mem⟩)))

theorem ownPropertyDescriptor_contained (closed : s.heap.Closed allowed)
    (has : s.heap.Has allowed r) (property : PropertyId) :
    Contained allowed s.heap (Holds allowed) (ownPropertyDescriptor r property s) := by
  refine .get_bind has fun o there => ?_
  cases found : o.properties.get? property with
  | none => exact .pure closed .nil
  | some value =>
    have held := property_held closed there found
    refine (allocate_contained closed .nil).bind fun descriptor t grown closed has => ?_
    refine (set_contained closed has descriptorValue (held.mono grown)).bind ?_
    intro _ u grown closed _
    exact .pure closed (.cons (has.mono grown) .nil)

theorem ownPropertyKeys_contained (closed : s.heap.Closed allowed) (has : s.heap.Has allowed r)
    (names : Bool) :
    Contained allowed s.heap (Heap.Has allowed) (ownPropertyKeys r names s) := by
  refine .get_bind has fun o _ => allocate_contained closed fun q mem => ?_
  obtain ⟨v, there, held⟩ := List.mem_flatMap.1 mem
  cases names with
  | false => exact absurd there (by simp)
  | true =>
    obtain ⟨p, -, rfl⟩ := List.mem_map.1 (by simpa using there)
    exact absurd held List.not_mem_nil

/-- A descriptor that is no object of the heap describes nothing. -/
theorem defineProperty_contained (closed : s.heap.Closed allowed) (has : s.heap.Has allowed r)
    (property : PropertyId) (descriptor : Value ObjectRef) :
    Contained allowed s.heap (fun _ _ => True) (defineProperty r property descriptor s) := by
  unfold defineProperty
  cases there : descriptor.handle? with
  | none => exact .pure closed trivial
  | some d =>
    have value : s.heap.HasAll allowed
        ((s.heap.ownProperty? d descriptorValue).getD .null).handles := by
      cases found : s.heap.ownProperty? d descriptorValue with
      | none => exact .nil
      | some value =>
        obtain ⟨o, isObject, own⟩ := Option.bind_eq_some_iff.1 found
        exact property_held closed isObject own
    exact (set_contained closed has property value).bind fun _ _ _ closed _ => .pure closed trivial

theorem deleteProperty_contained (closed : s.heap.Closed allowed) (has : s.heap.Has allowed r)
    (property : PropertyId) :
    Contained allowed s.heap (fun _ _ => True) (deleteProperty r property s) := by
  refine .get_bind has fun o _ => ?_
  refine (update_contained closed has fun o refers q mem => ?_).bind fun _ _ _ closed _ =>
    .pure closed trivial
  rcases HeapObject.mem_handles.1 mem with kind | ⟨v, kept, held⟩ | prototype
  · exact refers q (HeapObject.mem_handles.2 (Or.inl kind))
  · exact refers q (HeapObject.mem_handles.2
      (Or.inr (Or.inl ⟨v, OrderedMap.mem_values_erase kept, held⟩)))
  · exact refers q (HeapObject.mem_handles.2 (Or.inr (Or.inr prototype)))

/-- Another prototype from the heap, or none. -/
theorem prototype_contained (closed : s.heap.Closed allowed) (has : s.heap.Has allowed r)
    {prototype : Option ObjectRef} (held : s.heap.HasAll allowed prototype.toList) :
    Contained allowed s.heap (fun _ _ => True) (update r (fun o => { o with prototype }) s) := by
  refine update_contained closed has fun o refers q mem => ?_
  rcases HeapObject.mem_handles.1 mem with kind | property | new
  · exact refers q (HeapObject.mem_handles.2 (Or.inl kind))
  · exact refers q (HeapObject.mem_handles.2 (Or.inr (Or.inl property)))
  · exact held q (Option.mem_toList.2 new)

theorem setPrototype_contained (closed : s.heap.Closed allowed) (has : s.heap.Has allowed r)
    {prototype : Value ObjectRef} (held : s.heap.HasAll allowed prototype.handles) :
    Contained allowed s.heap (fun _ _ => True) (setPrototype r prototype s) := by
  have cycle : Harmless "prototype cycle through " := by decide
  have wrong : Harmless "prototype must be an object or null, found " := by decide
  cases prototype with
  | null => exact prototype_contained closed has .nil
  | ref p =>
    have start : s.heap.HasAll allowed (some p).toList := held
    obtain ⟨reaches, found⟩ := closed.reachesWithin r (s.heap.size + 1) start
    show Contained allowed s.heap _ ((do
      if ← MonadExcept.ofExcept (s.heap.reachesWithin r (s.heap.size + 1) (some p)) then
        fail s!"prototype cycle through {r}"
      update r fun o => { o with prototype := some p } : SandboxM Unit) s)
    rw [found]
    cases reaches with
    | true => exact .fail closed (cycle.append _)
    | false => exact prototype_contained closed has held
  | _ => exact .fail closed (wrong.append _)

/-- A value that is no index is refused by a message about the value. -/
theorem index_harmless {value : Value ObjectRef} {fault : Fault}
    (refused : index value = .error fault) : Harmless fault.message := by
  have start : Harmless "index " := by decide
  unfold index at refused
  split at refused
  · obtain rfl := Except.error.inj refused
    exact value.typeName_harmless.append _
  · split at refused
    · exact absurd refused (by simp)
    · obtain rfl := Except.error.inj refused
      exact (start.append _).append _

theorem Contained.index_bind (closed : s.heap.Closed allowed) (value : Value ObjectRef)
    {f : UInt32 → SandboxM β} (rest : ∀ i, Contained allowed s.heap P (f i s)) :
    Contained allowed s.heap P ((MonadExcept.ofExcept (index value) >>= f) s) := by
  cases found : index value with
  | ok i => exact rest i
  | error fault => exact ⟨Nat.le_refl _, closed, (index_harmless found).not_dangling⟩

/-- The elements of an array on the heap are on the heap. -/
theorem items_held (closed : s.heap.Closed allowed) {o : HeapObject}
    (there : s.heap.object? r = some o) {items : Array (Value ObjectRef)}
    (kind : o.kind = .array items) {v : Value ObjectRef} (mem : v ∈ items) :
    s.heap.HasAll allowed v.handles := fun q held => by
  refine closed.object there q (HeapObject.mem_handles.2 (Or.inl ?_))
  rw [kind]
  exact List.mem_flatMap.2 ⟨v, Array.mem_toList_iff.2 mem, held⟩

theorem getIndex_contained (closed : s.heap.Closed allowed) (has : s.heap.Has allowed r)
    (at_ : Value ObjectRef) : Contained allowed s.heap (Holds allowed) (getIndex r at_ s) := by
  refine .index_bind closed at_ fun i => .get_bind has fun o there => ?_
  cases kind : o.kind with
  | array items =>
    refine .pure closed ?_
    cases found : items[i.toNat]? with
    | none => exact Heap.HasAll.nil
    | some v => exact items_held closed there kind (Array.mem_of_getElem? found)
  | arrayBuffer bytes =>
    dsimp only
    split <;> exact .pure closed Heap.HasAll.nil
  | _ => exact getProperty_contained closed has _

theorem setIndex_contained (closed : s.heap.Closed allowed) (has : s.heap.Has allowed r)
    (at_ : Value ObjectRef) {value : Value ObjectRef}
    (held : s.heap.HasAll allowed value.handles) :
    Contained allowed s.heap (fun _ _ => True) (setIndex r at_ value s) := by
  have start : Harmless "index " := by decide
  refine .index_bind closed at_ fun i => .get_bind has fun o there => ?_
  cases kind : o.kind with
  | array items =>
    dsimp only
    split
    · exact .fail closed (((start.append _).append _).append _)
    · refine kind_contained closed has fun q mem => ?_
      obtain ⟨v, new, inside⟩ := List.mem_flatMap.1 mem
      rw [withElement, Array.toList_setIfInBounds] at new
      rcases List.mem_or_eq_of_mem_set new with before | rfl
      · rw [Array.toList_append, List.mem_append, Array.toList_replicate] at before
        rcases before with old | filled
        · exact items_held closed there kind (Array.mem_toList_iff.1 old) q inside
        · rw [List.eq_of_mem_replicate filled] at inside
          exact absurd inside List.not_mem_nil
      · exact held q inside
  | arrayBuffer bytes =>
    dsimp only
    split
    · exact .fail closed ((start.append _).append _)
    · exact kind_contained closed has .nil
  | _ => exact set_contained closed has _ held

theorem typedArrayBuffer_contained (closed : s.heap.Closed allowed) (has : s.heap.Has allowed r) :
    Contained allowed s.heap (Heap.Has allowed) (typedArrayBuffer r s) := by
  have start : Harmless "#" := by decide
  refine .get_bind has fun o there => ?_
  cases kind : o.kind with
  | typedArray buffer =>
    refine .pure closed (closed.object there buffer (HeapObject.mem_handles.2 (Or.inl ?_)))
    rw [kind]
    exact List.mem_singleton_self buffer
  | _ => exact .fail closed ((start.append _).append _)

/-- **In a closed heap, a request about what is there never meets a handle that dangles**, and
    neither does anything behind it. -/
theorem perform_contained (closed : s.heap.Closed allowed) {request : Request ObjectRef}
    (held : s.heap.HasAll allowed request.handles) :
    Contained allowed s.heap (Holds allowed) (perform request s) := by
  have about {object : ObjectRef} {others : List ObjectRef}
      (held : s.heap.HasAll allowed (object :: others)) :
      s.heap.Has allowed object ∧ s.heap.HasAll allowed others := List.forall_mem_cons.1 held
  cases request with
  | toObject value => exact (toObject_contained closed held).ref
  | createSymbol description => exact (createSymbol_contained closed description).ref
  | createObject regular => exact (allocate_contained closed .nil).ref
  | createArray length => exact (createArray_contained closed length).ref
  | createArrayBuffer bytes => exact (allocate_contained closed .nil).ref
  | createFunction name => exact (allocate_contained closed .nil).ref
  | getProperty object property => exact getProperty_contained closed (about held).1 property
  | getIndex object index => exact getIndex_contained closed (about held).1 index
  | ownPropertyDescriptor object property =>
    exact ownPropertyDescriptor_contained closed (about held).1 property
  | ownPropertyKeys object names => exact (ownPropertyKeys_contained closed (about held).1 names).ref
  | defineProperty object property descriptor =>
    exact (defineProperty_contained closed (about held).1 property descriptor).map fun _ _ _ => .nil
  | deleteProperty object property _ =>
    exact (deleteProperty_contained closed (about held).1 property).map fun _ _ _ => .nil
  | setPrototype object prototype =>
    exact (setPrototype_contained closed (about held).1 (about held).2).null
  | setProperty object property value _ =>
    exact (set_contained closed (about held).1 property (about held).2).null
  | setIndex object index value =>
    have value := (List.forall_mem_append.1 (about held).2).2
    exact (setIndex_contained closed (about held).1 index value).null
  | typedArrayBuffer object _ => exact (typedArrayBuffer_contained closed (about held).1).ref
  | loadScript script => exact (allocate_contained closed .nil).ref

/-! ## Calls -/

variable (allowed) in
/-- A call that found a heap left a closed one that has grown from it, and ended in something that
    is on the new heap. -/
structure ContainedCall (heap : Heap) (made : Outcome ObjectRef × Sandbox) : Prop where
  grown : heap.size ≤ made.2.heap.size
  closed : made.2.heap.Closed allowed
  held : made.2.heap.HasAll allowed made.1.handles

theorem invoke_contained (closed : s.heap.Closed allowed) (behaviour : Behaviour)
    {args : List (Value ObjectRef)} (held : s.heap.HasAll allowed (args.flatMap Value.handles)) :
    ContainedCall allowed s.heap (invoke behaviour args s) := by
  cases behaviour with
  | nothing | throws message | terminates => exact ⟨Nat.le_refl _, closed, .nil⟩
  | echo =>
    refine ⟨Nat.le_refl _, closed, ?_⟩
    cases args with
    | nil => exact .nil
    | cons first rest => exact fun q mem => held q (List.mem_append_left _ mem)
  | newObject =>
    have made : Contained allowed s.heap (Heap.Has allowed) (allocate (.plain true) s) :=
      allocate_contained closed .nil
    exact ⟨made.1, made.2.1, .cons made.2.2 .nil⟩
  | typedArray length =>
    have made := createTypedArray_contained closed length
    unfold invoke
    dsimp only
    cases ran : createTypedArray length s with
    | ok r t =>
      rw [ran] at made
      exact ⟨made.1, made.2.1, .cons made.2.2 .nil⟩
    | error fault t =>
      rw [ran] at made
      exact ⟨made.1, made.2.1, .nil⟩

theorem call_contained (closed : s.heap.Closed allowed) (function : ObjectRef)
    {args : List (Value ObjectRef)} (held : s.heap.HasAll allowed (args.flatMap Value.handles)) :
    ContainedCall allowed s.heap (call function args s) := by
  unfold call
  split
  · exact ⟨Nat.le_refl _, closed, .nil⟩
  · -- what is counted and noted of a call is not on the heap
    rename_i behaviour source _
    dsimp only
    generalize some (Statement.mk (s.calls + 1) 0 1 0 _) = lastStatement
    exact invoke_contained (s := { s with calls := s.calls + 1, lastStatement }) closed behaviour held

theorem construct_contained (closed : s.heap.Closed allowed) {function : ObjectRef}
    (has : s.heap.Has allowed function) {args : List (Value ObjectRef)}
    (held : s.heap.HasAll allowed (args.flatMap Value.handles)) :
    ContainedCall allowed s.heap (construct function args s) := by
  unfold construct
  split
  · exact ⟨Nat.le_refl _, closed, .nil⟩
  · exact invoke_contained closed _ held
  · exact invoke_contained closed _ held
  · have refers : s.heap.HasAll allowed (constructed function args).handles := by
      intro q mem
      rcases mem_handles_constructed mem with rfl | given
      · exact has
      · exact held q given
    obtain ⟨grown, closed, made⟩ := closed.allocate refers
    exact ⟨grown, closed, .cons made .nil⟩

end Contained

end Sandbox
end Retrace
