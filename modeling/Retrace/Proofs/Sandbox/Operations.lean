import Retrace.Proofs.Runs
import Retrace.Sandbox.Basic

/-!
# Operations of the sandbox that fail

An operation that fails has changed nothing (`perform_atomic`), although it may be made of several
steps: they look first (`Looks`), and no step fails behind the one that changes something. Entering
a context fails just if there are others only (`enter_run`).
-/

namespace Retrace
namespace Sandbox

/-! ## Contexts -/

/-- Whether a context may be entered where these contexts are known. -/
def enterable (contexts : Option (List Context)) (context : Context) : Bool :=
  contexts.all fun known => known.contains context

theorem enter_run (context : Context) (s : Sandbox) :
    enter context s =
      if enterable s.contexts context then .ok () { s with current := some context }
      else .error ⟨s!"no context {context}"⟩ s := by
  have looked : (EStateM.get : SandboxM Sandbox) s = .ok s s := rfl
  simp only [enter, enterable, bind_run, looked]
  cases hc : s.contexts with
  | none => simp [hc]
  | some known =>
    by_cases hk : context ∈ known
    · simp [hk, hc]
    · simp [hk, fail]

/-! ## Failures -/

/-- The operation only looks. -/
def Looks {α : Type} (m : SandboxM α) : Prop :=
  ∀ s, (∃ a, m s = .ok a s) ∨ ∃ fault, m s = .error fault s

/-- If the operation fails, it has changed nothing. -/
def Atomic {α : Type} (m : SandboxM α) : Prop := ∀ s fault s', m s = .error fault s' → s' = s

section Failures

variable {α β : Type}

theorem Looks.pure (a : α) : Looks (pure a : SandboxM α) := fun _ => Or.inl ⟨a, rfl⟩

theorem Looks.fail (message : String) : Looks (fail message : SandboxM α) :=
  fun _ => Or.inr ⟨⟨message⟩, rfl⟩

theorem Looks.ofExcept (x : Except Fault α) : Looks (MonadExcept.ofExcept x : SandboxM α) := by
  intro s
  cases x with
  | ok a => exact Or.inl ⟨a, rfl⟩
  | error fault => exact Or.inr ⟨fault, rfl⟩

theorem Looks.heap {f : Heap → Except Fault α} :
    Looks (do MonadExcept.ofExcept (f (← EStateM.get).heap) : SandboxM α) :=
  fun s => Looks.ofExcept (f s.heap) s

theorem Looks.bind {m : SandboxM α} {f : α → SandboxM β} (first : Looks m)
    (rest : ∀ a, Looks (f a)) : Looks (m >>= f) := by
  intro s
  rw [bind_run]
  rcases first s with ⟨a, ha⟩ | ⟨fault, hf⟩
  · rw [ha]; exact rest a s
  · rw [hf]; exact Or.inr ⟨fault, rfl⟩

theorem Looks.atomic {m : SandboxM α} (h : Looks m) : Atomic m := by
  intro s fault s' failed
  rcases h s with ⟨a, ha⟩ | ⟨fault', hf⟩
  · exact absurd (ha.symm.trans failed) (by simp)
  · exact (EStateM.Result.error.inj (hf.symm.trans failed)).2.symm

/-- Looking first does no harm. -/
theorem Looks.bind_atomic {m : SandboxM α} {f : α → SandboxM β} (first : Looks m)
    (rest : ∀ a, Atomic (f a)) : Atomic (m >>= f) := by
  intro s fault s' failed
  rw [bind_run] at failed
  rcases first s with ⟨a, ha⟩ | ⟨fault', hf⟩
  · rw [ha] at failed; exact rest a s fault s' failed
  · rw [hf] at failed; exact (EStateM.Result.error.inj failed).2.symm

/-- Neither does anything afterwards that cannot fail. -/
theorem Atomic.bind {m : SandboxM α} {f : α → SandboxM β} (first : Atomic m)
    (rest : ∀ a s, ∃ b s', f a s = .ok b s') : Atomic (m >>= f) := by
  intro s fault s' failed
  rw [bind_run] at failed
  cases hm : m s with
  | ok a t =>
    rw [hm] at failed
    obtain ⟨b, t', hb⟩ := rest a t
    exact absurd (hb.symm.trans failed) (by simp)
  | error fault' t =>
    rw [hm] at failed
    obtain ⟨rfl, rfl⟩ := EStateM.Result.error.inj failed
    exact first s fault' t hm

theorem Atomic.map {m : SandboxM α} (f : α → β) (h : Atomic m) : Atomic (f <$> m) := by
  rw [map_eq_pure_bind]
  exact h.bind fun a s => ⟨f a, s, rfl⟩

theorem get_looks (r : ObjectRef) : Looks (get r) := Looks.heap (f := fun heap => heap.get r)

theorem allocate_atomic (kind : ObjectKind) : Atomic (allocate kind) :=
  fun _ _ _ failed => absurd failed (by simp [allocate])

theorem update_atomic (r : ObjectRef) (change : HeapObject → HeapObject) :
    Atomic (update r change) :=
  (get_looks r).bind_atomic fun _ _ _ _ failed => absurd failed (by simp)

theorem getProperty_looks (r : ObjectRef) (property : PropertyId) :
    Looks (getProperty r property) :=
  Looks.heap (f := fun heap => heap.lookup r property)

theorem toObject_atomic (value : Value ObjectRef) : Atomic (toObject value) := by
  cases value with
  | ref r => exact ((get_looks r).bind fun _ => .pure r).atomic
  | null => exact (Looks.fail _).atomic
  | _ => exact allocate_atomic _

theorem createSymbol_atomic (description : Value ObjectRef) :
    Atomic (createSymbol description) := by
  cases description with
  | str s => exact allocate_atomic _
  | null => exact allocate_atomic _
  | _ => exact (Looks.fail _).atomic

theorem createArray_atomic (length : UInt32) : Atomic (createArray length) := by
  unfold createArray
  split
  · exact (Looks.fail _).atomic
  · exact allocate_atomic _

theorem get_allocated (s : Sandbox) (o : HeapObject) :
    get (s.allocated o).1 (s.allocated o).2 = .ok o (s.allocated o).2 := by
  have found : (s.heap.allocate o).2.object? (s.heap.allocate o).1 = some o := by
    simp [Heap.allocate, Heap.object?, Heap.size]
  show (MonadExcept.ofExcept ((s.heap.allocate o).2.get (s.heap.allocate o).1) :
    SandboxM HeapObject) (s.allocated o).2 = _
  rw [Heap.get, found]
  rfl

theorem ownPropertyDescriptor_atomic (r : ObjectRef) (property : PropertyId) :
    Atomic (ownPropertyDescriptor r property) := by
  refine (get_looks r).bind_atomic ?_
  intro o
  cases o.properties.get? property with
  | none => exact (Looks.pure _).atomic
  | some value =>
    -- the descriptor is new, so giving it its value does not fail
    intro s fault s' failed
    have made : allocate (.plain true) s = .ok (s.allocated (.bare (.plain true))).1
      (s.allocated (.bare (.plain true))).2 := rfl
    simp only [bind_run, made, update, get_allocated, modify_run, pure_run] at failed
    exact absurd failed (by simp)

theorem ownPropertyKeys_atomic (r : ObjectRef) (names : Bool) :
    Atomic (ownPropertyKeys r names) :=
  (get_looks r).bind_atomic fun _ => allocate_atomic _

theorem defineProperty_atomic (r : ObjectRef) (property : PropertyId)
    (descriptor : Value ObjectRef) : Atomic (defineProperty r property descriptor) := by
  unfold defineProperty
  cases descriptor.handle? with
  | none => exact (Looks.pure _).atomic
  | some d =>
    have looked : Looks (EStateM.get : SandboxM Sandbox) := fun s => Or.inl ⟨s, rfl⟩
    refine looked.bind_atomic fun s => (update_atomic r _).bind fun _ t => ⟨true, t, rfl⟩

theorem deleteProperty_atomic (r : ObjectRef) (property : PropertyId) :
    Atomic (deleteProperty r property) :=
  (get_looks r).bind_atomic fun _ => (update_atomic r _).bind fun _ t => ⟨_, t, rfl⟩

theorem setPrototype_atomic (r : ObjectRef) (prototype : Value ObjectRef) :
    Atomic (setPrototype r prototype) := by
  cases prototype with
  | null => exact update_atomic r _
  | ref p =>
    have looked : Looks (EStateM.get : SandboxM Sandbox) := fun s => Or.inl ⟨s, rfl⟩
    refine looked.bind_atomic fun s => (Looks.ofExcept _).bind_atomic fun reaches => ?_
    cases reaches with
    | true => exact (Looks.fail _).bind_atomic fun _ => update_atomic r _
    | false => exact update_atomic r _
  | _ => exact (Looks.fail _).atomic

theorem getIndex_looks (r : ObjectRef) (at_ : Value ObjectRef) : Looks (getIndex r at_) := by
  refine (Looks.ofExcept _).bind fun i => (get_looks r).bind fun o => ?_
  cases o.kind with
  | array items => exact .pure _
  | arrayBuffer bytes => exact .pure _
  | _ => exact getProperty_looks r _

theorem setIndex_atomic (r : ObjectRef) (at_ value : Value ObjectRef) :
    Atomic (setIndex r at_ value) := by
  refine (Looks.ofExcept _).bind_atomic fun i => (get_looks r).bind_atomic fun o => ?_
  cases o.kind with
  | array items =>
    dsimp only
    split
    · exact (Looks.fail _).bind_atomic fun _ => update_atomic r _
    · exact update_atomic r _
  | arrayBuffer bytes =>
    dsimp only
    split
    · exact (Looks.fail _).bind_atomic fun _ => update_atomic r _
    · exact update_atomic r _
  | _ => exact update_atomic r _

theorem typedArrayBuffer_looks (r : ObjectRef) : Looks (typedArrayBuffer r) := by
  refine (get_looks r).bind ?_
  intro o
  cases o.kind with
  | typedArray buffer => exact .pure _
  | _ => exact .fail _

/-- A request that is not answered has changed nothing. -/
theorem perform_atomic (request : Request ObjectRef) : Atomic (perform request) := by
  cases request with
  | toObject value => exact (toObject_atomic value).map _
  | createSymbol description => exact (createSymbol_atomic description).map _
  | createObject regular => exact (allocate_atomic _).map _
  | createArray length => exact (createArray_atomic length).map _
  | createArrayBuffer bytes => exact (allocate_atomic _).map _
  | createFunction name => exact (allocate_atomic _).map _
  | getProperty object property => exact (getProperty_looks object property).atomic
  | getIndex object index => exact (getIndex_looks object index).atomic
  | ownPropertyDescriptor object property => exact ownPropertyDescriptor_atomic object property
  | ownPropertyKeys object names => exact (ownPropertyKeys_atomic object names).map _
  | defineProperty object property descriptor =>
    exact (defineProperty_atomic object property descriptor).map _
  | deleteProperty object property _ => exact (deleteProperty_atomic object property).map _
  | setPrototype object prototype =>
    exact (setPrototype_atomic object prototype).bind fun _ t => ⟨.null, t, rfl⟩
  | setProperty object property value _ =>
    exact (update_atomic object _).bind fun _ t => ⟨.null, t, rfl⟩
  | setIndex object index value =>
    exact (setIndex_atomic object index value).bind fun _ t => ⟨.null, t, rfl⟩
  | typedArrayBuffer object _ => exact (typedArrayBuffer_looks object).atomic.map _
  | loadScript script => exact (allocate_atomic _).map _

end Failures

end Sandbox
end Retrace
