import Retrace.Proofs.Sandbox.Displacement

/-!
# Sandboxes in different contexts

A snapshot of a sandbox does not hold the context that is current. It need not: no operation but
entering a context looks at it. So sandboxes with the same snapshot answer alike, and have the same
snapshot again afterwards. `Alike` is the relation, `perform_blind`, `construct_alike` and
`call_alike` say that it is kept. This is why going back to a snapshot is as good as having stayed.

Nothing of this has to be seen again for every operation: it is what was seen for sandboxes with
other objects in front, for no objects at all.
-/

namespace Retrace

/-! ## Nothing in front -/

/-- With nothing in front, handles are what they were. -/
theorem ObjectRef.shift_nothing : shift (#[] : Array HeapObject).size = id := rfl

theorem Renumbered.nothing {f g : Fault} (h : Renumbered (#[] : Array HeapObject).size f g) :
    f = g := by
  cases h with
  | same => rfl
  | printed before after r => rfl

theorem SandboxSnapshot.displaced_nothing (c : SandboxSnapshot) : c.displaced #[] = c := by
  have objects : (HeapObject.rename id : HeapObject → HeapObject) = id :=
    funext HeapObject.rename_id
  unfold displaced Heap.displaced
  rw [ObjectRef.shift_nothing, objects, Array.map_id, Array.empty_append]

namespace Sandbox

/-- Two sandboxes that know the same contexts and differ at most in which is current. -/
structure Alike (contexts : Option (List Context)) (s t : Sandbox) : Prop where
  snapshot : s.snapshot = t.snapshot
  left : s.contexts = contexts
  right : t.contexts = contexts

/-- The operation does not depend on the current context. -/
structure Blind {α : Type} (m : SandboxM α) : Prop where
  run : ∀ {contexts s t}, Alike contexts s t → Matched (Alike contexts) Eq Eq (m s) (m t)

section Alike

variable {contexts : Option (List Context)} {s t s' t' : Sandbox}

theorem Alike.heap (h : Alike contexts s t) : s.heap = t.heap :=
  congrArg SandboxSnapshot.heap h.snapshot

theorem Alike.calls (h : Alike contexts s t) : s.calls = t.calls :=
  congrArg SandboxSnapshot.calls h.snapshot

theorem Alike.lastStatement (h : Alike contexts s t) : s.lastStatement = t.lastStatement :=
  congrArg SandboxSnapshot.lastStatement h.snapshot

theorem Alike.displaced (h : Alike contexts s t) : t.snapshot = s.snapshot.displaced #[] :=
  h.snapshot.symm.trans s.snapshot.displaced_nothing.symm

theorem Alike.inStep (h : Alike contexts s t) (moved : InStep #[] s t s' t') :
    Alike contexts s' t' := by
  obtain ⟨c, rfl, rfl⟩ := moved
  rw [SandboxSnapshot.displaced_nothing]
  exact ⟨rfl, h.left, h.right⟩

/-- **No request is answered differently in another context.** -/
theorem perform_blind (request : Request ObjectRef) : Blind (perform request) := by
  have follows := perform_follows #[] request
  rw [ObjectRef.shift_nothing, Request.rename_id] at follows
  refine ⟨fun {contexts s t} alike => ?_⟩
  rcases (follows.run alike.displaced).cases with
    ⟨v, s', w, t', hs, ht, same, moved⟩ | ⟨f, s', g, t', hs, ht, same, moved⟩
  · rw [hs, ht]
    rw [MovedValue, ObjectRef.shift_nothing, Value.mapRef_id] at same
    exact ⟨same.symm, alike.inStep moved⟩
  · rw [hs, ht]
    exact ⟨same.nothing, alike.inStep moved⟩

/-- A call ends alike in another context. -/
theorem call_alike (h : Alike contexts s t) (function : ObjectRef)
    (args : List (Value ObjectRef)) :
    (call function args s).1 = (call function args t).1 ∧
      Alike contexts (call function args s).2 (call function args t).2 := by
  have ended := call_follows h.displaced function args
  rw [ObjectRef.shift_nothing, Value.mapRef_id, List.map_id, renamedOutcome_id, id] at ended
  exact ⟨ended.1.symm, h.inStep ended.2⟩

/-- A construction ends alike in another context. -/
theorem construct_alike (h : Alike contexts s t) (function : ObjectRef)
    (args : List (Value ObjectRef)) :
    (construct function args s).1 = (construct function args t).1 ∧
      Alike contexts (construct function args s).2 (construct function args t).2 := by
  have ended := construct_follows h.displaced function args
  rw [ObjectRef.shift_nothing, Value.mapRef_id, List.map_id, renamedOutcome_id, id] at ended
  exact ⟨ended.1.symm, h.inStep ended.2⟩

theorem enter_alike (h : Alike contexts s t) (context : Context) :
    Matched (Alike contexts) (fun _ _ => enterable contexts context = true) Eq (enter context s)
      (enter context t) := by
  rw [enter_run, enter_run]
  have left : enterable s.contexts context = enterable contexts context := by rw [h.left]
  have right : enterable t.contexts context = enterable contexts context := by rw [h.right]
  by_cases may : enterable contexts context = true
  · rw [if_pos (left.trans may), if_pos (right.trans may)]
    exact ⟨may, h.snapshot, h.left, h.right⟩
  · rw [if_neg (left ▸ may), if_neg (right ▸ may)]
    exact ⟨rfl, h⟩

end Alike

end Sandbox
end Retrace
