import Retrace.Proofs.Renaming.Playbacks
import Retrace.Proofs.Sandbox.Displacement

/-!
# Replay does not depend on addresses

The handles of a sandbox are positions in its heap, so they depend on what was made there before a
replay. What comes of the replay does not. Take two sandboxes, one of them new, the other one with
some objects in it already. The same demands are answered alike, and in the end everything is the
same but for the place in the heap (`Displaced`). The objects that were there first are still as
they were.

Putting objects in front is a renaming of handles (`Sandbox.displacement`), and playbacks do not
look at handles (`Playback.drive_renamed`). All that is left to see is how the two begin.
-/

namespace Retrace

/-- A sandbox with the given contexts in which some objects were made, one after the other. -/
def Sandbox.prepared (contexts : Option (List Context)) (objects : List HeapObject) : Sandbox :=
  objects.foldl (fun s o => (s.allocated o).2) (.fresh contexts)

theorem Sandbox.prepared_eq (contexts : Option (List Context)) (objects : List HeapObject) :
    prepared contexts objects = (fresh contexts).displaced objects.toArray := by
  have made (s : Sandbox) : objects.foldl (fun s o => (s.allocated o).2) s =
      { s with heap := ⟨s.heap.objects ++ objects.toArray⟩ } := by
    induction objects generalizing s with
    | nil => simp
    | cons o objects ih =>
      rw [List.foldl_cons, ih]
      simp [allocated, Heap.allocate]
  rw [prepared, made]
  simp [fresh, displaced, Heap.displaced, Heap.empty]

namespace Playback

/-- The second playback has come to the same as the first one, with objects in front. -/
structure Displaced (extra : List HeapObject) (p q : Playback Sandbox ObjectRef SandboxSnapshot) :
    Prop where
  /-- The objects in front are as they were. The others are those of the first sandbox, and refer to
      each other as these do. -/
  heap : q.session.engine.heap.objects.toList = extra ++
    p.session.engine.heap.objects.toList.map (HeapObject.rename (ObjectRef.shift extra.length))
  contexts : q.session.engine.contexts = p.session.engine.contexts
  current : q.session.engine.current = p.session.engine.current
  calls : q.session.engine.calls = p.session.engine.calls
  lastStatement : q.session.engine.lastStatement = p.session.engine.lastStatement
  /-- The same tags are bound in the same order, each to the handle of the same object. -/
  tags : q.session.tags = p.session.tags.rename (ObjectRef.shift extra.length)
  isomorphic : p.session.tags.isIsomorphic q.session.tags = true
  callbacks : q.session.callbacks = p.session.callbacks
  pending : q.session.pending =
    p.session.pending.map (Thrown.rename (ObjectRef.shift extra.length))
  stack : q.session.stack = p.session.stack.rename (ObjectRef.shift extra.length)
  context : q.session.context = p.session.context
  statements : q.session.notes.statements = p.session.notes.statements
  places : q.session.notes.places = p.session.notes.places
  position : q.position = p.position
  phase : q.phase = p.phase
  last : q.last = p.last
  stopped : q.stopped = p.stopped

theorem rename_displaced (extra : List HeapObject)
    (p : Playback Sandbox ObjectRef SandboxSnapshot) :
    Displaced extra p (p.rename (Sandbox.displacement extra.toArray)) where
  heap := by
    show (extra.toArray ++ p.session.engine.heap.objects.map _).toList = _
    simp
  contexts := rfl
  current := rfl
  calls := rfl
  lastStatement := rfl
  tags := rfl
  isomorphic := TagTable.rename_isIsomorphic ..
  callbacks := rfl
  pending := rfl
  stack := rfl
  context := rfl
  statements := rfl
  places := rfl
  position := rfl
  phase := rfl
  last := rfl
  stopped := rfl

/-- **Replay does not depend on addresses.** Replay a log of which no checkpoint is known, once on a
    new sandbox and once on one in which other objects were made before, and drive both alike. They
    answer alike, down to the messages, except that the handles in these are larger by the number of
    the objects in front; and they come to the same, with these objects in front. -/
theorem replay_ignores_addresses (log : Log) (contexts : Option (List Context))
    (settings : Settings) (extra : List HeapObject) (statements : OrderedMap Nat Statement)
    (places : OrderedMap Nat CallbackPlace) (demands : List Demand) :
    let notes : Notes ObjectRef SandboxSnapshot := ⟨.empty, statements, places⟩
    let one := drive demands (start log (.start (Sandbox.fresh contexts) settings notes))
    let other := drive demands (start log (.start (Sandbox.prepared contexts extra) settings notes))
    List.Forall₂ (Answer.Like (Renumbered extra.length)) one.1 other.1 ∧
      Displaced extra one.2 other.2 := by
  intro notes one other
  let R := Sandbox.displacement extra.toArray
  let p : Playback Sandbox ObjectRef SandboxSnapshot :=
    start log (.start (Sandbox.fresh contexts) settings notes)
  have begins :
      start log (.start (Sandbox.prepared contexts extra) settings notes) = p.rename R := by
    rw [Sandbox.prepared_eq]
    rfl
  obtain ⟨answers, ended⟩ := drive_renamed R p demands
  refine ⟨?_, ?_⟩
  · rw [← begins] at answers
    exact answers
  · rw [← begins] at ended
    exact ended ▸ rename_displaced extra one.2

end Playback
end Retrace
