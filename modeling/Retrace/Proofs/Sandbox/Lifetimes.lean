import Retrace.Proofs.Sandbox.Lineage
import Retrace.Proofs.Sandbox.Operations

/-!
# The life of a sandbox

A sandbox is asked for one thing after the other, in any order and with any handles, also with such
as dangle; what fails, fails. Now and then it is captured, and put back into what it was when it was
captured. All that comes of this are heaps made by steps that keep a heap grounded
(`perform_moves`, `call_becomes`, `construct_becomes`), so every heap that there ever is is grounded
(`life_grounded`).

What this means for whoever uses the sandbox is `Orderly`: no link that the sandbox follows by
itself leads nowhere, no chain of prototypes comes back to where it was or is left early, and a
prototype is refused only for a reason.
-/

namespace Retrace
namespace Sandbox

open Heap (Becomes)

/-! ## Runs -/

theorem getProperty_run (r : ObjectRef) (property : PropertyId) (s : Sandbox) :
    getProperty r property s =
      (MonadExcept.ofExcept (s.heap.lookup r property) : SandboxM (Value ObjectRef)) s := rfl

theorem update_run (r : ObjectRef) (change : HeapObject → HeapObject) (s : Sandbox) :
    update r change s = match s.heap.object? r with
      | some o => .ok () { s with heap := s.heap.replace r (change o) }
      | none => .error ⟨s!"dangling handle {r}"⟩ s := by
  show (do let o ← MonadExcept.ofExcept (s.heap.get r)
           modify fun s => { s with heap := s.heap.replace r (change o) } : SandboxM Unit) s = _
  rw [Heap.get]
  cases s.heap.object? r <;> rfl

theorem setPrototype_run (r p : ObjectRef) (s : Sandbox) :
    setPrototype r (.ref p) s = match s.heap.reachesWithin r (s.heap.size + 1) (some p) with
      | .ok true => .error ⟨s!"prototype cycle through {r}"⟩ s
      | .ok false => update r (fun o => { o with prototype := some p }) s
      | .error fault => .error fault s := by
  show (do
      if ← MonadExcept.ofExcept (s.heap.reachesWithin r (s.heap.size + 1) (some p)) then
        fail s!"prototype cycle through {r}"
      update r fun o => { o with prototype := some p } : SandboxM Unit) s = _
  cases s.heap.reachesWithin r (s.heap.size + 1) (some p) with
  | error fault => rfl
  | ok reaches => cases reaches <;> rfl

/-! ## What operations do to the heap -/

section Operations

variable {α β : Type} {s t : Sandbox} {r : ObjectRef}

/-- What the operation does to the heap of a sandbox is what may be done. -/
def Moves (m : SandboxM α) (s : Sandbox) : Prop := ∀ a t, m s = .ok a t → Becomes s.heap t.heap

theorem Moves.bind {m : SandboxM α} {f : α → SandboxM β} (first : Moves m s)
    (rest : ∀ a t, m s = .ok a t → Moves (f a) t) : Moves (m >>= f) s := by
  intro b u ran
  obtain ⟨a, t, ran, further⟩ := ok_of_bind ran
  exact (first a t ran).trans (rest a t ran b u further)

theorem Looks.unchanged {m : SandboxM α} {a : α} (looks : Looks m) (ran : m s = .ok a t) :
    t = s := by
  rcases looks s with ⟨b, answered⟩ | ⟨fault, failed⟩
  · exact (EStateM.Result.ok.inj (answered.symm.trans ran)).2.symm
  · exact absurd (failed.symm.trans ran) (by simp)

theorem Looks.moves {m : SandboxM α} (looks : Looks m) : Moves m s :=
  fun _ _ ran => looks.unchanged ran ▸ .refl

/-- After looking, the sandbox is the same. -/
theorem Looks.bind_moves {m : SandboxM α} {f : α → SandboxM β} (looks : Looks m)
    (rest : ∀ a, m s = .ok a s → Moves (f a) s) : Moves (m >>= f) s := by
  refine looks.moves.bind fun a t ran => ?_
  obtain rfl := looks.unchanged ran
  exact rest a ran

theorem Moves.map {m : SandboxM α} (f : α → β) (moves : Moves m s) : Moves (f <$> m) s := by
  rw [map_eq_pure_bind]
  exact moves.bind fun a _ _ => (Looks.pure (f a)).moves

theorem get_eq_ok {o : HeapObject} (got : get r s = .ok o t) : s.heap.object? r = some o := by
  have ran : (MonadExcept.ofExcept (s.heap.get r) : SandboxM HeapObject) s = .ok o t := got
  rw [Heap.get] at ran
  cases there : s.heap.object? r with
  | none => rw [there] at ran; exact absurd ran (by simp [MonadExcept.ofExcept])
  | some p =>
    rw [there] at ran
    obtain ⟨rfl, -⟩ := EStateM.Result.ok.inj ran
    rfl

theorem get_moves {f : HeapObject → SandboxM β}
    (rest : ∀ o, s.heap.object? r = some o → Moves (f o) s) : Moves (get r >>= f) s :=
  (get_looks r).bind_moves fun o got => rest o (get_eq_ok got)

theorem allocate_moves {kind : ObjectKind}
    (view : ∀ buffer, kind = .typedArray buffer → s.heap.IsBuffer buffer) :
    Moves (allocate kind) s := by
  intro r t ran
  obtain ⟨-, rfl⟩ := EStateM.Result.ok.inj ran
  have unrooted (p : ObjectRef) : (HeapObject.bare kind).prototype ≠ some p := by
    simp [HeapObject.bare]
  exact .single (.allocate (.bare kind) (fun p rooted => absurd rooted (unrooted p)) view)

theorem update_moves {change : HeapObject → HeapObject}
    (step : ∀ o, s.heap.object? r = some o → s.heap.Step (s.heap.replace r (change o))) :
    Moves (update r change) s := by
  intro u t ran
  rw [update_run] at ran
  cases there : s.heap.object? r with
  | none => rw [there] at ran; exact absurd ran (by simp)
  | some o =>
    rw [there] at ran
    obtain ⟨-, rfl⟩ := EStateM.Result.ok.inj ran
    exact .single (step o there)

/-- Properties are of no account. -/
theorem properties_move {change : HeapObject → HeapObject}
    (kind : ∀ o, (change o).kind = o.kind) (prototype : ∀ o, (change o).prototype = o.prototype) :
    Moves (update r change) s :=
  update_moves fun o there => .replace there (.of_kind (kind o)) (prototype o)

theorem set_moves (r : ObjectRef) (property : PropertyId) (value : Value ObjectRef) :
    Moves (update r fun o => o.set property value) s :=
  properties_move (fun _ => rfl) fun _ => rfl

theorem toObject_moves (value : Value ObjectRef) : Moves (toObject value) s := by
  cases value with
  | ref r => exact get_moves fun _ _ => (Looks.pure r).moves
  | null => exact (Looks.fail _).moves
  | _ => exact allocate_moves (by simp)

theorem createSymbol_moves (description : Value ObjectRef) :
    Moves (createSymbol description) s := by
  cases description with
  | str | null => exact allocate_moves (by simp)
  | _ => exact (Looks.fail _).moves

theorem createArray_moves (length : UInt32) : Moves (createArray length) s := by
  unfold createArray
  split
  · exact (Looks.fail _).moves
  · exact allocate_moves (by simp)

/-- The array views the buffer that was made just before. -/
theorem createTypedArray_moves (length : UInt32) : Moves (createTypedArray length) s := by
  unfold createTypedArray
  split
  · exact (Looks.fail _).moves
  · refine (allocate_moves (by simp)).bind fun made t ran => allocate_moves fun buffer view => ?_
    obtain rfl := ObjectKind.typedArray.inj view
    obtain ⟨rfl, rfl⟩ := EStateM.Result.ok.inj ran
    exact s.heap.allocate_isBuffer _

theorem createTypedArray_atomic (length : UInt32) : Atomic (createTypedArray length) := by
  unfold createTypedArray
  split
  · exact (Looks.fail _).atomic
  · exact (allocate_atomic _).bind fun _ _ => ⟨_, _, rfl⟩

theorem ownPropertyDescriptor_moves (r : ObjectRef) (property : PropertyId) :
    Moves (ownPropertyDescriptor r property) s := by
  refine get_moves fun o _ => ?_
  cases o.properties.get? property with
  | none => exact (Looks.pure _).moves
  | some value =>
    refine (allocate_moves (by simp)).bind fun descriptor t _ => ?_
    exact (set_moves descriptor descriptorValue value).bind fun _ _ _ => (Looks.pure _).moves

theorem ownPropertyKeys_moves (r : ObjectRef) (names : Bool) :
    Moves (ownPropertyKeys r names) s :=
  get_moves fun _ _ => allocate_moves (by simp)

theorem defineProperty_moves (r : ObjectRef) (property : PropertyId)
    (descriptor : Value ObjectRef) : Moves (defineProperty r property descriptor) s := by
  unfold defineProperty
  cases descriptor.handle? with
  | none => exact (Looks.pure _).moves
  | some d =>
    have looked : Looks (EStateM.get : SandboxM Sandbox) := fun s => Or.inl ⟨s, rfl⟩
    exact looked.bind_moves fun u _ => (set_moves r property _).bind fun _ _ _ =>
      (Looks.pure _).moves

theorem deleteProperty_moves (r : ObjectRef) (property : PropertyId) :
    Moves (deleteProperty r property) s := by
  have erased : Moves (update r fun o => { o with properties := o.properties.erase property }) s :=
    properties_move (fun _ => rfl) fun _ => rfl
  exact get_moves fun _ _ => erased.bind fun _ _ _ => (Looks.pure _).moves

/-- A new prototype is one on whose chain the object was looked for and not found. -/
theorem setPrototype_moves (r : ObjectRef) (prototype : Value ObjectRef) :
    Moves (setPrototype r prototype) s := by
  cases prototype with
  | null => exact update_moves fun o there => .unlink there
  | ref p =>
    intro u t ran
    rw [setPrototype_run] at ran
    cases search : s.heap.reachesWithin r (s.heap.size + 1) (some p) with
    | error fault => rw [search] at ran; exact absurd ran (by simp)
    | ok reaches =>
      rw [search] at ran
      cases reaches with
      | true => exact absurd ran (by simp)
      | false => exact update_moves (fun o there => .link there search) u t ran
  | _ => exact (Looks.fail _).moves

/-- An array stays an array, and a buffer a buffer. -/
theorem setIndex_moves (r : ObjectRef) (at_ value : Value ObjectRef) :
    Moves (setIndex r at_ value) s := by
  refine (Looks.ofExcept _).bind_moves fun i _ => get_moves fun o there => ?_
  cases kind : o.kind with
  | array items =>
    have stays : Moves (update r fun o =>
        { o with kind := .array (withElement items i.toNat value) }) s := by
      refine update_moves fun p at_r => .replace at_r ⟨by simp, fun bytes buffer => ?_⟩ rfl
      obtain rfl := Option.some.inj (there.symm.trans at_r)
      exact absurd (kind.symm.trans buffer) (by simp)
    dsimp only
    split
    · exact (Looks.fail _).bind_moves fun _ _ => stays
    · exact stays
  | arrayBuffer bytes =>
    have stays : Moves (update r fun o =>
        { o with kind := .arrayBuffer (bytes.setIfInBounds i.toNat (byteOf value)) }) s :=
      update_moves fun p at_r => .replace at_r ⟨by simp, fun _ _ => ⟨_, rfl⟩⟩ rfl
    dsimp only
    split
    · exact (Looks.fail _).bind_moves fun _ _ => stays
    · exact stays
  | _ => exact set_moves r _ value

/-- **A request does to the heap what may be done to it.** -/
theorem perform_moves (request : Request ObjectRef) : Moves (perform request) s := by
  have null {m : SandboxM Unit} (moves : Moves m s) :
      Moves (do m; return Value.null : SandboxM (Value ObjectRef)) s :=
    moves.bind fun _ _ _ => (Looks.pure _).moves
  cases request with
  | toObject value => exact (toObject_moves value).map _
  | createSymbol description => exact (createSymbol_moves description).map _
  | createObject regular => exact (allocate_moves (by simp)).map _
  | createArray length => exact (createArray_moves length).map _
  | createArrayBuffer bytes => exact (allocate_moves (by simp)).map _
  | createFunction name => exact (allocate_moves (by simp)).map _
  | getProperty object property => exact (getProperty_looks object property).moves
  | getIndex object index => exact (getIndex_looks object index).moves
  | ownPropertyDescriptor object property => exact ownPropertyDescriptor_moves object property
  | ownPropertyKeys object names => exact (ownPropertyKeys_moves object names).map _
  | defineProperty object property descriptor =>
    exact (defineProperty_moves object property descriptor).map _
  | deleteProperty object property _ => exact (deleteProperty_moves object property).map _
  | setPrototype object prototype => exact null (setPrototype_moves object prototype)
  | setProperty object property value _ => exact null (set_moves object property value)
  | setIndex object index value => exact null (setIndex_moves object index value)
  | typedArrayBuffer object _ => exact (typedArrayBuffer_looks object).moves.map _
  | loadScript script => exact (allocate_moves (by simp)).map _

/-! ## Calls -/

theorem invoke_becomes (behaviour : Behaviour) (args : List (Value ObjectRef)) (s : Sandbox) :
    Becomes s.heap (invoke behaviour args s).2.heap := by
  cases behaviour with
  | nothing | echo | throws message | terminates => exact .refl
  | newObject =>
    have moves : Moves (allocate (.plain true)) s := allocate_moves (by simp)
    exact moves _ _ rfl
  | typedArray length =>
    unfold invoke
    dsimp only
    cases ran : createTypedArray length s with
    | ok r t => exact createTypedArray_moves length r t ran
    | error fault t => rw [createTypedArray_atomic length s fault t ran]

theorem call_becomes (function : ObjectRef) (args : List (Value ObjectRef)) (s : Sandbox) :
    Becomes s.heap (call function args s).2.heap := by
  unfold call
  split
  · exact .refl
  · -- what is counted and noted of a call is not on the heap
    rename_i behaviour source _
    dsimp only
    generalize some (Statement.mk (s.calls + 1) 0 1 0 _) = lastStatement
    exact invoke_becomes behaviour args { s with calls := s.calls + 1, lastStatement }

theorem constructed_kind (function : ObjectRef) (args : List (Value ObjectRef)) :
    (constructed function args).kind = .plain true := by
  have kept (pairs : List (Value ObjectRef × Nat)) (o : HeapObject) :
      (pairs.foldl (fun o arg => o.set ⟨UInt32.ofNat arg.2⟩ arg.1) o).kind = o.kind := by
    induction pairs generalizing o with
    | nil => rfl
    | cons pair pairs ih => exact ih _
  exact kept args.zipIdx _

/-- A function that constructs is there, to be the prototype of what it constructs. -/
theorem construct_becomes (function : ObjectRef) (args : List (Value ObjectRef)) (s : Sandbox) :
    Becomes s.heap (construct function args s).2.heap := by
  unfold construct
  split
  · exact .refl
  · exact invoke_becomes _ args s
  · exact invoke_becomes _ args s
  · rename_i known
    have there : ∃ o, s.heap.object? function = some o := by
      cases at_function : s.heap.object? function with
      | none => rw [function?, at_function] at known; exact absurd known (by simp)
      | some o => exact ⟨o, rfl⟩
    refine .single (.allocate _ (fun p rooted => ?_) fun buffer view => ?_)
    · obtain rfl : function = p := Option.some.inj rooted
      exact there
    · rw [constructed_kind] at view
      exact absurd view (by simp)

end Operations

/-! ## Lives -/

/-- What a sandbox can be told. -/
inductive Instruction where
  | enter (context : Context)
  | perform (request : Request ObjectRef)
  | createTypedArray (length : UInt32)
  | call (function : ObjectRef) (args : List (Value ObjectRef))
  | construct (function : ObjectRef) (args : List (Value ObjectRef))
  | capture
  /-- Back to what was captured, if there were so many captures before. -/
  | restore (earlier : Nat)

/-- A sandbox, with what was captured of it. -/
structure Life where
  sandbox : Sandbox
  captured : List SandboxSnapshot

/-- The sandbox after an operation, whether that failed or not. -/
def after {α : Type} : EStateM.Result Fault Sandbox α → Sandbox
  | .ok _ s | .error _ s => s

def Life.follow (life : Life) : Instruction → Life
  | .enter context => { life with sandbox := after (enter context life.sandbox) }
  | .perform request => { life with sandbox := after (perform request life.sandbox) }
  | .createTypedArray length =>
    { life with sandbox := after (Sandbox.createTypedArray length life.sandbox) }
  | .call function args => { life with sandbox := (call function args life.sandbox).2 }
  | .construct function args => { life with sandbox := (construct function args life.sandbox).2 }
  | .capture => { life with captured := life.captured ++ [life.sandbox.snapshot] }
  | .restore earlier =>
    match life.captured[earlier]? with
    | some snapshot => { life with sandbox := life.sandbox.restored snapshot }
    | none => life

def life (contexts : Option (List Context)) (instructions : List Instruction) : Life :=
  instructions.foldl Life.follow ⟨fresh contexts, []⟩

/-- All heaps there are of a sandbox are grounded, be it now or in a capture. -/
structure Life.Grounded (life : Life) : Prop where
  now : life.sandbox.heap.Grounded
  captured : ∀ snapshot ∈ life.captured, snapshot.heap.Grounded

section Lives

variable {l : Life} {α : Type}

theorem Life.Grounded.becomes (grounded : l.Grounded) {s : Sandbox}
    (becomes : Becomes l.sandbox.heap s.heap) : { l with sandbox := s }.Grounded :=
  ⟨becomes.grounded grounded.now, grounded.captured⟩

/-- What fails has changed nothing. -/
theorem Moves.after {m : SandboxM α} {s : Sandbox} (moves : Moves m s) (atomic : Atomic m) :
    Becomes s.heap (after (m s)).heap := by
  cases ran : m s with
  | ok a t => exact moves a t ran
  | error fault t => rw [atomic s fault t ran]; exact .refl

theorem enter_becomes (context : Context) (s : Sandbox) :
    Becomes s.heap (after (enter context s)).heap := by
  rw [enter_run]
  split <;> exact .refl

theorem Life.Grounded.follow (grounded : l.Grounded) (instruction : Instruction) :
    (l.follow instruction).Grounded := by
  cases instruction with
  | enter context => exact grounded.becomes (enter_becomes context l.sandbox)
  | perform request =>
    exact grounded.becomes ((perform_moves request).after (perform_atomic request))
  | createTypedArray length =>
    exact grounded.becomes ((createTypedArray_moves length).after (createTypedArray_atomic length))
  | call function args => exact grounded.becomes (call_becomes function args l.sandbox)
  | construct function args => exact grounded.becomes (construct_becomes function args l.sandbox)
  | capture =>
    refine ⟨grounded.now, fun snapshot mem => ?_⟩
    rcases List.mem_append.1 mem with before | new
    · exact grounded.captured snapshot before
    · exact List.mem_singleton.1 new ▸ grounded.now
  | restore earlier =>
    unfold Life.follow
    dsimp only
    split
    · rename_i snapshot found
      exact ⟨grounded.captured snapshot (List.mem_of_getElem? found), grounded.captured⟩
    · exact grounded

/-- **Every heap that there ever is is grounded.** -/
theorem life_grounded (contexts : Option (List Context)) (instructions : List Instruction) :
    (life contexts instructions).Grounded := by
  have fresh : Life.Grounded ⟨fresh contexts, []⟩ :=
    ⟨Heap.empty_grounded, fun _ mem => absurd mem List.not_mem_nil⟩
  unfold life
  generalize Life.mk (Sandbox.fresh contexts) [] = l at fresh
  induction instructions generalizing l with
  | nil => exact fresh
  | cons instruction instructions ih => exact ih _ (fresh.follow instruction)

end Lives

/-! ## What a sandbox can be relied on for -/

/-- What holds of a sandbox whose heap is grounded. -/
structure Orderly (s : Sandbox) : Prop where
  prototypes : ∀ r o p, s.heap.object? r = some o → o.prototype = some p →
    ∃ o', s.heap.object? p = some o'
  views : ∀ r o buffer, s.heap.object? r = some o → o.kind = .typedArray buffer →
    s.heap.IsBuffer buffer
  not_circular : ¬ s.heap.Circular
  /-- A look-up goes along the whole chain, and takes the first that is there. -/
  lookup : ∀ r o, s.heap.object? r = some o → ∃ rs, s.heap.Chain (some r) rs ∧ ∀ property,
    getProperty r property s =
      .ok ((rs.findSome? fun q => s.heap.ownProperty? q property).getD .null) s
  /-- A prototype is refused if one of the two is no object, or the link would close a circle. -/
  refuses : ∀ r v, (∃ fault t, setPrototype r v s = .error fault t) ↔
    s.heap.object? r = none ∨ (v ≠ .null ∧ v.handle? = none) ∨
      ∃ p, v = .ref p ∧ (s.heap.object? p = none ∨ (s.heap.linked r p).Circular)

section Grounded

variable {s : Sandbox} {r p : ObjectRef} {o : HeapObject}

theorem update_refuses (r : ObjectRef) (change : HeapObject → HeapObject) (s : Sandbox) :
    (∃ fault t, update r change s = .error fault t) ↔ s.heap.object? r = none := by
  rw [update_run]
  cases s.heap.object? r <;> simp

/-- **A link is refused if and only if it would close a circle**, or one of its ends is missing. -/
theorem link_refuses (grounded : s.heap.Grounded) (r p : ObjectRef) :
    (∃ fault t, setPrototype r (.ref p) s = .error fault t) ↔
      s.heap.object? r = none ∨ s.heap.object? p = none ∨ (s.heap.linked r p).Circular := by
  rw [setPrototype_run]
  cases at_p : s.heap.object? p with
  | none =>
    -- the search meets the object itself there, or nothing
    refine iff_of_true ?_ (Or.inr (Or.inl rfl))
    cases search : s.heap.reachesWithin r (s.heap.size + 1) (some p) with
    | error fault => exact ⟨fault, s, rfl⟩
    | ok reaches =>
      cases reaches with
      | true => exact ⟨_, s, rfl⟩
      | false =>
        obtain ⟨o, there⟩ := Heap.reachesWithin_begins search
        exact absurd (at_p.symm.trans there) (by simp)
  | some o' =>
    obtain ⟨qs, chain⟩ := grounded.chains p o' at_p
    have all : qs.length ≤ s.heap.size + 1 := Nat.le_succ_of_le chain.length_le
    rw [chain.reachesWithin r all]
    cases at_r : s.heap.object? r with
    | none =>
      have apart : r ∉ qs := fun mem => by
        obtain ⟨o, there⟩ := chain.there mem
        exact absurd (at_r.symm.trans there) (by simp)
      simp only [apart, decide_false, update_refuses, at_r, true_or]
    | some o =>
      have circle := grounded.linked_circular at_r chain
      by_cases mem : r ∈ qs
      · simp [mem, circle]
      · simp [mem, circle, update_refuses, at_r]

/-- **A sandbox with a grounded heap can be relied on.** -/
theorem orderly_of_grounded (grounded : s.heap.Grounded) : s.Orderly where
  prototypes _ _ _ there prototype := grounded.prototype_there there prototype
  views := grounded.views
  not_circular := grounded.not_circular
  lookup r o there := by
    obtain ⟨rs, chain⟩ := grounded.chains r o there
    refine ⟨rs, chain, fun property => ?_⟩
    rw [getProperty_run, Heap.lookup, chain.lookupWithin (Nat.le_succ_of_le chain.length_le)]
    rfl
  refuses r v := by
    cases v with
    | null =>
      have refused := update_refuses r (fun o => { o with prototype := none }) s
      simp only [setPrototype, refused]
      simp
    | ref p => simp [link_refuses grounded, Value.handle?]
    | _ => simp [setPrototype, fail, Value.handle?]

end Grounded

/-- **Whatever a sandbox is told from the beginning, it stays orderly.** -/
theorem life_orderly (contexts : Option (List Context)) (instructions : List Instruction) :
    (life contexts instructions).sandbox.Orderly :=
  orderly_of_grounded (life_grounded contexts instructions).now

end Sandbox
end Retrace
