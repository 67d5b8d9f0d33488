import Mathlib.Logic.Relation
import Retrace.Proofs.Runs
import Retrace.Proofs.Sandbox.Prototypes

/-!
# Chains of prototypes that end

A chain that ends has every object once (`Heap.Chain.nodup`), so it is no longer than the heap, and
whoever follows it so far has followed it to its end: a look-up finds what the first object on the
chain has that has anything (`Heap.Chain.lookupWithin`).

A heap is *grounded* if all its chains end and all its typed arrays view a buffer that is there.
`Heap.Step` is what may be done to a heap at all. Only one way of changing it could close a circle,
and this is the one in which the chain is followed first, to see whether it leads back. So a
grounded heap stays grounded (`Heap.Step.grounded`).
-/

namespace Retrace
namespace Heap

variable {h h' : Heap} {start : Option ObjectRef} {r q : ObjectRef} {o o' : HeapObject}
variable {rs qs : List ObjectRef} {property : PropertyId} {bound : Nat}

/-- All objects on a chain of prototypes, up to one without a prototype. -/
inductive Chain (h : Heap) : Option ObjectRef → List ObjectRef → Prop where
  | ended : h.Chain none []
  | next {r : ObjectRef} {o : HeapObject} {rs : List ObjectRef} (there : h.object? r = some o)
    (rest : h.Chain o.prototype rs) : h.Chain (some r) (r :: rs)

/-- Some object is on the chain of its own prototype. -/
def Circular (h : Heap) : Prop := ∃ r n, 0 < n ∧ h.onChain (some r) n = some r

def IsBuffer (h : Heap) (r : ObjectRef) : Prop :=
  ∃ o bytes, h.object? r = some o ∧ o.kind = .arrayBuffer bytes

/-- Every chain of prototypes ends, and every typed array views a buffer. -/
structure Grounded (h : Heap) : Prop where
  chains : ∀ r o, h.object? r = some o → ∃ rs, h.Chain (some r) rs
  views : ∀ r o buffer, h.object? r = some o → o.kind = .typedArray buffer → h.IsBuffer buffer

/-! ## Chains -/

theorem Chain.unique (chain : h.Chain start rs) (chain' : h.Chain start qs) : rs = qs := by
  induction chain generalizing qs with
  | ended => cases chain'; rfl
  | next there rest ih =>
    cases chain' with
    | next there' rest' =>
      obtain rfl := Option.some.inj (there.symm.trans there')
      rw [ih rest']

/-- What is behind an object on a chain is the chain from there. -/
theorem Chain.behind (chain : h.Chain start rs) (mem : r ∈ rs) :
    ∃ qs, h.Chain (some r) qs ∧ qs.length ≤ rs.length := by
  induction chain with
  | ended => exact absurd mem List.not_mem_nil
  | next there rest ih =>
    rcases List.mem_cons.1 mem with rfl | later
    · exact ⟨_, .next there rest, Nat.le_refl _⟩
    · obtain ⟨qs, further, shorter⟩ := ih later
      exact ⟨qs, further, Nat.le_succ_of_le shorter⟩

theorem Chain.there (chain : h.Chain start rs) (mem : r ∈ rs) : ∃ o, h.object? r = some o := by
  obtain ⟨_, from_there, -⟩ := chain.behind mem
  cases from_there with
  | next there _ => exact ⟨_, there⟩

/-- An object is not on the chain of its prototype: the chain from there would be as long as a part
    of it. -/
theorem Chain.not_mem (there : h.object? r = some o) (rest : h.Chain o.prototype rs) : r ∉ rs := by
  intro mem
  obtain ⟨qs, again, shorter⟩ := rest.behind mem
  rw [again.unique (.next there rest)] at shorter
  exact absurd shorter (by simp)

theorem Chain.nodup (chain : h.Chain start rs) : rs.Nodup := by
  induction chain with
  | ended => exact List.nodup_nil
  | next there rest ih => exact List.nodup_cons.2 ⟨rest.not_mem there, ih⟩

/-- **A chain that ends is no longer than the heap.** -/
theorem Chain.length_le (chain : h.Chain start rs) : rs.length ≤ h.size := by
  have distinct : (rs.map ObjectRef.index).Nodup :=
    chain.nodup.map fun r q same => by cases r; cases q; exact congrArg ObjectRef.mk same
  have inside : rs.map ObjectRef.index ⊆ List.range h.size := by
    intro i mem
    obtain ⟨r, onChain, rfl⟩ := List.mem_map.1 mem
    obtain ⟨o, there⟩ := chain.there onChain
    exact List.mem_range.2 (Array.getElem?_eq_some_iff.1 there).1
  simpa using (distinct.subperm inside).length_le

theorem Chain.onChain (chain : h.Chain start rs) (n : Nat) : h.onChain start n = rs[n]? := by
  induction chain generalizing n with
  | ended =>
    induction n with
    | zero => rfl
    | succ n ih => rw [Heap.onChain, ih]; rfl
  | next there rest ih =>
    cases n with
    | zero => rfl
    | succ n =>
      rw [onChain_succ_some, prototype?, there, Option.bind_some, ih, List.getElem?_cons_succ]

/-- The look-up finds what the first object has that has the property. -/
theorem Chain.lookupWithin (chain : h.Chain start rs) (enough : rs.length ≤ bound) :
    h.lookupWithin property bound start =
      .ok ((rs.findSome? fun r => h.ownProperty? r property).getD .null) := by
  induction chain generalizing bound with
  | ended => cases bound <;> rfl
  | next there rest ih =>
    obtain ⟨bound, rfl⟩ := Nat.exists_eq_add_of_le' (Nat.lt_of_lt_of_le (Nat.succ_pos _) enough)
    have further := ih (Nat.le_of_succ_le_succ enough)
    rw [Heap.lookupWithin, Heap.get, there, List.findSome?_cons, ownProperty?, there]
    simp only [Option.bind_some, bind, Except.bind]
    split
    · rename_i value found
      rw [found]
      rfl
    · rename_i absent
      rw [absent]
      exact further

theorem Chain.reachesWithin (chain : h.Chain start rs) (target : ObjectRef)
    (enough : rs.length ≤ bound) :
    h.reachesWithin target bound start = .ok (decide (target ∈ rs)) := by
  induction chain generalizing bound with
  | ended => cases bound <;> rfl
  | @next r o rs there rest ih =>
    obtain ⟨bound, rfl⟩ := Nat.exists_eq_add_of_le' (Nat.lt_of_lt_of_le (Nat.succ_pos _) enough)
    have further := ih (Nat.le_of_succ_le_succ enough)
    rw [Heap.reachesWithin, Heap.get, there]
    by_cases same : r = target
    · simp [same]
    · have other : target ≠ r := fun h => same h.symm
      simp only [same, if_false, bind, Except.bind, further, List.mem_cons, other, false_or]

/-- A search that came to its end began somewhere. -/
theorem reachesWithin_begins (missed : h.reachesWithin r (bound + 1) (some q) = .ok false) :
    ∃ o, h.object? q = some o := by
  rw [Heap.reachesWithin] at missed
  split at missed
  · exact absurd (Except.ok.inj missed) (by simp)
  · obtain ⟨o, got, -⟩ := ok_of_bind_ok missed
    rw [Heap.get] at got
    cases at_q : h.object? q with
    | none => rw [at_q] at got; exact absurd got (by simp)
    | some o => exact ⟨o, rfl⟩

/-! ## Grounded heaps -/

theorem Grounded.not_circular (grounded : h.Grounded) : ¬ h.Circular := by
  rintro ⟨r, n, positive, back⟩
  obtain ⟨q, first, inside⟩ := onChain_before back positive
  obtain rfl : r = q := Option.some.inj first
  obtain ⟨rs, chain⟩ := grounded.chains r _ (Array.getElem?_eq_getElem inside)
  have again : rs[n]? = rs[0]? := by rw [← chain.onChain, ← chain.onChain, back]; rfl
  have there : n < rs.length := by
    rw [chain.onChain] at back
    exact (List.getElem?_eq_some_iff.1 back).1
  have same : n = 0 := (List.getElem?_inj there chain.nodup).1 again
  omega

theorem Grounded.prototype_there (grounded : h.Grounded) (there : h.object? r = some o)
    (prototype : o.prototype = some q) : ∃ o', h.object? q = some o' := by
  obtain ⟨rs, chain⟩ := grounded.chains r o there
  cases chain with
  | next there' rest =>
    obtain rfl := Option.some.inj (there.symm.trans there')
    rw [prototype] at rest
    cases rest with
    | next there _ => exact ⟨_, there⟩

/-! ## Changes -/

/-- Another object may take the place of one: it views no other buffer, and is one itself if that
    was one. -/
structure Replaces (o' o : HeapObject) : Prop where
  view : ∀ buffer, o'.kind = .typedArray buffer → o.kind = .typedArray buffer
  buffer : ∀ bytes, o.kind = .arrayBuffer bytes → ∃ bytes', o'.kind = .arrayBuffer bytes'

/-- What is done to a heap at once. -/
inductive Step (h : Heap) : Heap → Prop where
  | allocate (o : HeapObject)
    (rooted : ∀ p, o.prototype = some p → ∃ o', h.object? p = some o')
    (view : ∀ buffer, o.kind = .typedArray buffer → h.IsBuffer buffer) : h.Step (h.allocate o).2
  | replace {r : ObjectRef} {o o' : HeapObject} (there : h.object? r = some o)
    (replaces : Replaces o' o) (prototype : o'.prototype = o.prototype) :
    h.Step (h.replace r o')
  | unlink {r : ObjectRef} {o : HeapObject} (there : h.object? r = some o) :
    h.Step (h.replace r { o with prototype := none })
  | link {r p : ObjectRef} {o : HeapObject} (there : h.object? r = some o)
    (apart : h.reachesWithin r (h.size + 1) (some p) = .ok false) :
    h.Step (h.replace r { o with prototype := some p })

/-- What is done to a heap one after the other. -/
abbrev Becomes : Heap → Heap → Prop := Relation.ReflTransGen Step

theorem object?_allocate (h : Heap) (o : HeapObject) (r : ObjectRef) :
    (h.allocate o).2.object? r = if r.index = h.size then some o else h.object? r :=
  Array.getElem?_push

theorem allocate_there (there : h.object? r = some o) (new : HeapObject) :
    (h.allocate new).2.object? r = some o := by
  have inside : r.index < h.size := (Array.getElem?_eq_some_iff.1 there).1
  rw [object?_allocate, if_neg (Nat.ne_of_lt inside), there]

theorem allocate_isBuffer (h : Heap) (bytes : Array UInt8) :
    (h.allocate (.bare (.arrayBuffer bytes))).2.IsBuffer
      (h.allocate (.bare (.arrayBuffer bytes))).1 :=
  ⟨_, bytes, (object?_allocate h _ _).trans (if_pos rfl), rfl⟩

theorem object?_replace (there : h.object? r = some o) (o' : HeapObject) (q : ObjectRef) :
    (h.replace r o').object? q = if q = r then some o' else h.object? q := by
  have inside : r.index < h.objects.size := (Array.getElem?_eq_some_iff.1 there).1
  show (h.objects.setIfInBounds r.index o')[q.index]? = _
  by_cases same : q = r
  · simp [same, inside]
  · have other : r.index ≠ q.index := fun i => same (by cases q; cases r; exact congrArg _ i.symm)
    rw [Array.getElem?_setIfInBounds_ne other, if_neg same]
    rfl

/-- A chain stays, if its objects keep their prototypes. -/
theorem Chain.mono (chain : h.Chain start rs)
    (kept : ∀ r ∈ rs, ∀ o, h.object? r = some o →
      ∃ o', h'.object? r = some o' ∧ o'.prototype = o.prototype) : h'.Chain start rs := by
  induction chain with
  | ended => exact .ended
  | next there rest ih =>
    obtain ⟨o', there', same⟩ := kept _ List.mem_cons_self _ there
    exact .next there' (same ▸ ih fun r mem => kept r (List.mem_cons_of_mem _ mem))

theorem Chain.allocate (chain : h.Chain start rs) (o : HeapObject) :
    (h.allocate o).2.Chain start rs :=
  chain.mono fun _ _ _ there => ⟨_, allocate_there there o, rfl⟩

/-- A chain that an object is not on stays, whatever is done to the object. -/
theorem Chain.replace (chain : h.Chain start rs) (there : h.object? r = some o) (apart : r ∉ rs)
    (o' : HeapObject) : (h.replace r o').Chain start rs := by
  refine chain.mono fun q mem p at_q => ⟨p, ?_, rfl⟩
  have other : q ≠ r := fun same => apart (same ▸ mem)
  rw [object?_replace there, if_neg other, at_q]

/-- **Chains still end** where an object is given a prototype on whose chain it is not. -/
theorem Chain.relink (chain : h.Chain start rs) (there : h.object? r = some o)
    (new : h.Chain o'.prototype qs) (apart : r ∉ qs) : ∃ rs, (h.replace r o').Chain start rs := by
  induction chain with
  | ended => exact ⟨[], .ended⟩
  | @next q p rs at_q rest ih =>
    by_cases same : q = r
    · have at_q : (h.replace r o').object? q = some o' := by
        rw [object?_replace there, if_pos same]
      exact ⟨q :: qs, .next at_q (new.replace there apart o')⟩
    · obtain ⟨rs, further⟩ := ih
      have at_q : (h.replace r o').object? q = some p := by
        rw [object?_replace there, if_neg same, at_q]
      exact ⟨q :: rs, .next at_q further⟩

theorem Grounded.allocate (grounded : h.Grounded) (o : HeapObject)
    (rooted : ∀ p, o.prototype = some p → ∃ o', h.object? p = some o')
    (view : ∀ buffer, o.kind = .typedArray buffer → h.IsBuffer buffer) :
    (h.allocate o).2.Grounded := by
  have kept {b : ObjectRef} (buffer : h.IsBuffer b) : (h.allocate o).2.IsBuffer b := by
    obtain ⟨p, bytes, there, kind⟩ := buffer
    exact ⟨p, bytes, allocate_there there o, kind⟩
  constructor
  · intro r p there
    have at_r := there
    rw [object?_allocate] at at_r
    split at at_r
    · obtain rfl := Option.some.inj at_r
      cases prototype : o.prototype with
      | none => exact ⟨[r], .next there (prototype ▸ .ended)⟩
      | some q =>
        obtain ⟨o', at_q⟩ := rooted q prototype
        obtain ⟨rs, chain⟩ := grounded.chains q o' at_q
        exact ⟨r :: rs, .next there (prototype ▸ chain.allocate o)⟩
    · obtain ⟨rs, chain⟩ := grounded.chains r p at_r
      exact ⟨rs, chain.allocate o⟩
  · intro r p buffer there kind
    rw [object?_allocate] at there
    split at there
    · obtain rfl := Option.some.inj there
      exact kept (view buffer kind)
    · exact kept (grounded.views r p buffer there kind)

theorem Grounded.replace (grounded : h.Grounded) (there : h.object? r = some o)
    (replaces : Replaces o' o) (new : h.Chain o'.prototype qs) (apart : r ∉ qs) :
    (h.replace r o').Grounded := by
  have kept {b : ObjectRef} (buffer : h.IsBuffer b) : (h.replace r o').IsBuffer b := by
    obtain ⟨p, bytes, at_b, kind⟩ := buffer
    by_cases same : b = r
    · rw [same, there] at at_b
      obtain rfl := Option.some.inj at_b
      obtain ⟨bytes', kind'⟩ := replaces.buffer bytes kind
      exact ⟨o', bytes', by rw [object?_replace there, if_pos same], kind'⟩
    · exact ⟨p, bytes, by rw [object?_replace there, if_neg same, at_b], kind⟩
  constructor
  · intro q p at_q
    by_cases same : q = r
    · obtain ⟨rs, chain⟩ := grounded.chains r o there
      exact same ▸ chain.relink there new apart
    · rw [object?_replace there, if_neg same] at at_q
      obtain ⟨rs, chain⟩ := grounded.chains q p at_q
      exact chain.relink there new apart
  · intro q p buffer at_q kind
    rw [object?_replace there] at at_q
    split at at_q
    · obtain rfl := Option.some.inj at_q
      exact kept (grounded.views r o buffer there (replaces.view buffer kind))
    · exact kept (grounded.views q p buffer at_q kind)

theorem Replaces.of_kind (kind : o'.kind = o.kind) : Replaces o' o :=
  ⟨fun _ view => kind ▸ view, fun bytes buffer => ⟨bytes, kind.trans buffer⟩⟩

/-- **A grounded heap stays grounded**, whatever is done to it. -/
theorem Step.grounded (step : h.Step h') (grounded : h.Grounded) : h'.Grounded := by
  cases step with
  | allocate o rooted view => exact grounded.allocate o rooted view
  | @replace r o o' there replaces prototype =>
    obtain ⟨rs, chain⟩ := grounded.chains r o there
    cases chain with
    | next there' rest =>
      obtain rfl := Option.some.inj (there.symm.trans there')
      exact grounded.replace there replaces (prototype ▸ rest) (rest.not_mem there)
  | unlink there => exact grounded.replace there (.of_kind rfl) .ended List.not_mem_nil
  | @link r p o there apart =>
    obtain ⟨o', at_p⟩ := reachesWithin_begins apart
    obtain ⟨qs, chain⟩ := grounded.chains p o' at_p
    have all : qs.length ≤ h.size + 1 := Nat.le_succ_of_le chain.length_le
    rw [chain.reachesWithin r all] at apart
    exact grounded.replace there (.of_kind rfl) chain (of_decide_eq_false (Except.ok.inj apart))

theorem Becomes.grounded (becomes : h.Becomes h') (grounded : h.Grounded) : h'.Grounded := by
  induction becomes with
  | refl => exact grounded
  | tail _ last ih => exact last.grounded ih

theorem empty_grounded : empty.Grounded :=
  ⟨fun _ _ there => absurd there (by simp [object?, empty]),
    fun _ _ _ there => absurd there (by simp [object?, empty])⟩

/-! ## Closing a circle -/

/-- The heap in which an object has another one for its prototype. -/
def linked (h : Heap) (r p : ObjectRef) : Heap :=
  match h.object? r with
  | some o => h.replace r { o with prototype := some p }
  | none => h

theorem linked_eq (there : h.object? r = some o) (p : ObjectRef) :
    h.linked r p = h.replace r { o with prototype := some p } := by
  rw [linked, there]

theorem prototype?_linked (there : h.object? r = some o) (p q : ObjectRef) :
    (h.linked r p).prototype? q = if q = r then some p else h.prototype? q := by
  rw [linked_eq there, prototype?, object?_replace there]
  split <;> rfl

/-- Up to where the object is met, a chain is the same. -/
theorem onChain_linked (there : h.object? r = some o) (p : ObjectRef) {n : Nat}
    (before : ∀ i < n, h.onChain start i ≠ some r) :
    (h.linked r p).onChain start n = h.onChain start n := by
  induction n with
  | zero => rfl
  | succ n ih =>
    rw [onChain, onChain, ih fun i less => before i (Nat.lt_succ_of_lt less)]
    cases at_n : h.onChain start n with
    | none => rfl
    | some q =>
      have other : q ≠ r := fun same => before n (Nat.lt_succ_self n) (same ▸ at_n)
      rw [Option.bind_some, Option.bind_some, prototype?_linked there, if_neg other]

/-- **A link closes a circle if and only if the object is on the chain that it would begin.** -/
theorem Grounded.linked_circular (grounded : h.Grounded) (there : h.object? r = some o)
    (chain : h.Chain (some q) qs) : (h.linked r q).Circular ↔ r ∈ qs := by
  constructor
  · intro circular
    by_contra apart
    have stays : (h.replace r { o with prototype := some q }).Grounded :=
      grounded.replace there (.of_kind rfl) chain apart
    rw [← linked_eq there] at stays
    exact stays.not_circular circular
  · intro mem
    obtain ⟨n, less, at_n⟩ := List.mem_iff_getElem.1 mem
    refine ⟨r, n + 1, Nat.succ_pos n, ?_⟩
    -- from the object the way goes over the new link and then along the chain
    have first : (h.linked r q).onChain (some r) (n + 1) = (h.linked r q).onChain (some q) n := by
      rw [onChain_succ_some, prototype?_linked there, if_pos rfl]
    rw [first, onChain_linked there q, chain.onChain, List.getElem?_eq_getElem less, at_n]
    intro i earlier same
    rw [chain.onChain, ← at_n, ← List.getElem?_eq_getElem less] at same
    have equal : i = n := (List.getElem?_inj (Nat.lt_trans earlier less) chain.nodup).1 same
    omega

end Heap
end Retrace
