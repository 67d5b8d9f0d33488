import Mathlib.Data.Finset.Card
import Mathlib.Data.Nat.Find
import Retrace.Sandbox.Heap

/-!
# How far a chain of prototypes has to be followed

The heap follows a chain of prototypes over one object more than it has. This is enough: whatever is
on a chain at all is among so many objects (`Heap.chainWithin_bound`), since a chain that goes on
for longer comes back to where it was. So a larger bound finds nothing else, even in a heap in which
chains run in circles. In particular, objects that have nothing to do with a chain do not change
what is found on it, although they make the heap larger.
-/

namespace Retrace
namespace Heap

/-! ## Chains -/

def prototype? (h : Heap) (r : ObjectRef) : Option ObjectRef :=
  (h.object? r).bind HeapObject.prototype

/-- What a chain has at a place. -/
def onChain (h : Heap) (start : Option ObjectRef) : Nat → Option ObjectRef
  | 0 => start
  | i + 1 => (h.onChain start i).bind h.prototype?

/-- The first `bound` objects on a chain. -/
def chainWithin (h : Heap) : Nat → Option ObjectRef → List ObjectRef
  | 0, _ | _, none => []
  | bound + 1, some r => r :: h.chainWithin bound (h.prototype? r)

section Chains

variable {h : Heap} {start : Option ObjectRef}

@[simp] theorem chainWithin_none (h : Heap) (bound : Nat) : h.chainWithin bound none = [] := by
  cases bound <;> rfl

theorem onChain_succ_some (h : Heap) (r : ObjectRef) (i : Nat) :
    h.onChain (some r) (i + 1) = h.onChain (h.prototype? r) i := by
  induction i with
  | zero => rfl
  | succ i ih => rw [onChain, ih, onChain]

theorem mem_chainWithin {bound : Nat} {r : ObjectRef} :
    r ∈ h.chainWithin bound start ↔ ∃ i < bound, h.onChain start i = some r := by
  induction bound generalizing start with
  | zero => simp [chainWithin]
  | succ bound ih =>
    cases start with
    | none =>
      have never (i : Nat) : h.onChain none i = none := by
        induction i with
        | zero => rfl
        | succ i ih => rw [onChain, ih]; rfl
      simp [never]
    | some first =>
      rw [chainWithin, List.mem_cons, ih]
      constructor
      · rintro (rfl | ⟨i, less, there⟩)
        · exact ⟨0, Nat.succ_pos _, rfl⟩
        · exact ⟨i + 1, Nat.succ_lt_succ less, (onChain_succ_some h first i).trans there⟩
      · rintro ⟨i, less, there⟩
        cases i with
        | zero => exact Or.inl (Option.some.inj there).symm
        | succ i => exact Or.inr ⟨i, Nat.lt_of_succ_lt_succ less,
            (onChain_succ_some h first i).symm.trans there⟩

/-- What comes behind a place depends on what is there. -/
theorem onChain_add_of_eq {i j : Nat} (same : h.onChain start i = h.onChain start j) (m : Nat) :
    h.onChain start (i + m) = h.onChain start (j + m) := by
  induction m with
  | zero => exact same
  | succ m ih => rw [← Nat.add_assoc, ← Nat.add_assoc, onChain, onChain, ih]

/-- Before every object on a chain there are objects of the heap. -/
theorem onChain_before {i j : Nat} {r : ObjectRef} (there : h.onChain start i = some r)
    (less : j < i) : ∃ x, h.onChain start j = some x ∧ x.index < h.size := by
  induction i generalizing r with
  | zero => exact absurd less (Nat.not_lt_zero j)
  | succ i ih =>
    obtain ⟨x, before, next⟩ := Option.bind_eq_some_iff.1 there
    rcases Nat.lt_or_eq_of_le (Nat.le_of_lt_succ less) with earlier | rfl
    · exact ih before earlier
    · obtain ⟨o, isThere, -⟩ := Option.bind_eq_some_iff.1 next
      exact ⟨x, before, (Array.getElem?_eq_some_iff.1 isThere).1⟩

/-- **Whatever is on a chain comes early on it**: by so many objects as there are, or never. -/
theorem chainWithin_bound {bound : Nat} {r : ObjectRef} (mem : r ∈ h.chainWithin bound start) :
    r ∈ h.chainWithin (h.size + 1) start := by
  classical
  obtain ⟨i, -, there⟩ := mem_chainWithin.1 mem
  have some_place : ∃ i, h.onChain start i = some r := ⟨i, there⟩
  refine mem_chainWithin.2 ⟨Nat.find some_place, Nat.lt_succ_of_le ?_, Nat.find_spec some_place⟩
  generalize first : Nat.find some_place = n
  have there : h.onChain start n = some r := first ▸ Nat.find_spec some_place
  -- up to the first place of `r` nothing comes twice, or `r` would have come earlier
  have distinct {a b : Nat} (less : a < b) (le : b ≤ n) :
      h.onChain start a ≠ h.onChain start b := by
    intro same
    have earlier := onChain_add_of_eq same (n - b)
    rw [Nat.add_sub_cancel' le, there] at earlier
    exact Nat.find_min some_place (by omega) earlier
  let place (j : Nat) : Nat := ((h.onChain start j).map ObjectRef.index).getD 0
  have inside : ∀ j ∈ Finset.range n, place j ∈ Finset.range h.size := by
    intro j less
    obtain ⟨x, isThere, less⟩ := onChain_before there (Finset.mem_range.1 less)
    simpa [place, isThere] using less
  have injective : Set.InjOn place (Finset.range n) := by
    intro a ha b hb same
    obtain ⟨x, isX, -⟩ := onChain_before there (Finset.mem_range.1 ha)
    obtain ⟨y, isY, -⟩ := onChain_before there (Finset.mem_range.1 hb)
    have same : x = y := by
      have same : x.index = y.index := by simpa [place, isX, isY] using same
      cases x
      cases y
      exact congrArg ObjectRef.mk same
    rcases Nat.lt_trichotomy a b with less | rfl | more
    · have within : b ≤ n := Nat.le_of_lt (Finset.mem_range.1 hb)
      exact absurd (isX.trans (same ▸ isY.symm)) (distinct less within)
    · rfl
    · have within : a ≤ n := Nat.le_of_lt (Finset.mem_range.1 ha)
      exact absurd (isY.trans (same ▸ isX.symm)) (distinct more within)
  simpa using Finset.card_le_card_of_injOn place inside injective

theorem chainWithin_add (h : Heap) (start : Option ObjectRef) (bound more : Nat) :
    h.chainWithin bound start <+: h.chainWithin (bound + more) start := by
  induction bound generalizing start with
  | zero => exact List.nil_prefix
  | succ bound ih =>
    cases start with
    | none => simp
    | some r =>
      rw [Nat.succ_add, chainWithin, chainWithin]
      exact (List.prefix_cons_inj r).2 (ih (h.prototype? r))

end Chains

/-! ## Searching a chain -/

/-- Goes through objects until a visit has a result. -/
def search {α : Type} (visit : ObjectRef → Except Fault (Option α)) (otherwise : α) :
    List ObjectRef → Except Fault α
  | [] => .ok otherwise
  | r :: rest =>
    match visit r with
    | .error fault => .error fault
    | .ok (some a) => .ok a
    | .ok none => search visit otherwise rest

section Search

variable {α : Type} {visit : ObjectRef → Except Fault (Option α)} {otherwise : α}

theorem search_of_silent {rs : List ObjectRef} (silent : ∀ r ∈ rs, visit r = .ok none)
    (more : List ObjectRef) :
    search visit otherwise (rs ++ more) = search visit otherwise more := by
  induction rs with
  | nil => rfl
  | cons r rs ih =>
    rw [List.cons_append, search, silent r List.mem_cons_self]
    exact ih fun r' mem => silent r' (List.mem_cons_of_mem r mem)

theorem search_of_found {rs : List ObjectRef} (found : ¬ ∀ r ∈ rs, visit r = .ok none)
    (more : List ObjectRef) : search visit otherwise (rs ++ more) = search visit otherwise rs := by
  induction rs with
  | nil => exact absurd (by simp) found
  | cons r rs ih =>
    rw [List.cons_append, search, search]
    cases here : visit r with
    | error fault => rfl
    | ok result =>
      cases result with
      | some a => rfl
      | none =>
        refine ih fun silent => found fun r' mem => ?_
        rcases List.mem_cons.1 mem with rfl | later
        · exact here
        · exact silent r' later

/-- Visiting again what was visited changes nothing. -/
theorem search_append_of_subset {rs more : List ObjectRef} (known : ∀ r ∈ more, r ∈ rs) :
    search visit otherwise (rs ++ more) = search visit otherwise rs := by
  by_cases silent : ∀ r ∈ rs, visit r = .ok none
  · have again : ∀ r ∈ more, visit r = .ok none := fun r mem => silent r (known r mem)
    have nothing (rs : List ObjectRef) (silent : ∀ r ∈ rs, visit r = .ok none) :
        search visit otherwise rs = .ok otherwise := by
      have ended : search visit otherwise (rs ++ []) = search visit otherwise [] :=
        search_of_silent silent []
      rwa [List.append_nil] at ended
    rw [search_of_silent silent, nothing more again, nothing rs silent]
  · exact search_of_found silent more

/-- **Past the bound of the heap, a search along a chain finds nothing new.** -/
theorem search_chain (h : Heap) (start : Option ObjectRef) (more : Nat) :
    search visit otherwise (h.chainWithin (h.size + 1 + more) start) =
      search visit otherwise (h.chainWithin (h.size + 1) start) := by
  obtain ⟨rest, split⟩ := h.chainWithin_add start (h.size + 1) more
  rw [← split]
  refine search_append_of_subset fun r mem => ?_
  have longer : r ∈ h.chainWithin (h.size + 1 + more) start :=
    split ▸ List.mem_append_right _ mem
  exact chainWithin_bound longer

end Search

/-! ## Properties and circles -/

/-- What an object has for a property. -/
def propertyAt (h : Heap) (property : PropertyId) (r : ObjectRef) :
    Except Fault (Option (Value ObjectRef)) :=
  (h.get r).map fun o => o.properties.get? property

/-- Whether an object is the one that is looked for. -/
def targetAt (h : Heap) (target r : ObjectRef) : Except Fault (Option Bool) :=
  if r = target then .ok (some true) else (h.get r).map fun _ => none

theorem lookupWithin_eq_search (h : Heap) (property : PropertyId) (bound : Nat)
    (start : Option ObjectRef) : h.lookupWithin property bound start =
      search (h.propertyAt property) .null (h.chainWithin bound start) := by
  induction bound generalizing start with
  | zero => rfl
  | succ bound ih =>
    cases start with
    | none => rfl
    | some r =>
      rw [lookupWithin, chainWithin, search, propertyAt, prototype?, get]
      cases h.object? r with
      | none => rfl
      | some o =>
        have next := ih o.prototype
        simp only [Except.map, Option.bind_some, bind, Except.bind]
        cases o.properties.get? property with
        | none => exact next
        | some value => rfl

theorem reachesWithin_eq_search (h : Heap) (target : ObjectRef) (bound : Nat)
    (start : Option ObjectRef) : h.reachesWithin target bound start =
      search (h.targetAt target) false (h.chainWithin bound start) := by
  induction bound generalizing start with
  | zero => rfl
  | succ bound ih =>
    cases start with
    | none => rfl
    | some r =>
      rw [reachesWithin, chainWithin, search, targetAt, prototype?, get]
      split
      · rfl
      · cases h.object? r with
        | none => rfl
        | some o => exact ih o.prototype

/-- A property is found within the bound of the heap, or not at all. -/
theorem lookupWithin_add (h : Heap) (property : PropertyId) (start : Option ObjectRef)
    (more : Nat) : h.lookupWithin property (h.size + 1 + more) start =
      h.lookupWithin property (h.size + 1) start := by
  rw [lookupWithin_eq_search, lookupWithin_eq_search, search_chain]

/-- An object is met within the bound of the heap, or not at all. -/
theorem reachesWithin_add (h : Heap) (target : ObjectRef) (start : Option ObjectRef)
    (more : Nat) : h.reachesWithin target (h.size + 1 + more) start =
      h.reachesWithin target (h.size + 1) start := by
  rw [reachesWithin_eq_search, reachesWithin_eq_search, search_chain]

end Heap
end Retrace
