import Retrace.Source.Key

/-!
# Stores of sources

A `SourceStore` keeps texts under source keys. `MemoryStore` is the plain one, a map.
`RationedStore` puts a limit on how many texts another store may be given, after which it refuses;
what is in it stays readable.
-/

namespace Retrace

/-- A place where the texts of scripts are kept. -/
class SourceStore (σ : Type) where
  load : σ → SourceKey → Except SourceError String
  /-- Puts a text under a key, in the place of one that was there. A store may be changed also when
  it fails. -/
  save : SourceKey → String → EStateM SourceError σ Unit

/-- A store in memory. -/
structure MemoryStore where
  texts : OrderedMap SourceKey String
deriving DecidableEq, Repr

namespace MemoryStore

def empty : MemoryStore := ⟨.empty⟩

instance : Inhabited MemoryStore := ⟨empty⟩

def size (store : MemoryStore) : Nat := store.texts.size

def isEmpty (store : MemoryStore) : Bool := store.texts.isEmpty

instance : SourceStore MemoryStore where
  load store key :=
    match store.texts.get? key with
    | some text => .ok text
    | none => .error (.notFound key)
  save key text := modify fun store => ⟨store.texts.insert key text⟩

end MemoryStore

/-- A store that takes a limited number of texts. -/
structure RationedStore (σ : Type) where
  store : σ
  /-- How many more texts are taken. -/
  left : Nat
deriving DecidableEq, Repr

instance {σ : Type} [SourceStore σ] : SourceStore (RationedStore σ) where
  load rationed key := SourceStore.load rationed.store key
  save key text := fun rationed =>
    if rationed.left = 0 then .error (.notFound key) rationed
    else
      match SourceStore.save key text rationed.store with
      | .ok () store => .ok () ⟨store, rationed.left - 1⟩
      | .error e store => .error e ⟨store, rationed.left - 1⟩

end Retrace
