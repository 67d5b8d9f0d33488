import Retrace.Proofs.Source.Mirroring

/-!
# When files are as good as memory

A store of sources is used by saving and loading. Two stores are as good as each other where all
such calls get the same answers. In memory, a load is answered with the last text that was saved
under the same key (`MemoryStore.answers_behind`), so that no key has to do with another.

A directory store below an empty directory gives exactly the answers of a guarded store, whatever
the calls are (`DirectoryStore.answers_guarded`). So it is as good as memory until a call meets a
text that was saved before, in the one way in which keys can meet (`SourceCall.Obstructs`), and then
it is not. Keys that all have a directory never meet, and neither do keys that all have none.
-/

namespace Retrace

/-! ## Calls and answers -/

/-- What a store of sources is asked. -/
inductive SourceCall where
  | save (key : SourceKey) (text : String)
  | load (key : SourceKey)
deriving DecidableEq, Repr

namespace SourceCall

def key : SourceCall → SourceKey
  | save key _ => key
  | load key => key

section Stores

variable {σ τ : Type} [SourceStore σ] [SourceStore τ]

/-- Asks a store, which answers with a text if one is loaded. -/
def ask : SourceCall → σ → Except SourceError (Option String) × σ
  | save key text, store =>
    match SourceStore.save key text store with
    | .ok () next => (.ok none, next)
    | .error error next => (.error error, next)
  | load key, store => ((SourceStore.load store key).map some, store)

/-- The answers of a store that is asked one thing after the other, whatever it answers. -/
def answers : List SourceCall → σ → List (Except SourceError (Option String))
  | [], _ => []
  | call :: calls, store => (call.ask store).1 :: answers calls (call.ask store).2

/-- Stores that answer each call alike, and stay such stores, answer all calls alike. -/
theorem answers_congr {R : σ → τ → Prop} {calls : List SourceCall}
    (step : ∀ call ∈ calls, ∀ s t, R s t →
      (call.ask s).1 = (call.ask t).1 ∧ R (call.ask s).2 (call.ask t).2) {s : σ} {t : τ}
    (start : R s t) : answers calls s = answers calls t := by
  induction calls generalizing s t with
  | nil => rfl
  | cons call calls ih =>
    obtain ⟨first, rest⟩ := List.forall_mem_cons.1 step
    obtain ⟨same, next⟩ := first s t start
    rw [answers, answers, same, ih rest next]

end Stores

/-! ## Memory -/

/-- The text that a call saves under a key. -/
def savedUnder? (key : SourceKey) : SourceCall → Option String
  | save other text => if other = key then some text else none
  | load _ => none

/-- The last text that was saved under a key. -/
def lastSaved (done : List SourceCall) (key : SourceKey) : Option String :=
  done.reverse.findSome? (savedUnder? key)

theorem lastSaved_concat (done : List SourceCall) (call : SourceCall) (key : SourceKey) :
    lastSaved (done ++ [call]) key = (call.savedUnder? key).or (lastSaved done key) := by
  rw [lastSaved, List.reverse_append, List.reverse_singleton, List.singleton_append,
    List.findSome?_cons]
  cases call.savedUnder? key <;> rfl

/-- What is right to answer behind the calls that are done. -/
def answer (done : List SourceCall) : SourceCall → Except SourceError (Option String)
  | save _ _ => .ok none
  | load key =>
    match lastSaved done key with
    | some text => .ok (some text)
    | none => .error (.notFound key)

/-- What is right to answer to one call after the other. -/
def answersBehind (done : List SourceCall) : List SourceCall →
    List (Except SourceError (Option String))
  | [] => []
  | call :: calls => call.answer done :: answersBehind (done ++ [call]) calls

end SourceCall

open SourceCall (answers answersBehind lastSaved)

/-- What memory keeps, and what it answers, behind the calls that are done. -/
theorem MemoryStore.ask_behind {store : MemoryStore} {done : List SourceCall}
    (has : ∀ key, store.texts.get? key = lastSaved done key) (call : SourceCall) :
    (call.ask store).1 = call.answer done ∧
      ∀ key, (call.ask store).2.texts.get? key = lastSaved (done ++ [call]) key := by
  cases call with
  | save key text =>
    refine ⟨rfl, fun other => ?_⟩
    have next : ((SourceCall.save key text).ask store).2.texts = store.texts.insert key text := rfl
    rw [next, OrderedMap.get?_insert, SourceCall.lastSaved_concat, has]
    by_cases same : other = key
    · simp [SourceCall.savedUnder?, same]
    · simp [SourceCall.savedUnder?, same, Ne.symm same]
  | load key =>
    refine ⟨?_, fun other => ?_⟩
    · simp only [SourceCall.ask, SourceStore.load, SourceCall.answer, has]
      cases lastSaved done key <;> rfl
    · rw [SourceCall.lastSaved_concat]
      exact has other

theorem MemoryStore.answers_behind {store : MemoryStore} {done : List SourceCall}
    (has : ∀ key, store.texts.get? key = lastSaved done key) (calls : List SourceCall) :
    answers calls store = answersBehind done calls := by
  induction calls generalizing store done with
  | nil => rfl
  | cons call calls ih =>
    obtain ⟨here, kept⟩ := MemoryStore.ask_behind has call
    rw [answers, answersBehind, here, ih kept]

/-! ## Guarded memory -/

/-- A saved text is in the way of a call, or has the call's text in its own way. -/
def SourceCall.Obstructs : SourceCall → SourceCall → Prop
  | save kept _, call => call.key.IsWithin kept ∨ kept.IsWithin call.key
  | load _, _ => False

instance (earlier later : SourceCall) : Decidable (earlier.Obstructs later) :=
  match earlier with
  | .save _ _ => inferInstanceAs (Decidable (_ ∨ _))
  | .load _ => inferInstanceAs (Decidable False)

namespace GuardedStore

/-- No kept text is in the way of a key, nor the other way round. -/
def Free (store : GuardedStore) (key : SourceKey) : Prop := ¬ store.Behind key ∧ ¬ store.Above key

theorem free_empty (root : Path) (key : SourceKey) : (empty root).Free key := by
  have none (kept : SourceKey) : kept ∉ (empty root).texts.keys := List.not_mem_nil
  exact ⟨fun ⟨kept, mem, _⟩ => none kept mem, fun ⟨kept, mem, _⟩ => none kept mem⟩

theorem free_insert {store : GuardedStore} {key other : SourceKey} {text : String} :
    ({ store with texts := store.texts.insert key text } : GuardedStore).Free other ↔
      store.Free other ∧ ¬ (other.IsWithin key ∨ key.IsWithin other) := by
  simp only [Free, Behind, Above, OrderedMap.mem_keys_insert, exists_eq_or_imp, not_or]
  exact ⟨fun ⟨⟨a, b⟩, c, d⟩ => ⟨⟨b, d⟩, a, c⟩, fun ⟨⟨b, d⟩, a, c⟩ => ⟨⟨a, b⟩, c, d⟩⟩

/-- The complaint about a file in the place of a directory. -/
def complaint (root : Path) : SourceCall → SourceError
  | .save key _ => .file (key.directoryPath root) .alreadyExists
  | .load key => .file (key.path root) .notADirectory

/-- Guarded memory is asked as memory is, unless a kept text is in the way. -/
theorem ask_eq (store : GuardedStore) (call : SourceCall) : call.ask store =
    if store.Behind call.key then (.error (complaint store.root call), store)
    else if store.Above call.key then
      (.error (.file (call.key.path store.root) .isADirectory), store)
    else
      let asked := call.ask (MemoryStore.mk store.texts)
      (asked.1, { store with texts := asked.2.texts }) := by
  by_cases behind : store.Behind call.key
  · rw [if_pos behind]
    cases call <;> simp only [SourceCall.key] at behind
    · simp only [SourceCall.ask, SourceStore.save, if_pos behind, complaint]
    · simp only [SourceCall.ask, SourceStore.load, if_pos behind, complaint, Except.map]
  by_cases above : store.Above call.key
  · rw [if_neg behind, if_pos above]
    cases call <;> simp only [SourceCall.key] at behind above
    · simp only [SourceCall.ask, SourceStore.save, if_neg behind, if_pos above, SourceCall.key]
    · simp only [SourceCall.ask, SourceStore.load, if_neg behind, if_pos above, Except.map,
        SourceCall.key]
  · rw [if_neg behind, if_neg above]
    cases call <;> simp only [SourceCall.key] at behind above
    · simp only [SourceCall.ask, SourceStore.save, if_neg behind, if_neg above]
      rfl
    · simp only [SourceCall.ask, SourceStore.load, if_neg behind, if_neg above]

section Asked

variable {store : GuardedStore} {call : SourceCall}

theorem ask_free (free : store.Free call.key) :
    (call.ask store).1 = (call.ask (MemoryStore.mk store.texts)).1 ∧
      (call.ask store).2.texts = (call.ask (MemoryStore.mk store.texts)).2.texts := by
  rw [ask_eq, if_neg free.1, if_neg free.2]
  exact ⟨rfl, rfl⟩

/-- A text that is in the way shows in the answer: memory has no files to complain about. -/
theorem ask_not_free (obstructed : ¬ store.Free call.key) :
    (call.ask store).1 ≠ (call.ask (MemoryStore.mk store.texts)).1 := by
  have complains : ∃ path fault, (call.ask store).1 = .error (.file path fault) := by
    rw [ask_eq]
    split
    · cases call <;> exact ⟨_, _, rfl⟩
    rename_i notBehind
    split
    · exact ⟨_, _, rfl⟩
    · rename_i notAbove
      exact absurd ⟨notBehind, notAbove⟩ obstructed
  obtain ⟨path, fault, same⟩ := complains
  rw [same]
  cases call with
  | save key text => simp [SourceCall.ask, SourceStore.save]
  | load key =>
    simp only [SourceCall.ask, SourceStore.load]
    cases store.texts.get? key <;> simp [Except.map]

theorem free_asked (free : store.Free call.key) (later : SourceCall) :
    (call.ask store).2.Free later.key ↔ store.Free later.key ∧ ¬ call.Obstructs later := by
  rw [ask_eq, if_neg free.1, if_neg free.2]
  cases call with
  | save key text => exact free_insert
  | load key => simp [SourceCall.ask, SourceCall.Obstructs]

end Asked

/-- Guarded memory answers as memory does exactly if no saved text is in the way of a later call. -/
theorem answers_eq_iff (store : GuardedStore) (calls : List SourceCall) :
    answers calls store = answers calls (MemoryStore.mk store.texts) ↔
      (∀ call ∈ calls, store.Free call.key) ∧
        calls.Pairwise fun earlier later => ¬ earlier.Obstructs later := by
  induction calls generalizing store with
  | nil => simp [answers]
  | cons call calls ih =>
    rw [List.forall_mem_cons, List.pairwise_cons, answers, answers, List.cons.injEq]
    by_cases free : store.Free call.key
    · obtain ⟨same, texts⟩ := ask_free free
      have next : MemoryStore.mk (call.ask store).2.texts =
          (call.ask (MemoryStore.mk store.texts)).2 := congrArg MemoryStore.mk texts
      rw [← next, ih]
      simp only [free_asked free]
      constructor
      · rintro ⟨-, later, apart⟩
        exact ⟨⟨free, fun other mem => (later other mem).1⟩, fun other mem => (later other mem).2,
          apart⟩
      · rintro ⟨⟨-, later⟩, here, apart⟩
        exact ⟨same, fun other mem => ⟨later other mem, here other mem⟩, apart⟩
    · exact iff_of_false (fun same => ask_not_free free same.1) fun all => free all.1.1

end GuardedStore

/-! ## Files -/

namespace DirectoryStore

/-- The root of a store leads to a directory with nothing in it. -/
def IsFresh (store : DirectoryStore) : Prop :=
  ∃ top, store.tree.walk (store.tree.start store.root) store.root.names = .ok top ∧
    store.tree.node? top = some .directory ∧
    ∀ names, names ≠ [] → store.tree.node? (top ++ names) = none

variable {store : DirectoryStore}

theorem IsFresh.mirrors (fresh : store.IsFresh) :
    ∃ top, Mirrors top store.tree (GuardedStore.empty store.root) := by
  obtain ⟨top, reached, isDirectory, nothing⟩ := fresh
  have root : store.tree.node? (top ++ []) = some .directory := by rwa [List.append_nil]
  have none (names : List String) (node : FileNode)
      (there : store.tree.node? (top ++ names) = some node) : names = [] := by
    refine Classical.byContradiction fun some_ => ?_
    rw [nothing names some_] at there
    exact absurd there (by simp)
  refine ⟨top, reached, fun names => ⟨fun there => Or.inl (none names _ there), ?_⟩, ?_, ?_⟩
  · rintro (rfl | ⟨kept, mem, -⟩)
    · exact root
    · exact absurd mem List.not_mem_nil
  · refine fun names content => ⟨fun there => ?_, fun ⟨kept, text, found, _⟩ => ?_⟩
    · obtain rfl := none names _ there
      exact absurd (root.symm.trans there) (by simp)
    · exact absurd found (by simp [GuardedStore.empty])
  · intro names there
    obtain rfl := none names _ there
    exact absurd (root.symm.trans there) (by simp)

theorem Keeps.asked {root : Path} {top : Place} {s : GuardedStore} (keeps : Keeps root top store s)
    {call : SourceCall} (fits : call.key.Fits root) :
    (call.ask store).1 = (call.ask s).1 ∧ Keeps root top (call.ask store).2 (call.ask s).2 := by
  obtain ⟨own, rfl, mirrors⟩ := keeps
  obtain ⟨root, tree⟩ := store
  obtain rfl : root = s.root := own
  have mirrors : Mirrors top tree s := mirrors
  cases call with
  | save key text =>
    have fits : key.Fits s.root := fits
    rcases (mirrors.save fits text).cases with
      ⟨_, d, _, s', left, right, -, next⟩ | ⟨_, d, _, s', left, right, rfl, next⟩
    · simp only [SourceCall.ask, left, right, true_and]
      exact next
    · simp only [SourceCall.ask, left, right, true_and]
      exact next
  | load key =>
    have same : SourceStore.load (DirectoryStore.mk s.root tree) key = SourceStore.load s key :=
      mirrors.loadFrom fits
    exact ⟨congrArg (Except.map some) same, rfl, rfl, mirrors⟩

/-- **Files are as good as guarded memory.** -/
theorem answers_guarded (fresh : store.IsFresh) {calls : List SourceCall}
    (fits : ∀ call ∈ calls, call.key.Fits store.root) :
    answers calls store = answers calls (GuardedStore.empty store.root) := by
  obtain ⟨top, mirrors⟩ := fresh.mirrors
  have step (call : SourceCall) (mem : call ∈ calls) (d : DirectoryStore) (s : GuardedStore)
      (keeps : Keeps store.root top d s) :
      (call.ask d).1 = (call.ask s).1 ∧ Keeps store.root top (call.ask d).2 (call.ask s).2 :=
    keeps.asked (fits call mem)
  exact SourceCall.answers_congr step ⟨rfl, rfl, mirrors⟩

/-- **A directory store is as good as memory as long as no keys meet.** Below an empty directory it
    answers all calls as guarded memory does. So its answers are those of memory exactly if no saved
    text is in the way of a later call; and memory gives the right answers, whatever the calls. -/
theorem answers_as_memory_iff (fresh : store.IsFresh) (calls : List SourceCall)
    (fits : ∀ call ∈ calls, call.key.Fits store.root) :
    answers calls store = answers calls (GuardedStore.empty store.root) ∧
    (answers calls store = answers calls MemoryStore.empty ↔
      calls.Pairwise fun earlier later => ¬ earlier.Obstructs later) ∧
    answers calls MemoryStore.empty = answersBehind [] calls := by
  have guarded := answers_guarded fresh fits
  refine ⟨guarded, ?_, MemoryStore.answers_behind (fun _ => rfl) calls⟩
  rw [guarded]
  refine (GuardedStore.answers_eq_iff _ calls).trans (and_iff_right fun call _ => ?_)
  exact GuardedStore.free_empty store.root call.key

/-! ### Keys that meet, and keys that do not -/

/-- A store in the directory where a program runs, which is empty. -/
def emptyHere : DirectoryStore := ⟨⟨"."⟩, .empty⟩

theorem isFresh_emptyHere : emptyHere.IsFresh := by
  refine ⟨[], rfl, rfl, fun names some_ => ?_⟩
  cases names with
  | nil => exact absurd rfl some_
  | cons name names => rfl

/-- A text is saved for a log without a directory, and then one for a log with a directory that has
    the name of a document, and loaded. -/
def nestedCalls : List SourceCall :=
  [.save ⟨"", "1ld", "2ld"⟩ "x", .save ⟨"1ld", "2ld", "y"⟩ "z", .load ⟨"1ld", "2ld", "y"⟩]

/-- The second text is lost: there is a file where a directory would have to be. -/
theorem nestedCalls_answers :
    emptyHere.IsFresh ∧ (∀ call ∈ nestedCalls, call.key.Fits emptyHere.root) ∧
    answers nestedCalls emptyHere =
      [.ok none, .error (.file ⟨"./1ld/2ld"⟩ .alreadyExists),
        .error (.file ⟨"./1ld/2ld/y"⟩ .notADirectory)] ∧
    answers nestedCalls MemoryStore.empty = [.ok none, .ok none, .ok (some "z")] := by
  refine ⟨isFresh_emptyHere, ?_, rfl, rfl⟩
  simp only [nestedCalls, List.forall_mem_cons]
  refine ⟨⟨by decide, by decide⟩, ⟨by decide, by decide⟩, ⟨by decide, by decide⟩, by simp⟩

/-- Texts in one directory and in one below it, of which one is replaced; and a text that is asked
    for and was never saved. -/
def apartCalls : List SourceCall :=
  [.save ⟨"", "1ld", "2ld"⟩ "a", .save ⟨"1ld", "1ld", "2ld"⟩ "b", .load ⟨"1ld", "1ld", "2ld"⟩,
    .save ⟨"", "1ld", "2ld"⟩ "c", .load ⟨"", "1ld", "2ld"⟩, .load ⟨"..", "", "%"⟩]

theorem apartCalls_as_memory :
    emptyHere.IsFresh ∧ (∀ call ∈ apartCalls, call.key.Fits emptyHere.root) ∧
    answers apartCalls emptyHere = answers apartCalls MemoryStore.empty ∧
    answers apartCalls emptyHere = [.ok none, .ok none, .ok (some "b"), .ok none, .ok (some "c"),
      .error (.notFound ⟨"..", "", "%"⟩)] := by
  have fits : ∀ call ∈ apartCalls, call.key.Fits emptyHere.root := by
    simp only [apartCalls, List.forall_mem_cons]
    refine ⟨⟨by decide, by decide⟩, ⟨by decide, by decide⟩, ⟨by decide, by decide⟩,
      ⟨by decide, by decide⟩, ⟨by decide, by decide⟩, ⟨by decide, by decide⟩, by simp⟩
  obtain ⟨-, asMemory, right⟩ := answers_as_memory_iff isFresh_emptyHere apartCalls fits
  have same := asMemory.2 (by decide)
  exact ⟨isFresh_emptyHere, fits, same, same.trans right⟩

end DirectoryStore
end Retrace
