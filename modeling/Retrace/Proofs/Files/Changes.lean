import Retrace.Proofs.Files.Paths
import Retrace.Proofs.Runs

/-!
# What is made below a directory

A path to something below a directory that is reached leads on from there, so reading and making
below it are matters of the names behind the directory's own (`FileTree.read_below`,
`FileTree.makePath_below`). And what happens on these names depends on what stands at the places
that they lead through: a directory lets through, a gap is filled when directories are made and ends
a walk otherwise, and a file stands in the way of both.

Making directories and writing files only add to a tree. No directory goes away, and no place
becomes empty (`FileTree.Extends`), so what was reached is reached afterwards.
-/

namespace Retrace

namespace Path

/-- A proper name that is not too long for a file system. -/
structure Fitting (name : String) : Prop extends Proper name where
  short : name.utf8ByteSize ≤ FileTree.longestName

variable {name : String} {below : List String}

/-- What is joined comes behind all names that were there, but for an empty one at the end. -/
theorem names_foldl_join (proper : ∀ name ∈ below, Proper name) (some_ : below ≠ []) (p : Path) :
    ∃ before, (p.names = before ∨ p.names = before ++ [""]) ∧
      (below.foldl join p).names = before ++ below := by
  induction below generalizing p with
  | nil => exact absurd rfl some_
  | cons name below ih =>
    obtain ⟨first, rest⟩ := List.forall_mem_cons.1 proper
    obtain ⟨before, own, joined⟩ := p.names_join first.slashless
    refine ⟨before, own, ?_⟩
    rw [List.foldl_cons]
    by_cases last : below = []
    · rw [last]
      exact joined
    obtain ⟨before', own', joined'⟩ := ih rest last (p.join name)
    rw [joined] at own'
    rcases own' with rfl | own'
    · rw [joined', List.append_assoc, List.singleton_append]
    · exact absurd (List.append_inj_right' own' rfl) (by simp [first.nonempty])

theorem size_le_join (p : Path) (name : String) :
    p.text.utf8ByteSize ≤ (p.join name).text.utf8ByteSize := by
  unfold join
  split
  · simp only [String.utf8ByteSize_append]
    omega
  · simp only [String.utf8ByteSize_append]
    omega

theorem join_ne_empty (p : Path) (proper : Proper name) : (p.join name).text ≠ "" := by
  unfold join
  split
  · simp [proper.nonempty]
  · simp

end Path

namespace FileTree

open Retrace.Path (Proper Fitting)

variable {t t' : FileTree} {top place next : Place} {name : String} {below : List String}

theorem checkPath_join {p : Path} (proper : Proper name)
    (short : (p.join name).text.utf8ByteSize ≤ longestPath) : checkPath (p.join name) = .ok () := by
  rw [checkPath, if_neg (p.join_ne_empty proper), if_neg (Nat.not_lt.2 short)]

/-! ## Walking on names that fit -/

theorem step_fitting (fits : Fitting name) (isDirectory : t.node? place = some .directory) :
    t.step place name =
      if (t.node? (place ++ [name])).isSome then .ok (place ++ [name]) else .error .notFound := by
  rw [step, isDirectory]
  simp [fits.nonempty, fits.notHere, fits.notUp, Nat.not_lt.2 fits.short]

theorem walk_cons (t : FileTree) (place : Place) (name : String) (names : List String) :
    t.walk place (name :: names) = t.step place name >>= fun next => t.walk next names :=
  List.foldlM_cons

theorem walk_singleton (t : FileTree) (place : Place) (name : String) :
    t.walk place [name] = t.step place name :=
  bind_pure _

/-- Directories let through. -/
theorem walk_directories (fits : ∀ name ∈ below, Fitting name)
    (through : ∀ names, names <+: below → t.node? (place ++ names) = some .directory) :
    t.walk place below = .ok (place ++ below) := by
  induction below generalizing place with
  | nil => rw [List.append_nil]; rfl
  | cons name below ih =>
    obtain ⟨first, rest⟩ := List.forall_mem_cons.1 fits
    have here : t.node? place = some .directory := by simpa using through [] List.nil_prefix
    have there := through [name] (by simp)
    rw [walk_cons, step_fitting first here, there]
    refine (ih rest fun names before => ?_).trans (by simp)
    simpa using through (name :: names) (List.cons_prefix_cons.2 ⟨rfl, before⟩)

/-- Behind directories, anything that is there is reached. -/
theorem walk_concat (fits : ∀ other ∈ below ++ [name], Fitting other)
    (through : ∀ names, names <+: below → t.node? (place ++ names) = some .directory)
    (there : (t.node? (place ++ (below ++ [name]))).isSome) :
    t.walk place (below ++ [name]) = .ok (place ++ (below ++ [name])) := by
  have first (other : String) (mem : other ∈ below) := fits other (List.mem_append_left _ mem)
  have last := fits name (List.mem_append_right _ (List.mem_singleton_self name))
  have isDirectory := through below (List.prefix_refl below)
  rw [← List.append_assoc] at there ⊢
  rw [walk_append, walk_directories first through, bind_of_ok rfl, walk_singleton,
    step_fitting last isDirectory, if_pos there]

/-- A walk ends at the first file that it should go through. -/
theorem walk_file {content : Bytes} (went : t.walk place below = .ok next)
    (file : t.node? next = some (.file content)) (name : String) :
    t.walk place (below ++ [name]) = .error .notADirectory := by
  rw [walk_append, went, bind_of_ok rfl, walk_singleton, step, file]

/-- A walk ends at the first gap. -/
theorem walk_notFound (fits : ∀ name ∈ below, Fitting name)
    (isDirectory : t.node? place = some .directory)
    (through : ∀ names, names <+: below →
      t.node? (place ++ names) = some .directory ∨ t.node? (place ++ names) = none)
    (missing : t.node? (place ++ below) = none) : t.walk place below = .error .notFound := by
  induction below generalizing place with
  | nil => rw [List.append_nil, isDirectory] at missing; exact absurd missing (by simp)
  | cons name below ih =>
    obtain ⟨first, rest⟩ := List.forall_mem_cons.1 fits
    rw [walk_cons, step_fitting first isDirectory]
    rcases through [name] (by simp) with there | gap
    · rw [there]
      refine ih rest there (fun names before => ?_) (by simpa using missing)
      simpa using through (name :: names) (List.cons_prefix_cons.2 ⟨rfl, before⟩)
    · rw [gap]
      rfl

/-- What a walk goes on from is a directory. -/
theorem directory_of_walk {names : List String} (went : t.walk place names = .ok next)
    (isDirectory : t.node? next = some .directory) : t.node? place = some .directory := by
  cases names with
  | nil => exact Except.ok.inj went ▸ isDirectory
  | cons name names =>
    rw [walk_cons] at went
    obtain ⟨mid, down, -⟩ := ok_of_bind_ok went
    unfold step at down
    split at down
    · exact absurd down (by simp)
    · assumption
    · exact absurd down (by simp)

/-! ## Trees that have more -/

/-- `t'` has whatever `t` has, with the directories still directories. -/
structure Extends (t t' : FileTree) : Prop where
  here : t'.here = t.here
  directory : ∀ place, t.node? place = some .directory → t'.node? place = some .directory
  there : ∀ place, (t.node? place).isSome → (t'.node? place).isSome

theorem Extends.trans {t'' : FileTree} (first : t.Extends t') (second : t'.Extends t'') :
    t.Extends t'' where
  here := second.here.trans first.here
  directory place isDirectory := second.directory place (first.directory place isDirectory)
  there place some_ := second.there place (first.there place some_)

theorem Extends.start (more : t.Extends t') (p : Path) : t'.start p = t.start p := by
  rw [FileTree.start, FileTree.start, more.here]

theorem Extends.step (more : t.Extends t') (went : t.step place name = .ok next) :
    t'.step place name = .ok next := by
  unfold FileTree.step at went ⊢
  split at went
  · exact absurd went (by simp)
  · rename_i isDirectory
    rw [more.directory place isDirectory]
    dsimp only
    by_cases there : (t.node? (place ++ [name])).isSome
    · rw [if_pos there] at went
      rw [if_pos (more.there _ there)]
      exact went
    -- a name that is not there may still be one with a meaning of its own
    rw [if_neg there] at went
    split at went
    · rename_i own
      rw [if_pos own]
      exact went
    rename_i other
    split at went
    · rename_i up
      rw [if_neg other, if_pos up]
      exact went
    · split at went <;> exact absurd went (by simp)
  · exact absurd went (by simp)

theorem Extends.walk (more : t.Extends t') {names : List String}
    (went : t.walk place names = .ok next) : t'.walk place names = .ok next := by
  induction names generalizing place with
  | nil => exact went
  | cons name names ih =>
    rw [walk_cons] at went ⊢
    obtain ⟨mid, down, on⟩ := ok_of_bind_ok went
    rw [bind_of_ok (more.step down)]
    exact ih on

theorem node?_put (t : FileTree) (some_ : place ≠ []) (node : FileNode) (other : Place) :
    (t.put place node).node? other = if other = place then some node else t.node? other := by
  cases other with
  | nil => rw [if_neg (Ne.symm some_)]; rfl
  | cons name names => exact OrderedMap.get?_insert _ _ _ _

/-- Where there is no directory, anything may be put. -/
theorem extends_put {node : FileNode} (some_ : place ≠ [])
    (free : t.node? place ≠ some .directory) : t.Extends (t.put place node) where
  here := rfl
  directory other isDirectory := by
    have apart : other ≠ place := fun same => free (same ▸ isDirectory)
    rw [node?_put t some_, if_neg apart, isDirectory]
  there other there := by
    rw [node?_put t some_]
    split
    · rfl
    · exact there

/-! ## Making directories -/

/-- `t'` is `t` with directories at all places that `below` leads through from `place`. -/
structure Made (t : FileTree) (place : Place) (below : List String) (t' : FileTree) : Prop where
  grown : t.Extends t'
  made : ∀ names, names <+: below → t'.node? (place ++ names) = some .directory
  kept : ∀ other, (∀ names, names <+: below → other ≠ place ++ names) →
    t'.node? other = t.node? other

theorem Made.apart (h : t.Made place below t') {names : List String}
    (apart : ¬ names <+: below) : t'.node? (place ++ names) = t.node? (place ++ names) := by
  refine h.kept _ fun other before same => apart ?_
  rwa [List.append_cancel_left same]

/-- The first of the directories was there, or was put there. -/
theorem Made.cons {mid : FileTree} (grown : t.Extends mid)
    (isDirectory : t.node? place = some .directory)
    (first : ∀ other, other ≠ place ++ [name] → mid.node? other = t.node? other)
    (rest : mid.Made (place ++ [name]) below t') : t.Made place (name :: below) t' where
  grown := grown.trans rest.grown
  made names before := by
    cases names with
    | nil =>
      rw [List.append_nil]
      exact rest.grown.directory place (grown.directory place isDirectory)
    | cons name' names =>
      obtain ⟨rfl, rest_⟩ := List.cons_prefix_cons.1 before
      simpa using rest.made names rest_
  kept other apart := by
    have behind (names : List String) (before : names <+: below) :
        other ≠ place ++ [name] ++ names := by
      simpa using apart (name :: names) (List.cons_prefix_cons.2 ⟨rfl, before⟩)
    rw [rest.kept other behind]
    exact first other (by simpa using behind [] List.nil_prefix)

/-- **Directories are made where nothing stands in the way.** -/
theorem makeDirectories_made (fits : ∀ name ∈ below, Fitting name)
    (isDirectory : t.node? place = some .directory)
    (through : ∀ names, names <+: below →
      t.node? (place ++ names) = some .directory ∨ t.node? (place ++ names) = none) :
    ∃ t', makeDirectories place below t = .ok (place ++ below) t' ∧ t.Made place below t' := by
  -- name by name: each directory is there already, or it is made before going on in it
  induction below generalizing place t with
  | nil =>
    refine ⟨t, by rw [List.append_nil]; rfl, ⟨rfl, fun _ => id, fun _ => id⟩, ?_, fun _ _ => rfl⟩
    intro names before
    rw [List.prefix_nil.1 before, List.append_nil, isDirectory]
  | cons name below ih =>
    obtain ⟨first, rest⟩ := List.forall_mem_cons.1 fits
    have behind (names : List String) (before : names <+: below) :
        t.node? (place ++ [name] ++ names) = some .directory ∨
          t.node? (place ++ [name] ++ names) = none := by
      simpa using through (name :: names) (List.cons_prefix_cons.2 ⟨rfl, before⟩)
    rw [makeDirectories, bind_run, get_run]
    simp only [step_fitting first isDirectory]
    rcases through [name] (by simp) with there | gap
    · obtain ⟨t', made, same⟩ := ih rest there behind
      refine ⟨t', ?_, Made.cons ⟨rfl, fun _ => id, fun _ => id⟩ isDirectory (fun _ _ => rfl) same⟩
      simpa [there] using made
    · have some_ : place ++ [name] ≠ [] := by simp
      have put := node?_put t some_ .directory
      obtain ⟨t', made, same⟩ := ih (t := t.put (place ++ [name]) .directory) rest
        (by rw [put, if_pos rfl]) fun names before => by
          rw [put]
          split
          · exact Or.inl rfl
          · exact behind names before
      refine ⟨t', ?_, Made.cons (extends_put some_ (by simp [gap])) isDirectory
        (fun other apart => by rw [put, if_neg apart]) same⟩
      simpa [gap] using made

/-- Where a walk leads to a directory, there is nothing to make on the way. -/
theorem makeDirectories_walk {before : List String} (went : t.walk place before = .ok top)
    (isDirectory : t.node? top = some .directory) (below : List String) :
    makeDirectories place (before ++ below) t = makeDirectories top below t := by
  induction before generalizing place with
  | nil => rw [List.nil_append, Except.ok.inj went]
  | cons name before ih =>
    rw [walk_cons] at went
    obtain ⟨mid, down, on⟩ := ok_of_bind_ok went
    have there := directory_of_walk on isDirectory
    rw [List.cons_append, makeDirectories, bind_run, get_run]
    simpa [down, there] using ih on

/-- A file is in the way of a directory in its place. -/
theorem makeDirectories_file {node : FileNode} (fits : Fitting name)
    (isDirectory : t.node? place = some .directory) (there : t.node? (place ++ [name]) = some node)
    (file : node ≠ .directory) : makeDirectories place [name] t = .error .alreadyExists t := by
  rw [makeDirectories, bind_run, get_run]
  simp [step_fitting fits isDirectory, there, file]

theorem write_run (short : name.utf8ByteSize ≤ longestName) (place : Place) (content : Bytes)
    (t : FileTree) : write place name content t =
      match t.node? (place ++ [name]) with
      | some .directory => .error .isADirectory t
      | some .sealedFile => .error .denied t
      | _ => .ok () (t.put (place ++ [name]) (.file content)) := by
  simp only [write, if_neg (Nat.not_lt.2 short), bind_run, get_run]
  cases t.node? (place ++ [name]) with
  | none => rfl
  | some node => cases node <;> rfl

/-! ## Below a directory that is reached -/

section Reached

variable {root : Path} (reached : t.walk (t.start root) root.names = .ok top)

include reached

theorem walk_below (proper : ∀ name ∈ below, Proper name) :
    t.walk (t.start (below.foldl Path.join root)) (below.foldl Path.join root).names =
      t.walk top below := by
  rw [t.start_foldl_join root proper, t.walk_foldl_join _ root proper, bind_of_ok reached]

/-- What is read is what stands where the names behind the directory's lead. -/
theorem read_below (proper : ∀ name ∈ below, Proper name)
    (valid : checkPath (below.foldl Path.join root) = .ok ()) :
    t.read (below.foldl Path.join root) = t.walk top below >>= fun place =>
      match t.node? place with
      | none => .error .notFound
      | some (.file content) => .ok content
      | some .directory => .error .isADirectory
      | some .sealedFile => .error .denied := by
  rw [read, find, valid, bind_of_ok rfl, walk_below reached proper]
  cases t.walk top below with
  | error fault => rfl
  | ok place =>
    simp only [bind, Except.bind]
    cases t.node? place with
    | none => rfl
    | some node => cases node <;> rfl

theorem makePath_below (isDirectory : t.node? top = some .directory)
    (proper : ∀ name ∈ below, Proper name) (some_ : below ≠ [])
    (valid : checkPath (below.foldl Path.join root) = .ok ()) :
    makePath (below.foldl Path.join root) t = makeDirectories top below t := by
  obtain ⟨before, own, names⟩ := Path.names_foldl_join proper some_ root
  have went : t.walk (t.start root) before = .ok top := by
    rcases own with own | own
    · rwa [own] at reached
    -- an empty name at the end leads nowhere
    rw [own, walk_append] at reached
    obtain ⟨mid, went, stay⟩ := ok_of_bind_ok reached
    rw [walk_singleton] at stay
    unfold step at stay
    split at stay
    · exact absurd stay (by simp)
    · simp only [true_or, if_true] at stay
      rw [went, Except.ok.inj stay]
    · exact absurd stay (by simp)
  rw [makePath, valid]
  have run : makeDirectories (t.start (below.foldl Path.join root))
      (below.foldl Path.join root).names t = makeDirectories top below t := by
    rw [names, t.start_foldl_join root proper, makeDirectories_walk went isDirectory]
  exact run

end Reached
end FileTree
end Retrace
