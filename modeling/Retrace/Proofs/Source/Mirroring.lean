import Retrace.Proofs.Files.Changes
import Retrace.Proofs.Source.FileNames

/-!
# Texts as files

Texts that are kept under keys can be laid out as files, and a directory store does so. But the
layout has one weakness. The keys without a directory have their files where the keys with one have
directories. So a key without a directory is in the way of those keys with one that begin with its
own two pieces (`SourceKey.IsWithin`), and they are in its way. No other two keys meet.

A `GuardedStore` is a store in memory that answers to such keys as files do. A directory store
answers exactly like it. The two are held together by `Mirrors`, which says what stands at every
place below the root: the files are those of the texts in memory, and the directories are those that
they need. What is read then is what the guarded store has (`Mirrors.loadFrom`), and a text that is
saved there and here leaves a tree that mirrors the memory again (`Mirrors.save`).
-/

namespace Retrace

namespace SourceKey

/-! ## Keys that meet -/

/-- The file of `inner` would be in a directory that is in the place of the file of `outer`. -/
def IsWithin (inner outer : SourceKey) : Prop :=
  outer.directory = "" ∧ inner.directory ≠ "" ∧ inner.directory = outer.document ∧
    inner.document = outer.uri

instance (inner outer : SourceKey) : Decidable (inner.IsWithin outer) :=
  inferInstanceAs (Decidable (_ ∧ _ ∧ _ ∧ _))

variable {inner outer key : SourceKey} {root : Path} {names : List String}

theorem isWithin_iff : inner.IsWithin outer ↔ outer.fileNames = inner.directories := by
  obtain ⟨directory, document, uri⟩ := inner
  obtain ⟨directory', document', uri'⟩ := outer
  by_cases none : directory = ""
  all_goals by_cases none' : directory' = ""
  all_goals simp [IsWithin, fileNames, directories, fileName_inj, none, none']
  exact and_congr eq_comm eq_comm

theorem length_directories_lt (key : SourceKey) :
    key.directories.length < key.fileNames.length := by
  simp [fileNames]

theorem length_directories_le (key other : SourceKey) :
    key.directories.length ≤ other.fileNames.length := by
  have longer := key.length_directories_lt
  rw [length_fileNames] at longer ⊢
  split at longer <;> split <;> omega

/-- A file is on the way to another one only in the one way. -/
theorem prefix_directories : outer.fileNames <+: inner.directories ↔ inner.IsWithin outer := by
  rw [isWithin_iff]
  refine ⟨fun before => ?_, fun same => same ▸ List.prefix_refl _⟩
  exact before.eq_of_length_le (inner.length_directories_le outer)

theorem directories_ne_nil (key : SourceKey) : key.directories ≠ [] := by
  unfold directories
  split <;> simp

theorem not_fileNames_prefix (key : SourceKey) : ¬ key.fileNames <+: key.directories :=
  fun before => (prefix_directories.1 before).2.1 (prefix_directories.1 before).1

theorem directories_prefix (key : SourceKey) : key.directories <+: key.fileNames :=
  List.prefix_append _ _

theorem not_isWithin_self (key : SourceKey) : ¬ key.IsWithin key :=
  fun within => within.2.1 within.1

/-- A key that a file system takes: none of its names is too long, and the whole path is not. -/
structure Fits (root : Path) (key : SourceKey) : Prop where
  names : ∀ name ∈ key.fileNames, name.utf8ByteSize ≤ FileTree.longestName
  path : (key.path root).text.utf8ByteSize ≤ FileTree.longestPath

theorem Fits.fitting (fits : key.Fits root) : ∀ name ∈ key.fileNames, Path.Fitting name :=
  fun name mem => ⟨key.proper_fileNames name mem, fits.names name mem⟩

theorem Fits.directories (fits : key.Fits root) : ∀ name ∈ key.directories, Path.Fitting name :=
  fun name mem => fits.fitting name (List.mem_append_left _ mem)

theorem Fits.last (fits : key.Fits root) : Path.Fitting (fileName key.uri) :=
  fits.fitting _ (List.mem_append_right _ (List.mem_singleton_self _))

theorem Fits.checkPath (fits : key.Fits root) : FileTree.checkPath (key.path root) = .ok () :=
  FileTree.checkPath_join fits.last.toProper fits.path

theorem Fits.checkDirectoryPath (fits : key.Fits root) :
    FileTree.checkPath (key.directoryPath root) = .ok () := by
  have shorter := Nat.le_trans ((key.directoryPath root).size_le_join (fileName key.uri)) fits.path
  have last : ∃ before : Path, key.directoryPath root = before.join (fileName key.document) := by
    unfold directoryPath SourceKey.directories
    split <;> exact ⟨_, rfl⟩
  obtain ⟨before, same⟩ := last
  rw [same] at shorter ⊢
  exact FileTree.checkPath_join (isFileName_fileName key.document).proper shorter

end SourceKey

/-! ## The store that files are compared with -/

/-- Texts in memory, kept as if they were files below a root. -/
structure GuardedStore where
  root : Path
  texts : OrderedMap SourceKey String
deriving DecidableEq, Repr

namespace GuardedStore

def empty (root : Path) : GuardedStore := ⟨root, .empty⟩

/-- A text is kept whose file is where the key needs a directory. -/
def Behind (store : GuardedStore) (key : SourceKey) : Prop :=
  ∃ kept ∈ store.texts.keys, key.IsWithin kept

/-- A text is kept that needs a directory where the file of the key is. -/
def Above (store : GuardedStore) (key : SourceKey) : Prop :=
  ∃ kept ∈ store.texts.keys, kept.IsWithin key

instance (store : GuardedStore) (key : SourceKey) : Decidable (store.Behind key) :=
  inferInstanceAs (Decidable (∃ kept ∈ store.texts.keys, _))

instance (store : GuardedStore) (key : SourceKey) : Decidable (store.Above key) :=
  inferInstanceAs (Decidable (∃ kept ∈ store.texts.keys, _))

instance : SourceStore GuardedStore where
  load store key :=
    if store.Behind key then .error (.file (key.path store.root) .notADirectory)
    else if store.Above key then .error (.file (key.path store.root) .isADirectory)
    else SourceStore.load (MemoryStore.mk store.texts) key
  save key text := fun store =>
    if store.Behind key then .error (.file (key.directoryPath store.root) .alreadyExists) store
    else if store.Above key then .error (.file (key.path store.root) .isADirectory) store
    else .ok () { store with texts := store.texts.insert key text }

end GuardedStore

/-! ## Trees that mirror texts -/

/-- Below the place that `root` leads to, a tree has the files of texts, the directories that they
    need, and nothing else. -/
structure Mirrors (top : Place) (t : FileTree) (store : GuardedStore) : Prop where
  reached : t.walk (t.start store.root) store.root.names = .ok top
  directory : ∀ names, t.node? (top ++ names) = some .directory ↔
    names = [] ∨ ∃ kept ∈ store.texts.keys, names <+: kept.directories
  file : ∀ names content, t.node? (top ++ names) = some (.file content) ↔
    ∃ kept text, store.texts.get? kept = some text ∧ kept.fileNames = names ∧
      Bytes.utf8 text = content
  readable : ∀ names, t.node? (top ++ names) ≠ some .sealedFile

/-- A directory store below a root whose files are the texts of a guarded store with this root. -/
structure DirectoryStore.Keeps (root : Path) (top : Place) (d : DirectoryStore)
    (store : GuardedStore) : Prop where
  own : d.root = root
  same : store.root = root
  mirrors : Mirrors top d.tree store

namespace Mirrors

open FileTree (Made Extends)

variable {top : Place} {t t' : FileTree} {store : GuardedStore} {key : SourceKey} {text : String}
  {names : List String}

theorem isDirectory (m : Mirrors top t store) : t.node? top = some .directory := by
  simpa using (m.directory []).2 (Or.inl rfl)

/-- What is on the way to a kept text. -/
theorem through_kept (m : Mirrors top t store) (mem : key ∈ store.texts.keys)
    (before : names <+: key.directories) : t.node? (top ++ names) = some .directory :=
  (m.directory names).2 (Or.inr ⟨key, mem, before⟩)

theorem file_kept (m : Mirrors top t store) (kept : store.texts.get? key = some text) :
    t.node? (top ++ key.fileNames) = some (.file (Bytes.utf8 text)) :=
  (m.file key.fileNames _).2 ⟨key, text, kept, rfl, rfl⟩

/-- What is on the way to a text above which one is kept, and in its own place. -/
theorem through_above (m : Mirrors top t store) (above : store.Above key)
    (before : names <+: key.fileNames) : t.node? (top ++ names) = some .directory := by
  obtain ⟨kept, mem, within⟩ := above
  exact m.through_kept mem (before.trans (SourceKey.prefix_directories.2 within))

/-- What is on the way to a text that is not behind a kept one. -/
theorem through (m : Mirrors top t store) (free : ¬ store.Behind key)
    (before : names <+: key.directories) :
    t.node? (top ++ names) = some .directory ∨ t.node? (top ++ names) = none := by
  cases there : t.node? (top ++ names) with
  | none => exact Or.inr rfl
  | some node =>
    cases node with
    | directory => exact Or.inl rfl
    | sealedFile => exact absurd there (m.readable names)
    | file content =>
      obtain ⟨kept, text, found, rfl, -⟩ := (m.file names content).1 there
      exact absurd ⟨kept, OrderedMap.mem_keys_of_get? found, SourceKey.prefix_directories.1 before⟩
        free

/-- The place of a text that is not above a kept one. -/
theorem place (m : Mirrors top t store) (free : ¬ store.Above key) :
    t.node? (top ++ key.fileNames) = (store.texts.get? key).map fun text =>
      .file (Bytes.utf8 text) := by
  cases there : t.node? (top ++ key.fileNames) with
  | none =>
    cases kept : store.texts.get? key with
    | none => rfl
    | some text => rw [m.file_kept kept] at there; exact absurd there (by simp)
  | some node =>
    cases node with
    | directory =>
      rcases (m.directory _).1 there with none | ⟨kept, mem, before⟩
      · exact absurd none (by simp [SourceKey.fileNames])
      · exact absurd ⟨kept, mem, SourceKey.prefix_directories.1 before⟩ free
    | sealedFile => exact absurd there (m.readable _)
    | file content =>
      obtain ⟨kept, text, found, same, rfl⟩ := (m.file _ content).1 there
      rw [SourceKey.fileNames_inj.1 same] at found
      rw [found]
      rfl

/-! ## Loading -/

/-- The walk to a place where something is. -/
theorem walk_there (fits : ∀ name ∈ key.fileNames, Path.Fitting name)
    (through : ∀ names, names <+: key.directories → t.node? (top ++ names) = some .directory)
    (there : (t.node? (top ++ key.fileNames)).isSome) :
    t.walk top key.fileNames = .ok (top ++ key.fileNames) := by
  unfold SourceKey.fileNames at *
  exact FileTree.walk_concat fits through there

/-- The walk ends at a kept text that is on the way. -/
theorem walk_behind (m : Mirrors top t store) (fits : key.Fits store.root)
    (behind : store.Behind key) : t.walk top key.fileNames = .error .notADirectory := by
  obtain ⟨kept, mem, within⟩ := behind
  obtain ⟨text, found⟩ := OrderedMap.exists_of_mem_keys mem
  have file := m.file_kept found
  have same := SourceKey.isWithin_iff.1 within
  have went : t.walk top key.directories = .ok (top ++ kept.fileNames) := by
    rw [← same]
    refine walk_there (fun name mem => ?_) (fun names => m.through_kept mem) (by rw [file]; rfl)
    exact fits.directories name (same ▸ mem)
  exact FileTree.walk_file went file _

/-- The walk ends where a directory is missing, or the file itself. -/
theorem walk_missing (m : Mirrors top t store) (fits : key.Fits store.root)
    (notBehind : ¬ store.Behind key) (missing : t.node? (top ++ key.fileNames) = none) :
    t.walk top key.fileNames = .error .notFound := by
  refine FileTree.walk_notFound fits.fitting m.isDirectory (fun names before => ?_) missing
  rcases List.prefix_concat_iff.1 before with rfl | before
  · exact Or.inr missing
  · exact m.through notBehind before

/-- What is read from the file of a key. -/
theorem read (m : Mirrors top t store) (fits : key.Fits store.root) :
    t.read (key.path store.root) =
      if store.Behind key then .error .notADirectory
      else if store.Above key then .error .isADirectory
      else match store.texts.get? key with
        | some text => .ok (Bytes.utf8 text)
        | none => .error .notFound := by
  have valid := fits.checkPath
  rw [SourceKey.path_eq] at valid ⊢
  rw [FileTree.read_below m.reached key.proper_fileNames valid]
  split
  · rename_i behind
    rw [m.walk_behind fits behind]
    rfl
  rename_i notBehind
  split
  · rename_i above
    rw [FileTree.walk_directories fits.fitting fun names => m.through_above above, bind_of_ok rfl,
      m.through_above above (List.prefix_refl _)]
  rename_i notAbove
  have place := m.place notAbove
  cases kept : store.texts.get? key with
  | some text =>
    rw [kept, Option.map_some] at place
    have mem := OrderedMap.mem_keys_of_get? kept
    rw [walk_there fits.fitting (fun names => m.through_kept mem) (by rw [place]; rfl),
      bind_of_ok rfl, place]
  | none =>
    rw [kept, Option.map_none] at place
    rw [m.walk_missing fits notBehind place]
    rfl

/-- **What is loaded from files is what the guarded store has.** -/
theorem loadFrom (m : Mirrors top t store) (fits : key.Fits store.root) :
    key.loadFrom t.read store.root = SourceStore.load store key := by
  rw [SourceKey.loadFrom, m.read fits]
  by_cases behind : store.Behind key
  · simp only [SourceStore.load, if_pos behind]
  by_cases above : store.Above key
  · simp only [SourceStore.load, if_neg behind, if_pos above]
  · simp only [SourceStore.load, if_neg behind, if_neg above]
    cases store.texts.get? key with
    | some text => simp only [Bytes.ofUtf8?_utf8]
    | none => rfl

/-! ## Saving -/

/-- `t'` is `t` with the file of a key, and the directories that it needs. -/
structure Filed (top : Place) (t : FileTree) (key : SourceKey) (content : Bytes) (t' : FileTree) :
    Prop where
  grown : t.Extends t'
  node : ∀ names, t'.node? (top ++ names) =
    if names = key.fileNames then some (.file content)
    else if names <+: key.directories then some .directory
    else t.node? (top ++ names)

theorem filed (m : Mirrors top t store) (notAbove : ¬ store.Above key)
    (made : t.Made top key.directories t') (content : Bytes) :
    Filed top t key content (t'.put (top ++ key.fileNames) (.file content)) := by
  have some_ : top ++ key.fileNames ≠ [] := by simp [SourceKey.fileNames]
  constructor
  · refine made.grown.trans (FileTree.extends_put some_ ?_)
    rw [made.apart key.not_fileNames_prefix, m.place notAbove]
    cases store.texts.get? key <;> simp
  intro names
  rw [FileTree.node?_put t' some_]
  by_cases same : names = key.fileNames
  · rw [if_pos (congrArg _ same), if_pos same]
  rw [if_neg fun places => same (List.append_cancel_left places), if_neg same]
  by_cases before : names <+: key.directories
  · rw [if_pos before, made.made names before]
  · rw [if_neg before, made.apart before]

/-- The directories are those of the texts before, and those of the new one. -/
theorem Filed.directory {content : Bytes} (filed : Filed top t key content t')
    (m : Mirrors top t store) (notAbove : ¬ store.Above key) (text : String) :
    t'.node? (top ++ names) = some .directory ↔
      names = [] ∨ ∃ kept ∈ (store.texts.insert key text).keys, names <+: kept.directories := by
  rw [filed.node]
  split
  · rename_i same
    rw [same]
    refine iff_of_false (by simp) ?_
    rintro (none | ⟨kept, mem, before⟩)
    · exact absurd none (by simp [SourceKey.fileNames])
    · have within := SourceKey.prefix_directories.1 before
      rcases OrderedMap.mem_keys_insert.1 mem with rfl | mem
      · exact kept.not_isWithin_self within
      · exact notAbove ⟨kept, mem, within⟩
  split
  · rename_i before
    exact iff_of_true rfl (Or.inr ⟨key, OrderedMap.mem_keys_insert.2 (Or.inl rfl), before⟩)
  · rename_i apart
    rw [m.directory]
    refine or_congr Iff.rfl ⟨?_, ?_⟩
    · rintro ⟨kept, mem, before⟩
      exact ⟨kept, OrderedMap.mem_keys_insert.2 (Or.inr mem), before⟩
    · rintro ⟨kept, mem, before⟩
      rcases OrderedMap.mem_keys_insert.1 mem with rfl | mem
      · exact absurd before apart
      · exact ⟨kept, mem, before⟩

/-- The files are those of the texts before, but for the new one. -/
theorem Filed.file {content : Bytes} (filed : Filed top t key (Bytes.utf8 text) t')
    (m : Mirrors top t store) (notBehind : ¬ store.Behind key) :
    t'.node? (top ++ names) = some (.file content) ↔
      ∃ kept text', (store.texts.insert key text).get? kept = some text' ∧
        kept.fileNames = names ∧ Bytes.utf8 text' = content := by
  rw [filed.node]
  by_cases same : names = key.fileNames
  · rw [if_pos same, same]
    constructor
    · intro file
      exact ⟨key, text, OrderedMap.get?_insert_self .., rfl,
        FileNode.file.inj (Option.some.inj file)⟩
    · rintro ⟨kept, text', found, names, rfl⟩
      rw [SourceKey.fileNames_inj.1 names, OrderedMap.get?_insert_self] at found
      rw [Option.some.inj found]
  -- the file of another text is there if it was there
  have others : (∃ kept text', (store.texts.insert key text).get? kept = some text' ∧
      kept.fileNames = names ∧ Bytes.utf8 text' = content) ↔
      t.node? (top ++ names) = some (.file content) := by
    rw [m.file]
    refine exists_congr fun kept => exists_congr fun text' => ?_
    rw [OrderedMap.get?_insert]
    split
    · rename_i here
      have elsewhere : kept.fileNames ≠ names := here ▸ Ne.symm same
      exact iff_of_false (fun h => elsewhere h.2.1) (fun h => elsewhere h.2.1)
    · exact Iff.rfl
  rw [others, if_neg same]
  split
  · rename_i before
    refine iff_of_false (by simp) ?_
    rcases m.through notBehind before with there | there <;> simp [there]
  · exact Iff.rfl

/-- **A tree with the file of a text more mirrors one text more.** -/
theorem saved (m : Mirrors top t store) (notBehind : ¬ store.Behind key)
    (notAbove : ¬ store.Above key) (filed : Filed top t key (Bytes.utf8 text) t') :
    Mirrors top t' { store with texts := store.texts.insert key text } where
  reached := by
    rw [filed.grown.start]
    exact filed.grown.walk m.reached
  directory names := filed.directory m notAbove text
  file names content := filed.file m notBehind
  readable names := by
    rw [filed.node]
    split
    · simp
    split
    · simp
    · exact m.readable names

/-- What stands in the way of the directories of a key stops them from being made. -/
theorem makeDirectories_behind (m : Mirrors top t store) (fits : key.Fits store.root)
    (behind : store.Behind key) :
    FileTree.makeDirectories top key.directories t = .error .alreadyExists t := by
  obtain ⟨kept, mem, within⟩ := behind
  obtain ⟨text, found⟩ := OrderedMap.exists_of_mem_keys mem
  have same : kept.directories ++ [fileName kept.uri] = key.directories :=
    SourceKey.isWithin_iff.1 within
  have fitting (name : String) (mem : name ∈ kept.directories ++ [fileName kept.uri]) :
      Path.Fitting name := fits.directories name (same ▸ mem)
  have open_ := m.through_kept mem (List.prefix_refl _)
  have file : t.node? (top ++ kept.directories ++ [fileName kept.uri]) = _ :=
    (congrArg t.node? (List.append_assoc ..)).trans (m.file_kept found)
  have went := FileTree.walk_directories
    (fun name mem => fitting name (List.mem_append_left _ mem)) fun names => m.through_kept mem
  rw [← same, FileTree.makeDirectories_walk went open_]
  exact FileTree.makeDirectories_file
    (fitting _ (List.mem_append_right _ (List.mem_singleton_self _))) open_ file (by simp)

/-- Where a text is kept above, the directories are there. -/
theorem makeDirectories_above (m : Mirrors top t store) (fits : key.Fits store.root)
    (above : store.Above key) :
    FileTree.makeDirectories top key.directories t = .ok (top ++ key.directories) t := by
  have went := FileTree.walk_directories fits.directories
    fun names first => m.through_above above (first.trans key.directories_prefix)
  have run := FileTree.makeDirectories_walk went (m.through_above above key.directories_prefix) []
  rw [List.append_nil] at run
  exact run

/-- Where the directories are made, it is a matter of what stands in the place of the file. -/
theorem save_run {place : Place} (fits : key.Fits store.root)
    (made : FileTree.makePath (key.directoryPath store.root) t = .ok place t') (text : String) :
    SourceStore.save key text (DirectoryStore.mk store.root t) =
      match t'.node? (place ++ [fileName key.uri]) with
      | some .directory =>
        .error (.file (key.path store.root) .isADirectory) (DirectoryStore.mk store.root t')
      | some .sealedFile =>
        .error (.file (key.path store.root) .denied) (DirectoryStore.mk store.root t')
      | _ => .ok () (DirectoryStore.mk store.root
          (t'.put (place ++ [fileName key.uri]) (.file (Bytes.utf8 text)))) := by
  have writes : (do
      MonadExcept.ofExcept (Except.ok ())
      FileTree.write place (fileName key.uri) (Bytes.utf8 text)) t' = _ :=
    FileTree.write_run fits.last.short place (Bytes.utf8 text) t'
  simp only [SourceStore.save, made, fits.checkPath, writes]
  cases t'.node? (place ++ [fileName key.uri]) with
  | none => rfl
  | some node => cases node <;> rfl

/-- **Saving a text in files is saving it in the guarded store.** Both succeed or fail alike, and
    leave a tree that mirrors the store. -/
theorem save (m : Mirrors top t store) (fits : key.Fits store.root) (text : String) :
    Matched (DirectoryStore.Keeps store.root top) Eq Eq
      (SourceStore.save key text (DirectoryStore.mk store.root t))
      (SourceStore.save key text store) := by
  have makes : FileTree.makePath (key.directoryPath store.root) t =
      FileTree.makeDirectories top key.directories t :=
    FileTree.makePath_below m.reached m.isDirectory
      (fun name mem => (fits.directories name mem).toProper) key.directories_ne_nil
      fits.checkDirectoryPath
  have names : top ++ key.directories ++ [fileName key.uri] = top ++ key.fileNames :=
    List.append_assoc ..
  by_cases behind : store.Behind key
  · simp only [SourceStore.save, makes, m.makeDirectories_behind fits behind, if_pos behind]
    exact ⟨rfl, rfl, rfl, m⟩
  by_cases above : store.Above key
  · rw [save_run fits (makes.trans (m.makeDirectories_above fits above)), names,
      m.through_above above (List.prefix_refl _)]
    simp only [SourceStore.save, if_neg behind, if_pos above]
    exact ⟨rfl, rfl, rfl, m⟩
  obtain ⟨t', run, made⟩ := FileTree.makeDirectories_made fits.directories m.isDirectory
    fun names => m.through behind
  have after := m.saved behind above (m.filed above made (Bytes.utf8 text))
  rw [save_run fits (makes.trans run), names, made.apart key.not_fileNames_prefix, m.place above]
  simp only [SourceStore.save, if_neg behind, if_neg above]
  cases store.texts.get? key <;> exact ⟨rfl, rfl, rfl, after⟩

end Mirrors
end Retrace
