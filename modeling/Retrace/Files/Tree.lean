import Retrace.Files.Path
import Retrace.OrderedMap
import Retrace.Wire.Bytes

/-!
# Trees of files

A `FileTree` is what a file system holds, as a value: directories and files, under the names that
lead to them from the top. Reading and writing go through a path name by name, and fail with the
`FileFault` of the first name at which there is no way on. A path that is empty or too long fails
before any of its names is looked up.
-/

namespace Retrace

/-- Why a file could not be read or written. -/
inductive FileFault where
  | notFound
  | denied
  | alreadyExists
  | notADirectory
  | isADirectory
  | nameTooLong
  /-- The bytes of the file are no text. -/
  | notText
deriving DecidableEq, Repr

/-- The fault in the words of a system. -/
def FileFault.message : FileFault → String
  | notFound => "No such file or directory (os error 2)"
  | denied => "Permission denied (os error 13)"
  | alreadyExists => "File exists (os error 17)"
  | notADirectory => "Not a directory (os error 20)"
  | isADirectory => "Is a directory (os error 21)"
  | nameTooLong => "File name too long (os error 36)"
  | notText => "stream did not contain valid UTF-8"

/-- What stands at a place in a tree. -/
inductive FileNode where
  | directory
  | file (content : Bytes)
  /-- A file that may not be read. -/
  | sealedFile
deriving DecidableEq, Repr

/-- The names that lead to a place from the top. -/
abbrev Place := List String

/-- Directories and files. The top is a directory and has no entry of its own. -/
structure FileTree where
  nodes : OrderedMap Place FileNode
  /-- Where paths start that do not start from the top. -/
  here : Place
deriving DecidableEq, Repr

namespace FileTree

/-- The tree that holds nothing but its top. -/
def empty : FileTree := ⟨.empty, []⟩

/-- The length in bytes that a name may have at most. -/
def longestName : Nat := 255

/-- The length in bytes that a whole path may have at most, as it is written. -/
def longestPath : Nat := 4095

/-- Refuses the paths that lead nowhere whatever a tree holds: the empty one and those too long. -/
def checkPath (p : Path) : Except FileFault Unit :=
  if p.text = "" then .error .notFound
  else if longestPath < p.text.utf8ByteSize then .error .nameTooLong
  else .ok ()

/-- What stands at a place. -/
def node? (t : FileTree) : Place → Option FileNode
  | [] => some .directory
  | place => t.nodes.get? place

/-- Puts a node at a place. -/
def put (t : FileTree) (place : Place) (node : FileNode) : FileTree :=
  { t with nodes := t.nodes.insert place node }

/-- Where a path starts. -/
def start (t : FileTree) (p : Path) : Place := if p.isAbsolute then [] else t.here

/-- Goes on by one name. -/
def step (t : FileTree) (place : Place) (name : String) : Except FileFault Place :=
  match t.node? place with
  | none => .error .notFound
  | some .directory =>
    if name = "" ∨ name = "." then .ok place
    else if name = ".." then .ok place.dropLast
    else if longestName < name.utf8ByteSize then .error .nameTooLong
    else if (t.node? (place ++ [name])).isSome then .ok (place ++ [name])
    else .error .notFound
  | some _ => .error .notADirectory

/-- Goes on by several names. -/
def walk (t : FileTree) (place : Place) (names : List String) : Except FileFault Place :=
  names.foldlM t.step place

/-- What a path leads to. -/
def find (t : FileTree) (p : Path) : Except FileFault FileNode := do
  checkPath p
  let place ← t.walk (t.start p) p.names
  match t.node? place with
  | some node => .ok node
  | none => .error .notFound

/-- The content of the file that a path leads to. -/
def read (t : FileTree) (p : Path) : Except FileFault Bytes := do
  match ← t.find p with
  | .file content => .ok content
  | .directory => .error .isADirectory
  | .sealedFile => .error .denied

/-- A step that may change a tree, also when it fails. -/
abbrev ChangeM := EStateM FileFault FileTree

/-- Makes the directories that names lead through, where they are missing. -/
def makeDirectories (place : Place) : List String → ChangeM Place
  | [] => return place
  | name :: names => do
    match (← get).step place name with
    | .ok next =>
      if (← get).node? next ≠ some .directory then
        throw (if names.isEmpty then .alreadyExists else .notADirectory)
      makeDirectories next names
    | .error .notFound =>
      modify fun t => t.put (place ++ [name]) .directory
      makeDirectories (place ++ [name]) names
    | .error fault => throw fault

/-- Makes the directories of a path, where they are missing. -/
def makePath (p : Path) : ChangeM Place := do
  MonadExcept.ofExcept (checkPath p)
  makeDirectories ((← get).start p) p.names

/-- Writes a file named `name` at a place, over the file that may be there. -/
def write (place : Place) (name : String) (content : Bytes) : ChangeM Unit := do
  let next := place ++ [name]
  if longestName < name.utf8ByteSize then throw .nameTooLong
  match (← get).node? next with
  | some .directory => throw .isADirectory
  | some .sealedFile => throw .denied
  | _ => modify fun t => t.put next (.file content)

/-- Whether a name comes before another one, compared byte by byte. -/
def nameBefore (a b : String) : Bool :=
  List.lex (Bytes.utf8 a) (Bytes.utf8 b) fun x y => x.toNat < y.toNat

/-- The files of a tree, each with its place, in the order in which going through every directory by
the order of its names comes to them. -/
def files (t : FileTree) : List (Place × Bytes) :=
  let found := t.nodes.entries.filterMap fun e =>
    match e.2 with
    | .file content => some (e.1, content)
    | _ => none
  found.mergeSort fun a b => !List.lex b.1 a.1 nameBefore

end FileTree
end Retrace
