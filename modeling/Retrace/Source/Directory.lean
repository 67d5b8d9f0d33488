import Retrace.Source.Store

/-!
# Sources in files

A `DirectoryStore` keeps every text in a file of its own below a root: under the directory of the
key, if it has one, the document, and the address. Each of the three becomes a file name by
`fileName`, which escapes whatever a name may not hold or would be misread, so that different keys
have different files and no key leads out of the root.
-/

namespace Retrace

/-! ## Names of files -/

/-- The upper-case digit of a number below sixteen. -/
def upperHexDigit (n : Nat) : Char := Char.ofNat (if n < 10 then 48 + n else 55 + n)

/-- How a byte is written that may not stand for itself. -/
def percentEscape (b : UInt8) : List Char :=
  ['%', upperHexDigit (b.toNat / 16), upperHexDigit (b.toNat % 16)]

/-- Whether a byte stands for itself in a file name: letters, digits, `-` and `_`. -/
def isNameByte (b : UInt8) : Bool := Bytes.isDigit b || Bytes.isLetter b || b = 45 || b = 95

/-- The file name for a piece of a source key. A piece of nothing but points has them escaped, for
`.` and `..` are no file names; the empty piece is a lone percent sign, which no other piece gives.
-/
def fileName (piece : String) : String :=
  let bytes := Bytes.utf8 piece
  if bytes = [] then "%"
  else
    let onlyPoints := bytes.all fun b => b = 46
    String.ofList <| bytes.flatMap fun b =>
      if isNameByte b || (b = 46 && !onlyPoints) then [Char.ofUInt8 b] else percentEscape b

/-- The names of the directories that a key's file is in, below the root. -/
def SourceKey.directories (key : SourceKey) : List String :=
  if key.directory = "" then [fileName key.document]
  else [fileName key.directory, fileName key.document]

/-- The directory below a root that a key's file is in. -/
def SourceKey.directoryPath (root : Path) (key : SourceKey) : Path :=
  key.directories.foldl Path.join root

/-- The path below a root of the file that a key has. -/
def SourceKey.path (root : Path) (key : SourceKey) : Path :=
  (key.directoryPath root).join (fileName key.uri)

/-- How files are read: each path leads to its bytes. -/
abbrev FileReading := Path → Except FileFault Bytes

/-- The text of a key, from the file below a root. A file that is not there is a text that is not
stored; any other fault is one of the file. -/
def SourceKey.loadFrom (files : FileReading) (root : Path) (key : SourceKey) :
    Except SourceError String :=
  let path := key.path root
  match files path with
  | .error .notFound => .error (.notFound key)
  | .error fault => .error (.file path fault)
  | .ok bytes =>
    match Bytes.ofUtf8? bytes with
    | some text => .ok text
    | none => .error (.file path .notText)

/-! ## The store -/

/-- A store in the files below a root. -/
structure DirectoryStore where
  root : Path
  tree : FileTree
deriving DecidableEq, Repr

namespace DirectoryStore

instance : SourceStore DirectoryStore where
  load store key := key.loadFrom store.tree.read store.root
  save key text := fun store =>
    let directory := key.directoryPath store.root
    let path := key.path store.root
    match FileTree.makePath directory store.tree with
    -- the directories that were made up to the one that could not be stay
    | .error fault tree => .error (.file directory fault) { store with tree }
    | .ok place tree =>
      let write : FileTree.ChangeM Unit := do
        MonadExcept.ofExcept (FileTree.checkPath path)
        FileTree.write place (fileName key.uri) (Bytes.utf8 text)
      match write tree with
      | .error fault tree => .error (.file path fault) { store with tree }
      | .ok () tree => .ok () { store with tree }

end DirectoryStore
end Retrace
