import Retrace.Basic
import Retrace.Files.Tree

/-!
# Where a script's text is kept

A log does not hold the text of the scripts it mentions. It names them by a `SourceKey`, and a store
of sources has the text under that key. This module holds the keys and what a store may answer
instead of a text.
-/

namespace Retrace

/-- Names the text of a script: a directory, which may be empty, a document and an address. -/
structure SourceKey where
  directory : String
  document : String
  uri : String
deriving DecidableEq, Repr

/-- The name of a document within a source key. -/
def DocumentId.sourceName (d : DocumentId) : String := s!"{d}ld"

/-- Why a store of sources has no answer. -/
inductive SourceError where
  | file (path : Path) (fault : FileFault)
  | notFound (key : SourceKey)
  /-- The text that was found is not as long as the log says. -/
  | lengthMismatch (uri : String) (declared : UInt32) (found : Nat)
deriving DecidableEq, Repr

/-- The error as it is shown. -/
def SourceError.message : SourceError → String
  | file path fault => s!"I/O error on {path}: " ++ fault.message
  | notFound ⟨directory, document, uri⟩ => s!"no source stored for {directory}/{document}/{uri}"
  | lengthMismatch uri declared found =>
    s!"source for {uri} has length {found}, log declares {declared.toNat}"

end Retrace
