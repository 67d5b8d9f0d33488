import Retrace.Command.Run

/-!
# The command line tool

Only here files are read and text is printed. What a command says about files is a function of what
the files hold, so the files are read first, as far as the command wants them.
-/

namespace Retrace

/-- Files that were looked for, by their paths as they were written, with what came of it. -/
abbrev FoundFiles := OrderedMap String (Except FileFault Bytes)

/-- A file that was not looked for counts as one that is not there. -/
def FoundFiles.read (found : FoundFiles) : FileReading := fun path =>
  (found.get? path.text).getD (.error .notFound)

/-- Why a file could not be read, as far as the system says. -/
def FileFault.ofError : IO.Error → FileFault
  | .permissionDenied .. => .denied
  | .alreadyExists .. => .alreadyExists
  | .inappropriateType _ code _ => if code = 21 then .isADirectory else .notADirectory
  | .invalidArgument _ code _ => if code = 36 then .nameTooLong else .notFound
  | .resourceExhausted _ code _ => if code = 36 then .nameTooLong else .notFound
  | .otherError code _ =>
    if code = 20 then .notADirectory
    else if code = 21 then .isADirectory
    else if code = 36 then .nameTooLong
    else .notFound
  | _ => .notFound

/-- Looks for a file, and keeps what comes of it. -/
def FoundFiles.look (found : FoundFiles) (path : Path) : IO FoundFiles := do
  match ← (IO.FS.readBinFile path.text).toBaseIO with
  | .ok bytes => return found.insert path.text (.ok bytes.toList)
  | .error error => return found.insert path.text (.error (.ofError error))

/-- Looks for the files that a command wants, until it wants no other ones. -/
partial def FoundFiles.gather (command : Command) (found : FoundFiles) : IO FoundFiles := do
  match (command.wanted found.read).filter fun path => !found.contains path.text with
  | [] => return found
  | paths => (← paths.foldlM FoundFiles.look found).gather command

/-- The settings that the tools know. -/
def environment : IO Environment :=
  ["TTLOG_SOURCES", "TTLOG_MAX_DEPTH"].foldlM
    (fun settings name => do
      match ← IO.getEnv name with
      | some value => return settings.insert name value
      | none => return settings)
    .empty

/-- Does what a line of words says. -/
def perform (words : List String) : IO Report := do
  let environment ← environment
  match Command.ofLine environment words with
  | .ok command => return command.run (← FoundFiles.gather command .empty).read
  | .error usage => return .ofUsage usage

end Retrace

/-- Prints the report on a line of words, and returns its code. -/
def main (words : List String) : IO UInt32 := do
  let report ← Retrace.perform words
  IO.print report.output
  IO.eprint report.complaints
  return report.code.toUInt32
