import Retrace.Command.Dump
import Retrace.Command.Line
import Retrace.Log.Reading
import Retrace.Log.Structure
import Retrace.Replay.Playback
import Retrace.Sandbox.Basic
import Retrace.Source.Directory

/-!
# Doing what a command says

A command is a function from what the files hold to what is printed and the code that is returned.
The sources of a log are looked for below a directory that is given, or else below the directory
that the log is in.
-/

namespace Retrace

/-- What comes of a command: the code that is returned, and what is printed for either reader. -/
structure Report where
  code : UInt8
  output : String
  complaints : String
deriving DecidableEq, Repr

namespace Report

/-- Lines, each with its end. -/
def lines (list : List String) : String := String.join (list.map fun line => line ++ "\n")

/-- The report on a command that did what it was to do; there may be complaints all the same. -/
def success (output complaints : List String) : Report := ⟨0, lines output, lines complaints⟩

/-- The report on a command that failed, with the reason behind the complaints. -/
def failure (complaints : List String) (message : String) : Report :=
  ⟨1, "", lines (complaints ++ ["Error: " ++ message])⟩

/-- The report on a line of words that says no command: help, or what is wrong. -/
def ofUsage : Usage → Report
  | .help => ⟨0, lines usage, ""⟩
  | .wrong message => ⟨2, "", lines (("error: " ++ message) :: "" :: usage)⟩
where
  usage : List String :=
    ["Usage: ttlog dump [--sources <DIR>] [--json] [--skip-bad] <LOG>",
      "       ttlog verify [--sources <DIR>] <LOG>",
      "       ttlog replay [--sources <DIR>] [--max-depth <N>] [--until <TIME>]",
      "                    [--verify-exceptions] <LOG>"]

end Report

/-! ## Finding the log and its sources -/

/-- The directory below which the sources of a log are looked for. -/
def sourceRoot (log : Path) (sources : Option Path) : Path :=
  match sources with
  | some root => root
  | none =>
    match log.parent? with
    | some parent => if parent.text = "" then ⟨"."⟩ else parent
    | none => ⟨"."⟩

/-- Opens a log. A directory can be opened, and only then not be read. -/
def FileReading.openLog (files : FileReading) (log : Path) : Except String Reader :=
  match files log with
  | .ok bytes => .ok (.ofBytes bytes)
  | .error .isADirectory => .ok (.broken (.file .isADirectory))
  | .error fault => .error (s!"failed to open log '{log}': " ++ fault.message)

/-- Reads a whole log with the texts of its scripts. -/
def FileReading.readLog (files : FileReading) (log : Path) (sources : Option Path) :
    Except String Log := do
  let reader ← files.openLog log
  (Log.read (SourceKey.loadFrom files (sourceRoot log sources)) reader).mapError LogError.message

/-- The files of those sources that a log asks for and that were not found. -/
def FileReading.missing (files : FileReading) (log : Path) (sources : Option Path) : List Path :=
  let root := sourceRoot log sources
  match files.openLog log with
  | .error _ => []
  | .ok reader =>
    match Log.readTolerant (SourceKey.loadFrom files root) .skipBad reader with
    | .error _ => []
    | .ok reading =>
      (reading.skipped.map SkippedRecord.failure ++ reading.fatal.toList).filterMap fun failure =>
        match failure.error with
        | .source (.notFound key) => some (key.path root)
        | _ => none

/-! ## Dumping -/

/-- What is said about a record that was left out. -/
def ReadFailure.complaint (failure : ReadFailure) : String :=
  s!"skipping record {failure.records}: " ++ failure.error.message

/-- A log as data or line by line. -/
def Log.dumped (log : Log) (json : Bool) : List String :=
  let events := log.events.toList
  if json then [(Json.arr (events.map Event.json)).pretty] else events.map Event.line

/-- Shows the events of a log. Records that cannot be read end the command, or are left out and
complained about. -/
def dump (files : FileReading) (log : Path) (sources : Option Path) (json skipBad : Bool) :
    Report :=
  let tolerance := if skipBad then Tolerance.skipBad else .strict
  match files.openLog log with
  | .error message => .failure [] message
  | .ok reader =>
    match Log.readTolerant (SourceKey.loadFrom files (sourceRoot log sources)) tolerance reader with
    | .error failure => .failure [] failure.error.message
    | .ok reading =>
      let skipped := reading.skipped.map fun record => record.failure.complaint
      match reading.fatal with
      | some failure =>
        let last := if skipBad then [failure.complaint] else []
        .failure (skipped ++ last) failure.error.message
      | none =>
        let count := skipped.length
        let total := if count = 0 then [] else [s!"{count} record(s) skipped"]
        .success (reading.log.dumped json) (skipped ++ total)

/-! ## Verifying -/

/-- Reads a log and checks how its calls nest, without replaying it. -/
def verify (files : FileReading) (log : Path) (sources : Option Path) : Report :=
  match files.readLog log sources with
  | .error message => .failure [] message
  | .ok log =>
    let problems := log.problems.map Problem.message
    let count := problems.length
    let size := log.size
    if count = 0 then .success [s!"ok: {size} action(s)"] []
    else .failure problems s!"{count} problem(s) in {size} action(s)"

/-! ## Replaying -/

/-- What is said about an exception that came out of a root call. -/
def complaintOfException (root ended : Time) (terminating : Bool) : String :=
  let what := if terminating then "terminating" else "uncaught"
  s!"{what} exception in root call {root} (ended at {ended})"

/-- Goes on after every exception that no script caught, at most so often. Answers the complaints
about them, first one first, the error that stopped the replay, and where it has come to. -/
def replayAll {ρ η σ : Type} (go : PlaybackM ρ η σ Unit) (complaints : List String) :
    Nat → Playback ρ η σ → List String × Option ReplayError × Playback ρ η σ
  | 0, p => (complaints, none, p)
  | rounds + 1, p =>
    match go p with
    | .ok () p => (complaints, none, p)
    | .error (.uncaughtException root ended terminating) p =>
      replayAll go (complaints ++ [complaintOfException root ended terminating]) rounds p
    | .error error p => (complaints, some error, p)

/-- Sums up how far a replay in the sandbox has come, and with how many exceptions. -/
def summary (p : Playback Sandbox ObjectRef SandboxSnapshot) (uncaught : Nat) : List String :=
  let size := p.log.size
  let last := match p.last with
    | some time => toString time
    | none => "-"
  let calls := p.session.engine.calls.toNat
  let tagged := p.session.tags.size
  let pending := p.session.callbacks.pending.size
  [s!"replayed {p.position} of {size} action(s), last time {last}",
    s!"calls: {calls}, tagged objects: {tagged}, pending callbacks: {pending}, " ++
      s!"uncaught exceptions: {uncaught}"]

/-- Replays a log in a fresh sandbox. Every exception that no script caught ends a call of the log,
so there are at most as many rounds as events, and one more. -/
def replay (files : FileReading) (log : Path) (sources : Option Path) (maxDepth : Nat)
    (target : Option Time) (verifyExceptions : Bool) : Report :=
  match files.readLog log sources with
  | .error message => .failure [] message
  | .ok log =>
    let settings : Settings := { maxDepth, verifyExceptions }
    let go := match target with
      | some target => Playback.runUntil target
      | none => Playback.run
    let start := Playback.start log (.start (Sandbox.fresh none) settings .empty)
    match replayAll go [] (log.size + 1) start with
    | (complaints, some error, _) => .failure complaints error.message
    | (complaints, none, p) => .success (summary p complaints.length) complaints

/-! ## Commands -/

/-- The log of a command, and where its sources are to be looked for. -/
def Command.inputs : Command → Path × Option Path
  | dump log sources _ _ => (log, sources)
  | verify log sources => (log, sources)
  | replay log sources _ _ _ => (log, sources)

/-- Does what a command says. -/
def Command.run (files : FileReading) : Command → Report
  | dump log sources json skipBad => Retrace.dump files log sources json skipBad
  | verify log sources => Retrace.verify files log sources
  | replay log sources maxDepth target verifyExceptions =>
    Retrace.replay files log sources maxDepth target verifyExceptions

/-- The files that a command asks for, of those that were not found. Whoever reads files only when
they are asked for can look for these, and ask again until nothing new is wanted. A record that is
left out for its missing source hides no other one from this list for good: once the source is
found, reading goes through it as it would have gone at first. -/
def Command.wanted (files : FileReading) (command : Command) : List Path :=
  let (log, sources) := command.inputs
  log :: files.missing log sources

/-- Does what a line of words says. -/
def runLine (files : FileReading) (environment : Environment) (words : List String) : Report :=
  match Command.ofLine environment words with
  | .ok command => command.run files
  | .error usage => .ofUsage usage

end Retrace
