import Retrace.Basic
import Retrace.Files.Path
import Retrace.OrderedMap
import Retrace.Wire.Scalar

/-!
# The command line

A command line names a tool, a log, and options. `Command.ofLine` reads it: words that start with a
minus sign are options, up to a word of two minus signs; an option that takes a value takes the rest
of its word or else the next word; no option may be given twice. Some options may also be set by the
environment, for the tools that know them.
-/

namespace Retrace

/-- What is to be done with a log. -/
inductive Command where
  | dump (log : Path) (sources : Option Path) (json skipBad : Bool)
  | verify (log : Path) (sources : Option Path)
  | replay (log : Path) (sources : Option Path) (maxDepth : Nat) (target : Option Time)
      (verifyExceptions : Bool)
deriving DecidableEq, Repr

/-- Why a command line does not say what to do. -/
inductive Usage where
  | help
  | wrong (message : String)
deriving DecidableEq, Repr

/-- The settings of the environment, by name. -/
abbrev Environment := OrderedMap String String

/-! ## Tools and options -/

/-- What a command line can ask to be done. -/
inductive Tool where
  | dump
  | verify
  | replay
deriving DecidableEq, Repr

/-- The options of all tools together. -/
inductive Flag where
  | sources
  | json
  | skipBad
  | maxDepth
  | target
  | verifyExceptions
deriving DecidableEq, Repr

namespace Flag

/-- The name of an option behind two minus signs. -/
def name : Flag → String
  | sources => "sources"
  | json => "json"
  | skipBad => "skip-bad"
  | maxDepth => "max-depth"
  | target => "until"
  | verifyExceptions => "verify-exceptions"

/-- The letter that may stand for an option behind one minus sign. -/
def letter? : Flag → Option Char
  | sources => some 's'
  | _ => none

/-- Whether an option has a value. One that has none is set by being named. -/
def takesValue : Flag → Bool
  | sources | maxDepth | target => true
  | json | skipBad | verifyExceptions => false

/-- The setting of the environment that stands for an option that is not given. -/
def setting? : Flag → Option String
  | sources => some "TTLOG_SOURCES"
  | maxDepth => some "TTLOG_MAX_DEPTH"
  | _ => none

/-- Whether a value makes sense for an option. -/
def accepts (flag : Flag) (value : String) : Bool :=
  match flag with
  | sources => value ≠ ""
  | maxDepth => (Scalar.u64.ofChars? value.toList).isSome
  | target => (Scalar.i64.ofChars? value.toList).isSome
  | _ => true

end Flag

namespace Tool

/-- The tool with a name. -/
def ofName? (name : String) : Option Tool :=
  if name = "dump" then some dump
  else if name = "verify" then some verify
  else if name = "replay" then some replay
  else none

/-- The options that a tool knows. -/
def flags : Tool → List Flag
  | dump => [.sources, .json, .skipBad]
  | verify => [.sources]
  | replay => [.sources, .maxDepth, .target, .verifyExceptions]

end Tool

/-! ## Reading the words -/

/-- What the words read so far have said. -/
structure Given where
  log : Option Path
  flags : OrderedMap Flag String
  /-- An option whose value has to be the next word. -/
  waiting : Option Flag
  /-- Whether all words to come are paths, whatever they start with. -/
  onlyPaths : Bool
deriving DecidableEq, Repr

namespace Given

/-- What no words say. -/
def empty : Given := ⟨none, .empty, none, false⟩

/-- Takes a word for the log, which is the only path there is. -/
def addPath (given : Given) (word : String) : Except Usage Given :=
  match given.log with
  | some _ => .error (.wrong s!"unexpected argument '{word}' found")
  | none =>
    if word = "" then .error (.wrong "a value is required for '<LOG>' but none was supplied")
    else .ok { given with log := some ⟨word⟩ }

/-- Takes an option with its value, which no longer has to come. -/
def addFlag (given : Given) (flag : Flag) (value : String) : Except Usage Given :=
  let name := flag.name
  if given.flags.contains flag then
    .error (.wrong s!"the argument '--{name}' cannot be used multiple times")
  else if !flag.accepts value then .error (.wrong s!"invalid value '{value}' for '--{name}'")
  else .ok { given with flags := given.flags.insert flag value, waiting := none }

/-- Fails if an option still waits for its value. -/
def checkWaiting (given : Given) : Except Usage Unit :=
  match given.waiting with
  | some flag =>
    let name := flag.name
    .error (.wrong s!"a value is required for '--{name}' but none was supplied")
  | none => .ok ()

/-- The value of an option, if it was given. -/
def value? (given : Given) (flag : Flag) : Option String := given.flags.get? flag

end Given

/-- Whether a word is read as an option. A minus sign alone is a path. -/
def isOption (word : String) : Bool := word.toList.head? = some '-' && word ≠ "-"

/-- An option as it is spelled in a word, with the value that is part of the word. -/
inductive Spelled where
  | help
  | flag (flag : Flag) (value : Option String)
  | unknown
deriving DecidableEq, Repr

/-- An option that is spelled with its name, which an equals sign may follow and a value. -/
def Tool.ofLong (tool : Tool) (cs : List Char) : Spelled :=
  let name := String.ofList (cs.takeWhile (· ≠ '='))
  let value := match cs.dropWhile (· ≠ '=') with
    | [] => none
    | _ :: value => some (String.ofList value)
  if name = "help" then (if value.isNone then .help else .unknown)
  else match tool.flags.find? fun flag => flag.name = name with
    | some flag => .flag flag value
    | none => .unknown

/-- An option that is spelled with its letter, which a value may follow. -/
def Tool.ofShort (tool : Tool) : List Char → Spelled
  | [] => .unknown
  | c :: cs =>
    if c = 'h' then .help
    else match tool.flags.find? fun flag => flag.letter? = some c with
      | some flag => .flag flag <| match cs with
        | [] => none
        | '=' :: value => some (String.ofList value)
        | value => some (String.ofList value)
      | none => .unknown

/-- The option that a word spells, with its name or with its letter. -/
def Tool.spelled (tool : Tool) (word : String) : Spelled :=
  match word.toList with
  | '-' :: '-' :: cs => tool.ofLong cs
  | '-' :: cs => tool.ofShort cs
  | _ => .unknown

/-- Reads a word that starts with a minus sign. The value of an option may be part of the word, and
otherwise has to be the next one. -/
def Tool.readOption (tool : Tool) (given : Given) (word : String) : Except Usage Given := do
  given.checkWaiting
  if word = "--" then return { given with onlyPaths := true }
  match tool.spelled word with
  | .help => throw .help
  | .unknown => throw (.wrong s!"unexpected argument '{word}' found")
  | .flag flag value =>
    match flag.takesValue, value with
    | true, some value => given.addFlag flag value
    | true, none => return { given with waiting := some flag }
    | false, some _ => throw (.wrong s!"unexpected value for '{word}' found")
    | false, none => given.addFlag flag ""

/-- Reads a word as an option, as the value of the option before it, or as a path. -/
def Tool.readWord (tool : Tool) (given : Given) (word : String) : Except Usage Given :=
  if given.onlyPaths then given.addPath word
  else if isOption word then tool.readOption given word
  else match given.waiting with
    | some flag => given.addFlag flag word
    | none => given.addPath word

/-! ## The command -/

/-- Adds what the environment says about options that were not given. -/
def Tool.withEnvironment (tool : Tool) (environment : Environment) (given : Given) :
    Except Usage Given :=
  tool.flags.foldlM (fun given flag =>
    match flag.setting?.bind environment.get? with
    | some value => if given.flags.contains flag then .ok given else given.addFlag flag value
    | none => .ok given) given

/-- The command that the words have said. What was given is in range by now, so nothing can fail. -/
def Tool.command (tool : Tool) (log : Path) (given : Given) : Command :=
  let sources := (given.value? .sources).map Path.mk
  let maxDepth := (given.value? .maxDepth).bind fun s => Scalar.u64.ofChars? s.toList
  let target := (given.value? .target).bind fun s => Scalar.i64.ofChars? s.toList
  match tool with
  | .dump => .dump log sources (given.value? .json).isSome (given.value? .skipBad).isSome
  | .verify => .verify log sources
  | .replay => .replay log sources ((maxDepth.map UInt64.toNat).getD 256) (target.map Time.mk)
      (given.value? .verifyExceptions).isSome

/-- The command that a line of words says, or why it says none. -/
def Command.ofLine (environment : Environment) : List String → Except Usage Command
  | [] => .error (.wrong "a subcommand is required")
  | word :: words =>
    if word = "-h" ∨ word = "--help" then .error .help
    else if word = "help" then
      match words with
      | [] => .error .help
      | [topic] =>
        if topic = "help" ∨ (Tool.ofName? topic).isSome then .error .help
        else .error (.wrong s!"unrecognized subcommand '{topic}'")
      | _ => .error (.wrong "unrecognized subcommand")
    else match Tool.ofName? word with
      | none => .error (.wrong s!"unrecognized subcommand '{word}'")
      | some tool => do
        let given ← words.foldlM tool.readWord .empty
        given.checkWaiting
        let given ← tool.withEnvironment environment given
        match given.log with
        | some log => .ok (tool.command log given)
        | none => .error (.wrong "the following required arguments were not provided: <LOG>")

end Retrace
