import Mathlib.Computability.Language
import Mathlib.Order.CompletePartialOrder
import Retrace.Log.Basic
import Retrace.Wire.Record

/-!
# The grammar of a log

What a log may look like, said without a reader. Each part of the format is given the language of
its renderings: all the byte strings that stand for a value, of which the writer uses one. Blanks
may come before every token, a number may be spelled in every way in which its type reads it, and
inside quotes a byte may stand for itself or be escaped.

A scalar is a run of token bytes. Wherever the grammar has one, what comes next is a mark, and no
mark begins with a token byte; so in a rendering of a whole log the run is always as long as it can
be.

The records of scripts are the one place where the grammar speaks of more than bytes. They do not
hold the text of the script, so `Event.grammar` asks for the text that a store has under its key.
-/

namespace Retrace
namespace Grammar

/-! ## Tokens -/

def blanks : Language UInt8 := {w | ∀ b ∈ w, Bytes.isBlank b = true}

/-- A byte that has to come next. -/
def mark (c : Char) : Language UInt8 := blanks * {Bytes.ascii [c]}

/-- The runs of token bytes with the given characters. -/
def run (cs : List Char) : Language UInt8 :=
  {w | w ≠ [] ∧ (∀ b ∈ w, Bytes.isToken b = true) ∧ Bytes.latin w = cs}

def token (cs : List Char) : Language UInt8 := blanks * run cs

/-- The spellings of a scalar: the tokens that are read as it. -/
def scalar {α : Type} (s : Scalar α) (a : α) : Language UInt8 :=
  {w | ∃ cs, s.ofChars? cs = some a ∧ w ∈ token cs}

def null : Language UInt8 := token ['n', 'u', 'l', 'l']

/-! ## Texts -/

/-- What bytes between quotes stand for: themselves, but for escapes. -/
inductive Unescaped : Bytes → Bytes → Prop where
  | nil : Unescaped [] []
  | plain {b : UInt8} {raw content : Bytes} : b ≠ 34 → b ≠ 92 → Unescaped raw content →
      Unescaped (b :: raw) (b :: content)
  | letter {e b : UInt8} {raw content : Bytes} : Quoted.letter? e = some b →
      Unescaped raw content → Unescaped (92 :: e :: raw) (b :: content)
  | unicode {h₁ h₂ h₃ h₄ : UInt8} {c : Char} {raw content : Bytes} :
      Quoted.unicode? h₁ h₂ h₃ h₄ = some c → Unescaped raw content →
      Unescaped (92 :: 117 :: h₁ :: h₂ :: h₃ :: h₄ :: raw) (String.utf8EncodeChar c ++ content)

/-- What may stand between the quotes of a text: what stands for its bytes. -/
def content (s : String) : Language UInt8 := {w | Unescaped w (Bytes.utf8 s)}

def text (s : String) : Language UInt8 := mark '"' * content s * {Bytes.ascii ['"']}

def key (k : Key) : Language UInt8 := text k.text * mark ':'

def keyed {α : Type} (k : Key) (s : Scalar α) (a : α) : Language UInt8 := key k * scalar s a

def keyedText (k : Key) (s : String) : Language UInt8 := key k * text s

/-! ## Values and sequences -/

/-- The key of a value's case. -/
def caseKey : Recorded → Key
  | .null => .nullVal
  | .bool _ => .boolVal
  | .i32 _ => .i32Val
  | .u32 _ => .u32Val
  | .i64 _ => .i64Val
  | .u64 _ => .u64Val
  | .f64 _ => .doubleVal
  | .str _ => .stringVal
  | .ref _ => .tagVal

/-- What a value holds behind the key of its case. -/
def held : Recorded → Language UInt8
  | .null => null
  | .bool b => scalar .bool b
  | .i32 n => scalar .i32 n
  | .u32 n => scalar .u32 n
  | .i64 n => scalar .i64 n
  | .u64 n => scalar .u64 n
  | .f64 x => scalar .f64 x
  | .str s => text s
  | .ref tag => scalar .u64 tag.id

def value (v : Recorded) : Language UInt8 := mark '{' * key (caseKey v) * held v * mark '}'

def keyedValue (k : Key) (v : Recorded) : Language UInt8 := key k * value v

/-- Elements that come after others: each has a comma before it. -/
def more {α : Type} (element : α → Language UInt8) (list : List α) : Language UInt8 :=
  (list.map fun a => mark ',' * element a).prod

/-- Elements with one comma between each two. -/
def separated {α : Type} (element : α → Language UInt8) : List α → Language UInt8
  | [] => 1
  | a :: list => element a * more element list

/-- A sequence behind its length. -/
def sequence {α : Type} (k : Key) (element : α → Language UInt8) (list : List α) :
    Language UInt8 :=
  {w | ∃ count : UInt32, list.length = count.toNat ∧
    w ∈ keyed .length .u32 count * mark ',' * (key k * mark '[') * separated element list *
      mark ']'}

end Grammar

/-! ## Records -/

open Grammar

/-- The renderings of a field, without the comma in front of it. -/
def Field.grammar {α : Type} : Field α → α → Language UInt8
  | scalar k s, a => Grammar.keyed k s a
  | text k, s => Grammar.keyedText k s
  | value k, v => Grammar.keyedValue k v
  | arrayType, () => Grammar.keyed .typeId .u32 arrayTypeId
  | optionalValue, none => Grammar.keyed .boolVal .bool false
  | optionalValue, some v =>
    Grammar.keyed .boolVal .bool true * mark ',' * Grammar.keyedValue .entry v
  | bytes, list => sequence .bytes (Grammar.scalar .u8) list
  | values, list => sequence .values Grammar.value list
  | diagnostics, none => key .diag * null
  | diagnostics, some s => key .diag * mark '{' * Grammar.keyedText .name s * mark '}'

/-- The renderings of the fields of a record, each with a comma in front of it. -/
def Layout.grammar {α : Type} : Layout α → α → Language UInt8
  | done, () => 1
  | field f rest, (a, b) => mark ',' * f.grammar a * rest.grammar b

def RecordHeader.grammar (h : RecordHeader) : Language UInt8 :=
  keyed .eventTime .i64 h.time.ticks * mark ',' * keyed .ctxTag .u64 h.context.id * mark ',' *
    keyed .actionKind .u32 h.kind.number

/-- If the action parses a script, its text is the one that is loaded for it, and so long that a
record can declare it. -/
def Action.Stored (load : Loader) : Action → Prop
  | codeParse s => load s.key = .ok s.text ∧ s.text.utf8ByteSize < UInt32.size
  | _ => True

/-- The renderings of an event as a record, with a store that texts are loaded from. -/
def Event.grammar (load : Loader) (e : Event) : Language UInt8 :=
  {w | e.action.Stored load ∧
    w ∈ mark '{' * RecordHeader.grammar ⟨e.time, e.context, e.kind⟩ *
      e.kind.layout.grammar e.action.fields * mark '}'}

/-! ## Logs -/

/-- The renderings of what comes after the records: how many there are has to be said. -/
def Grammar.endMarker (count : Nat) : Language UInt8 :=
  {w | ∃ declared : UInt64, declared.toNat = count ∧
    w ∈ mark ']' * mark ',' * keyed .endOfLog .u64 declared * mark '}'}

/-- The renderings of a log, with a store that texts are loaded from. -/
def Log.grammar (load : Loader) (log : Log) : Language UInt8 :=
  mark '{' * keyed .version .u32 formatVersion * mark ',' * (key .actions * mark '[') *
    separated (Event.grammar load) log.events.toList * endMarker log.size

end Retrace
