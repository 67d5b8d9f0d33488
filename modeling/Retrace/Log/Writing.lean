import Retrace.Log.Basic
import Retrace.Source.Store
import Retrace.Wire.Record
import Retrace.Wire.Writer

/-!
# Writing a whole log

`Log.outputs` is everything that writing a log does, as a list. Performing it delivers text to a
sink and scripts to a store, in order, and stops at the first of the two that fails. So what has
been done when it stops is an initial piece of the list.
-/

namespace Retrace

/-- Where a log is written to, and what has got there. -/
structure Delivery (σ : Type) where
  sink : Sink
  store : σ
  /-- The texts that the store has taken, in order. -/
  stored : List (SourceKey × String)
deriving Repr

namespace Delivery

variable {σ : Type}

/-- Nothing delivered yet, with room for so much text. -/
def start (store : σ) (room : Option Nat) : Delivery σ := ⟨.withRoom room, store, []⟩

/-- Delivers text. -/
def put (bytes : Bytes) : EStateM LogError (Delivery σ) Unit := fun d =>
  match Sink.put bytes d.sink with
  | .ok () sink => .ok () { d with sink }
  | .error e sink => .error e { d with sink }

/-- Hands a text to the store. The text counts as stored once the store has taken it. -/
def save [SourceStore σ] (key : SourceKey) (text : String) : EStateM LogError (Delivery σ) Unit :=
  fun d =>
    match SourceStore.save key text d.store with
    | .ok () store => .ok () { d with store, stored := d.stored ++ [(key, text)] }
    | .error e store => .error (.source e) { d with store }

end Delivery

/-- Does one of the things that writing consists of. -/
def Output.perform {σ : Type} [SourceStore σ] : Output → EStateM LogError (Delivery σ) Unit
  | .text bytes => Delivery.put bytes
  | .script key content => Delivery.save key content
  | .refusal error => throw error

namespace Log

/-- Everything that writing a log does. -/
def outputs (log : Log) : List Output :=
  let records := match log.events.toList with
    | [] => []
    | first :: more => first.outputs true ++ more.flatMap (Event.outputs false)
  .text Wire.logStart :: records ++ [.text (Wire.endMarker log.size)]

/-- Writes a log, up to the first output that fails. -/
def write {σ : Type} [SourceStore σ] (log : Log) : EStateM LogError (Delivery σ) Unit :=
  log.outputs.forM Output.perform

end Log
end Retrace
