import Retrace.Log.Writing
import Retrace.Proofs.Wire.Records

/-!
# What writing a log delivers

Where there is room for all of it, and a store in memory, writing a log of short actions succeeds
(`Log.write_run`). The sink then has the records, one behind the other in the frame of the log, and
the store has each script's text. Scripts may share a key. As the later text replaces the earlier
one, a store is left with the last of them (`Log.loader_lastText`).
-/

namespace Retrace

/-! ## Doing what is to be done -/

namespace MemoryStore

/-- Puts texts under keys, one after the other. -/
def putAll (store : MemoryStore) (puts : List (SourceKey × String)) : MemoryStore :=
  puts.foldl (fun store put => ⟨store.texts.insert put.1 put.2⟩) store

theorem putAll_append (store : MemoryStore) (puts more : List (SourceKey × String)) :
    store.putAll (puts ++ more) = (store.putAll puts).putAll more := by
  unfold putAll
  rw [List.foldl_append]

theorem get?_putAll (store : MemoryStore) (puts : List (SourceKey × String)) (key : SourceKey) :
    (store.putAll puts).texts.get? key =
      ((puts.reverse.find? fun put => put.1 = key).map Prod.snd).or (store.texts.get? key) := by
  induction puts generalizing store with
  | nil => rfl
  | cons put puts ih =>
    have step : store.putAll (put :: puts) =
        MemoryStore.putAll ⟨store.texts.insert put.1 put.2⟩ puts := rfl
    rw [step, ih, List.reverse_cons, List.find?_append, OrderedMap.get?_insert]
    -- a later text wins over the one that is put first
    cases puts.reverse.find? fun put => put.1 = key with
    | some later => rfl
    | none =>
      by_cases same : put.1 = key
      · subst same
        simp
      · have other : ¬ key = put.1 := fun h => same h.symm
        simp [same, other]

end MemoryStore

theorem Sink.add_add (sink : Sink) (bytes more : Bytes) :
    (sink.add bytes).add more = sink.add (bytes ++ more) := by
  simp [add, List.reverseAux_eq]

namespace Output

/-- The text that is delivered. -/
def bytes : Output → Bytes
  | text bytes => bytes
  | script .. | refusal _ => []

/-- What the store is handed. -/
def saved : Output → List (SourceKey × String)
  | script key content => [(key, content)]
  | text _ | refusal _ => []

/-- Writing goes on. -/
def Accepted : Output → Prop
  | refusal _ => False
  | text _ | script .. => True

theorem perform_run {o : Output} (accepted : o.Accepted) {d : Delivery MemoryStore}
    (room : d.sink.room = none) : o.perform d =
      .ok () ⟨d.sink.add o.bytes, d.store.putAll o.saved, d.stored ++ o.saved⟩ := by
  cases o with
  | text bytes => simp [perform, Delivery.put, Sink.put, room, Output.bytes, saved,
      MemoryStore.putAll]
  | script key content => rfl
  | refusal error => exact accepted.elim

theorem forM_run {outputs : List Output} (accepted : ∀ o ∈ outputs, o.Accepted)
    {d : Delivery MemoryStore} (room : d.sink.room = none) : outputs.forM perform d =
      .ok () ⟨d.sink.add (outputs.flatMap bytes), d.store.putAll (outputs.flatMap saved),
        d.stored ++ outputs.flatMap saved⟩ := by
  induction outputs generalizing d with
  | nil => simp [Sink.add, MemoryStore.putAll]
  | cons o outputs ih =>
    have here := perform_run (accepted o List.mem_cons_self) room
    have there := ih (fun p mem => accepted p (List.mem_cons_of_mem _ mem))
      (d := ⟨d.sink.add o.bytes, d.store.putAll o.saved, d.stored ++ o.saved⟩) room
    have step : (o :: outputs).forM perform d =
        (o.perform >>= fun _ => outputs.forM perform) d := rfl
    rw [step, bind_run, here]
    refine there.trans ?_
    simp only [Sink.add_add, MemoryStore.putAll_append, List.flatMap_cons, List.append_assoc]

end Output

/-! ## The records of a log -/

/-- The script that an event records. -/
def Event.script? (e : Event) : Option Script :=
  match e.action with
  | .codeParse s => some s
  | _ => none

/-- The scripts of a log, in order. -/
def Log.scripts (log : Log) : List Script := log.events.toList.filterMap Event.script?

/-- What the store is handed for a script. -/
def Script.put (s : Script) : SourceKey × String := (s.key, s.text)

namespace Output

variable {b : Bytes} {o : Output} {size : Nat} {problem : Nat → FieldProblem}

@[simp] theorem text_accepted : (text b).Accepted := trivial

@[simp] theorem script_accepted {key : SourceKey} {content : String} :
    (script key content).Accepted := trivial

@[simp] theorem field_accepted : (field b).Accepted := trivial

@[simp] theorem text_bytes : (text b).bytes = b := rfl

@[simp] theorem script_bytes {key : SourceKey} {content : String} :
    (script key content).bytes = [] := rfl

@[simp] theorem field_bytes : (field b).bytes = 44 :: b := rfl

@[simp] theorem text_saved : (text b).saved = [] := rfl

@[simp] theorem script_saved {key : SourceKey} {content : String} :
    (script key content).saved = [(key, content)] := rfl

@[simp] theorem field_saved : (field b).saved = [] := rfl

@[simp] theorem ifShort_accepted :
    (ifShort size problem o).Accepted ↔ size < UInt32.size ∧ o.Accepted := by
  unfold ifShort
  split
  · rename_i large
    exact iff_of_false id fun h => Nat.not_lt.2 large h.1
  · rename_i short
    simp [Nat.lt_of_not_le short]

theorem ifShort_eq (short : size < UInt32.size) : ifShort size problem o = o :=
  if_neg (Nat.not_le.2 short)

end Output

namespace Action

variable {a : Action}

/-- Writing goes on where every length can be declared. -/
theorem outputs_accepted : (∀ o ∈ a.outputs, o.Accepted) ↔ a.Short := by
  cases a with
  | allocateFunction name => cases name <;> simp [outputs, Short]
  | _ => simp [outputs, Short]

/-- **The table that is written by agrees with the one that is read by**: the fields are those that
the layout of their kind says, in the order in which it says them. -/
theorem outputs_bytes (short : a.Short) :
    a.outputs.flatMap Output.bytes = a.kind.layout.written a.fields := by
  cases a with
  | allocateArrayBuffer | constructCall | callBegin | codeParse =>
    simp [outputs, Output.ifShort_eq short, kind, Kind.layout, Kind.form, fields, Layout.written,
      Field.written, Wire.length]
  | allocateFunction name =>
    cases name <;>
      simp [outputs, kind, Kind.layout, Kind.form, fields, Layout.written, Field.written]
  | _ => simp [outputs, kind, Kind.layout, Kind.form, fields, Layout.written, Field.written]

end Action

namespace Event

variable {e : Event} {first : Bool}

theorem outputs_accepted : (∀ o ∈ e.outputs first, o.Accepted) ↔ e.action.Short := by
  rw [← Action.outputs_accepted]
  simp only [outputs, List.cons_append, List.forall_mem_cons, List.forall_mem_append,
    Output.text_accepted, true_and, List.not_mem_nil, false_implies, implies_true, and_true]

theorem outputs_bytes (short : e.action.Short) :
    (e.outputs first).flatMap Output.bytes = e.record first := by
  simp [outputs, record, Action.outputs_bytes short, kind]

/-- The store is handed the text of a script, and nothing else. -/
theorem outputs_saved (short : e.action.Short) :
    (e.outputs first).flatMap Output.saved = e.script?.toList.map Script.put := by
  obtain ⟨time, context, action⟩ := e
  cases action with
  | codeParse | allocateArrayBuffer | constructCall | callBegin =>
    simp [outputs, Action.outputs, Output.ifShort_eq short, script?, Script.put]
  | allocateFunction name => cases name <;> simp [outputs, Action.outputs, script?]
  | _ => simp [outputs, Action.outputs, script?]

end Event

/-- The records of events, behind so many records already. -/
def Wire.records (before : Nat) : List Event → Bytes
  | [] => []
  | e :: more => e.record (before = 0) ++ records (before + 1) more

theorem Wire.records_append (before : Nat) (events more : List Event) :
    Wire.records before (events ++ more) =
      Wire.records before events ++ Wire.records (before + events.length) more := by
  induction events generalizing before with
  | nil => rfl
  | cons e events ih =>
    have count : before + (e :: events).length = before + 1 + events.length := by
      rw [List.length_cons]
      omega
    rw [List.cons_append, records, records, ih, List.append_assoc, count]

/-- What is done to write events, behind so many records already. -/
def Wire.outputs (before : Nat) : List Event → List Output
  | [] => []
  | e :: more => e.outputs (before = 0) ++ outputs (before + 1) more

namespace Wire

variable {before : Nat} {events : List Event}

theorem outputs_append (before : Nat) (events more : List Event) :
    outputs before (events ++ more) =
      outputs before events ++ outputs (before + events.length) more := by
  induction events generalizing before with
  | nil => rfl
  | cons e events ih =>
    have count : before + (e :: events).length = before + 1 + events.length := by
      rw [List.length_cons]
      omega
    rw [List.cons_append, outputs, outputs, ih, List.append_assoc, count]

theorem outputs_later (before : Nat) (events : List Event) :
    outputs (before + 1) events = events.flatMap (Event.outputs false) := by
  induction events generalizing before with
  | nil => rfl
  | cons e events ih =>
    rw [outputs, ih, List.flatMap_cons]
    rfl

theorem outputs_accepted (short : ∀ e ∈ events, e.action.Short) :
    ∀ o ∈ outputs before events, o.Accepted := by
  induction events generalizing before with
  | nil => exact fun o mem => absurd mem List.not_mem_nil
  | cons e events ih =>
    intro o mem
    rcases List.mem_append.1 mem with here | there
    · exact Event.outputs_accepted.2 (short e List.mem_cons_self) o here
    · exact ih (fun d inside => short d (List.mem_cons_of_mem _ inside)) o there

theorem outputs_bytes (short : ∀ e ∈ events, e.action.Short) :
    (outputs before events).flatMap Output.bytes = records before events := by
  induction events generalizing before with
  | nil => rfl
  | cons e events ih =>
    rw [outputs, List.flatMap_append, Event.outputs_bytes (short e List.mem_cons_self),
      ih fun d mem => short d (List.mem_cons_of_mem _ mem), records]

theorem outputs_saved (short : ∀ e ∈ events, e.action.Short) :
    (outputs before events).flatMap Output.saved =
      (events.filterMap Event.script?).map Script.put := by
  induction events generalizing before with
  | nil => rfl
  | cons e events ih =>
    rw [outputs, List.flatMap_append, Event.outputs_saved (short e List.mem_cons_self),
      ih fun d mem => short d (List.mem_cons_of_mem _ mem), List.filterMap_cons]
    cases e.script? <;> rfl

end Wire

namespace Log

variable {log : Log}

/-- Each length that is declared in the log fits. -/
def Short (log : Log) : Prop := ∀ e ∈ log.events.toList, e.action.Short

theorem outputs_eq (log : Log) : log.outputs = .text Wire.logStart ::
    (Wire.outputs 0 log.events.toList ++ [.text (Wire.endMarker log.size)]) := by
  unfold outputs
  cases log.events.toList with
  | nil => rfl
  | cons first more =>
    rw [Wire.outputs, Wire.outputs_later]
    rfl

theorem outputs_accepted (short : log.Short) : ∀ o ∈ log.outputs, o.Accepted := by
  rw [outputs_eq]
  intro o mem
  simp only [List.mem_cons, List.mem_append, List.not_mem_nil, or_false] at mem
  rcases mem with rfl | there | rfl
  · trivial
  · exact Wire.outputs_accepted short o there
  · trivial

theorem outputs_bytes (short : log.Short) : log.outputs.flatMap Output.bytes =
    Wire.logStart ++ (Wire.records 0 log.events.toList ++ Wire.endMarker log.size) := by
  rw [outputs_eq, List.flatMap_cons, List.flatMap_append, Wire.outputs_bytes short]
  simp [Output.bytes]

theorem outputs_saved (short : log.Short) :
    log.outputs.flatMap Output.saved = log.scripts.map Script.put := by
  rw [outputs_eq, List.flatMap_cons, List.flatMap_append, Wire.outputs_saved short]
  simp [Output.saved, scripts]

/-- **Writing a log of short actions succeeds.** -/
theorem write_run (short : log.Short) (store : MemoryStore) :
    ∃ d, log.write (Delivery.start store none) = .ok () d ∧
      d.sink.delivered =
        Wire.logStart ++ (Wire.records 0 log.events.toList ++ Wire.endMarker log.size) ∧
      d.store = store.putAll (log.scripts.map Script.put) := by
  have written := Output.forM_run (outputs_accepted short) (d := Delivery.start store none) rfl
  refine ⟨_, written, ?_, ?_⟩
  · rw [outputs_bytes short]
    exact Sink.delivered_add (Sink.withRoom none) _
  · rw [outputs_saved short]
    rfl

end Log

/-! ## Which text a store is left with -/

theorem DocumentId.sourceName_inj {d e : DocumentId} (same : d.sourceName = e.sourceName) :
    d = e := by
  have names : toString d.id.toNat ++ "ld" = toString e.id.toNat ++ "ld" := same
  have digits : Nat.toDigits 10 d.id.toNat = Nat.toDigits 10 e.id.toNat := by
    have chars := congrArg String.toList names
    simpa [Nat.toString_eq_ofList_toDigits] using chars
  have numbers : some d.id.toNat = some e.id.toNat := by
    rw [← Scalar.digitsOf?_toDigits, digits, Scalar.digitsOf?_toDigits]
  have ids := UInt64.toNat_inj.1 (Option.some.inj numbers)
  cases d
  cases e
  exact congrArg DocumentId.mk ids

namespace Script

/-- Two scripts share a directory, a document and an address, and so a place in a store. -/
def SameSource (s t : Script) : Prop :=
  s.directory = t.directory ∧ s.document = t.document ∧ s.uri = t.uri

instance (s t : Script) : Decidable (s.SameSource t) := inferInstanceAs (Decidable (_ ∧ _ ∧ _))

/-- A key tells all three apart. -/
theorem key_eq_iff {s t : Script} : s.key = t.key ↔ s.SameSource t := by
  constructor
  · intro same
    obtain ⟨directory, document, uri⟩ := SourceKey.mk.inj same
    exact ⟨directory, DocumentId.sourceName_inj document, uri⟩
  · rintro ⟨directory, document, uri⟩
    simp only [key, directory, document, uri]

end Script

namespace Log

/-- The text of the last script in a log that shares a script's source. -/
def lastText (log : Log) (s : Script) : String :=
  ((log.scripts.reverse.find? fun t => t.SameSource s).map Script.text).getD s.text

/-- How texts are loaded from a store that was handed those of a log. -/
def loader (log : Log) (store : MemoryStore) : Loader :=
  SourceStore.load (store.putAll (log.scripts.map Script.put))

/-- **A store is left with the last text of every source.** -/
theorem loader_lastText {log : Log} {s : Script} (mem : s ∈ log.scripts) (store : MemoryStore) :
    log.loader store s.key = .ok (log.lastText s) := by
  have keys : ((fun put : SourceKey × String => decide (put.1 = s.key)) ∘ Script.put) =
      fun t => decide (t.SameSource s) := by
    funext t
    exact decide_eq_decide.2 Script.key_eq_iff
  have stored := MemoryStore.get?_putAll store (log.scripts.map Script.put) s.key
  rw [← List.map_reverse, List.find?_map, keys] at stored
  unfold lastText
  cases found : log.scripts.reverse.find? fun t => t.SameSource s with
  | none =>
    have missing := List.find?_eq_none.1 found s (List.mem_reverse.2 mem)
    exact absurd (decide_eq_true ⟨rfl, rfl, rfl⟩) missing
  | some t =>
    rw [found] at stored
    simp only [loader, SourceStore.load, stored]
    rfl

end Log
end Retrace
