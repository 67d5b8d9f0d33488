import Retrace.Proofs.Double.ReadBack
import Retrace.Proofs.Log.Exactness
import Retrace.Proofs.Log.RoundTrip

/-!
# A log that was read is written in one way

A log may be spelled in many ways, and all of them are read. What is written of it then is one
spelling, from which nothing changes any more (`Log.rewriting_settles`): it is read as the same log,
and written again as the same bytes.

For this, all that can be read has to be something that can be written. The grammar says that it
is: a sequence is read behind a length of 32 bits, the number of records is compared with one of 64,
and the text of a script is what the store has under its key. So two scripts of one source have one
text, and the store is handed what it has already.

Only a NaN is not written as it is: there is one word for all of them.
-/

namespace Retrace

open Grammar

/-! ## What has a rendering can be written -/

namespace Grammar

variable {α : Type} {element : α → Language UInt8} {list : List α} {w : Bytes}

/-- A sequence that has a rendering is no longer than its length can say. -/
theorem length_lt_of_mem_sequence {k : Key} (mem : w ∈ sequence k element list) :
    list.length < UInt32.size := by
  obtain ⟨count, same, -⟩ := mem
  rw [same]
  exact count.toNat_lt

theorem exists_mem_of_mem_more (mem : w ∈ more element list) :
    ∀ a ∈ list, ∃ v, v ∈ element a := by
  induction list generalizing w with
  | nil => exact fun a there => absurd there List.not_mem_nil
  | cons a list ih =>
    rw [Reader.more_cons] at mem
    obtain ⟨u, first, v, rest, rfl⟩ := Language.mem_mul.1 mem
    obtain ⟨comma, -, x, here, rfl⟩ := Language.mem_mul.1 first
    exact List.forall_mem_cons.2 ⟨⟨x, here⟩, ih rest⟩

/-- Where several elements have a rendering together, each has one. -/
theorem exists_mem_of_mem_separated (mem : w ∈ separated element list) :
    ∀ a ∈ list, ∃ v, v ∈ element a := by
  cases list with
  | nil => exact fun a there => absurd there List.not_mem_nil
  | cons a list =>
    obtain ⟨u, first, v, rest, rfl⟩ := Language.mem_mul.1 mem
    exact List.forall_mem_cons.2 ⟨⟨u, first⟩, exists_mem_of_mem_more rest⟩

end Grammar

/-- A field behind its comma, and the fields after it. -/
theorem Layout.mem_grammar_field {α β : Type} {f : Field α} {rest : Layout β} {a : α} {b : β}
    {w : Bytes} (mem : w ∈ (Layout.field f rest).grammar (a, b)) :
    (∃ v, v ∈ f.grammar a) ∧ ∃ v, v ∈ rest.grammar b := by
  obtain ⟨u, first, v, others, rfl⟩ := Language.mem_mul.1 mem
  obtain ⟨comma, -, x, here, rfl⟩ := Language.mem_mul.1 first
  exact ⟨⟨x, here⟩, ⟨v, others⟩⟩

/-- **An action that has a rendering is short**: its record can declare all its lengths. -/
theorem Action.short_of_grammar {load : Loader} {a : Action} {w : Bytes} (stored : a.Stored load)
    (mem : w ∈ a.kind.layout.grammar a.fields) : a.Short := by
  cases a with
  | allocateArrayBuffer bytes =>
    obtain ⟨⟨v, list⟩, -⟩ := Layout.mem_grammar_field mem
    exact length_lt_of_mem_sequence list
  | constructCall function args =>
    obtain ⟨-, v, mem⟩ := Layout.mem_grammar_field mem
    obtain ⟨⟨v, list⟩, -⟩ := Layout.mem_grammar_field mem
    exact length_lt_of_mem_sequence list
  | callBegin call =>
    -- the arguments come behind five other fields
    obtain ⟨-, v, mem⟩ := Layout.mem_grammar_field mem
    obtain ⟨-, v, mem⟩ := Layout.mem_grammar_field mem
    obtain ⟨-, v, mem⟩ := Layout.mem_grammar_field mem
    obtain ⟨-, v, mem⟩ := Layout.mem_grammar_field mem
    obtain ⟨-, v, mem⟩ := Layout.mem_grammar_field mem
    obtain ⟨⟨v, list⟩, -⟩ := Layout.mem_grammar_field mem
    exact length_lt_of_mem_sequence list
  | codeParse s => exact stored.2
  | _ => trivial

theorem Event.short_of_grammar {load : Loader} {e : Event} {w : Bytes} (mem : w ∈ e.grammar load) :
    e.action.Short := by
  obtain ⟨stored, whole⟩ := mem
  obtain ⟨u, inside, brace, -, rfl⟩ := Language.mem_mul.1 whole
  obtain ⟨header, -, v, fields, rfl⟩ := Language.mem_mul.1 inside
  exact Action.short_of_grammar stored fields

namespace Log

variable {load : Loader} {bytes : Bytes} {log : Log} {s t : Script}

theorem stored_of_mem_scripts (stored : ∀ e ∈ log.events.toList, e.action.Stored load)
    (mem : s ∈ log.scripts) : load s.key = .ok s.text := by
  obtain ⟨e, there, isScript⟩ := List.mem_filterMap.1 mem
  have stored := stored e there
  rw [action_of_script? isScript] at stored
  exact stored.1

/-- **What can be read can be written**: its lengths fit, its scripts have the texts that the store
    has for them, and its events are countable. -/
theorem writable_of_read (given : read load (.ofBytes bytes) = .ok log) :
    log.Short ∧ (∀ s ∈ log.scripts, load s.key = .ok s.text) ∧ log.size < UInt64.size := by
  obtain ⟨w, isLog, -⟩ := (read_eq_ok_iff load bytes log).1 given
  obtain ⟨u, before, v, ⟨declared, count, -⟩, rfl⟩ := Language.mem_mul.1 isLog
  obtain ⟨start, -, records, events, rfl⟩ := Language.mem_mul.1 before
  have rendered := exists_mem_of_mem_separated events
  refine ⟨fun e there => ?_, fun s there => ?_, count ▸ declared.toNat_lt⟩
  · obtain ⟨w, mem⟩ := rendered e there
    exact Event.short_of_grammar mem
  · refine stored_of_mem_scripts (fun e there => ?_) there
    obtain ⟨w, stored, -⟩ := rendered e there
    exact stored

/-- Scripts that were loaded from one place have one text. -/
theorem alike_of_loaded (loaded : ∀ s ∈ log.scripts, load s.key = .ok s.text) :
    ∀ s ∈ log.scripts, ∀ t ∈ log.scripts, s.SameSource t → s.text = t.text := by
  intro s mem t mem' same
  have texts := (loaded s mem).symm.trans (Script.key_eq_iff.2 same ▸ loaded t mem')
  exact Except.ok.inj texts

end Log

/-! ## A store that is handed what it has -/

theorem MemoryStore.get?_of_load {store : MemoryStore} {key : SourceKey} {text : String}
    (loads : SourceStore.load store key = .ok text) : store.texts.get? key = some text := by
  simp only [SourceStore.load] at loads
  cases found : store.texts.get? key with
  | none => rw [found] at loads; exact absurd loads (by simp)
  | some there => rw [found] at loads; rw [Except.ok.inj loads]

/-- Texts that a store has already do not change it. -/
theorem MemoryStore.putAll_known {store : MemoryStore} {puts : List (SourceKey × String)}
    (known : ∀ put ∈ puts, store.texts.get? put.1 = some put.2) :
    (store.putAll puts).texts.keys = store.texts.keys ∧
      ∀ key, (store.putAll puts).texts.get? key = store.texts.get? key := by
  induction puts generalizing store with
  | nil => exact ⟨rfl, fun _ => rfl⟩
  | cons put puts ih =>
    have first := known put List.mem_cons_self
    have same (key : SourceKey) :
        (store.texts.insert put.1 put.2).get? key = store.texts.get? key := by
      rw [OrderedMap.get?_insert]
      split
      · rename_i here
        rw [here, first]
      · rfl
    have keys : (store.texts.insert put.1 put.2).keys = store.texts.keys :=
      OrderedMap.keys_insert_of_contains (by simp [OrderedMap.contains, first]) put.2
    have known : ∀ other ∈ puts, (store.texts.insert put.1 put.2).get? other.1 = some other.2 :=
      fun other mem => (same other.1).trans (known other (List.mem_cons_of_mem put mem))
    obtain ⟨restKeys, rest⟩ := @ih ⟨store.texts.insert put.1 put.2⟩ known
    exact ⟨restKeys.trans keys, fun key => (rest key).trans (same key)⟩

/-! ## Writing what is read back -/

/-- All NaNs are written alike. -/
theorem Double.chars_readBack (x : Double) : x.readBack.chars logDouble = x.chars logDouble := by
  unfold readBack
  split
  · rename_i isNaN
    have one : (nan false).chars logDouble = logDouble.nan.toList := by decide +kernel
    rw [one, chars, if_pos isNaN]
  · rfl

theorem Scalar.written_readBack {α : Type} (s : Scalar α) (a : α) :
    s.written (s.readBack a) = s.written a := by
  cases s with
  | f64 => exact congrArg Bytes.ascii (Double.chars_readBack a)
  | _ => rfl

namespace Wire

theorem value_readBack (v : Recorded) : value (Recorded.readBack v) = value v := by
  cases v with
  | f64 x =>
    have same := Scalar.f64.written_readBack x
    exact congrArg (fun text => 123 :: (Key.doubleVal.written ++ text) ++ [125]) same
  | _ => rfl

theorem values_readBack (list : List Recorded) :
    values (list.map Recorded.readBack) = values list := by
  have each : list.map (value ∘ Recorded.readBack) = list.map value :=
    List.map_congr_left fun v _ => value_readBack v
  unfold values sequence
  rw [List.map_map, List.length_map, each]

end Wire

theorem Field.written_readBack {α : Type} (f : Field α) (a : α) :
    f.written (f.readBack a) = f.written a := by
  cases f with
  | scalar k s => exact congrArg (k.written ++ ·) (s.written_readBack a)
  | value k => exact congrArg (k.written ++ ·) (Wire.value_readBack a)
  | values => exact Wire.values_readBack a
  | optionalValue =>
    cases a with
    | none => rfl
    | some v =>
      have same := Wire.value_readBack v
      exact congrArg (fun text =>
        Wire.keyed .boolVal .bool true ++ 44 :: (Key.entry.written ++ text)) same
  | text | arrayType | bytes | diagnostics => rfl

theorem Layout.written_readBack {α : Type} (layout : Layout α) (a : α) :
    layout.written (layout.readBack a) = layout.written a := by
  induction layout with
  | done => rfl
  | field f rest ih =>
    obtain ⟨a, b⟩ := a
    rw [readBack, written, written, f.written_readBack, ih]

/-- What is read where an event was written is written like it. -/
theorem Event.record_readBack (first : Bool) (e : Event) :
    (e.mapDouble Double.readBack).record first = e.record first := by
  have fields := e.kind.layout.written_readBack e.action.fields
  obtain ⟨time, context, action⟩ := e
  unfold record
  rw [← fields]
  cases action <;> rfl

theorem Action.short_mapDouble {f : Double → Double} {a : Action} (short : a.Short) :
    (a.mapDouble f).Short := by
  cases a with
  | allocateArrayBuffer | codeParse => exact short
  | constructCall | callBegin => simpa [mapDouble, Short] using short
  | _ => trivial

theorem Wire.records_readBack (before : Nat) (events : List Event) :
    records before (events.map (Event.mapDouble Double.readBack)) = records before events := by
  induction events generalizing before with
  | nil => rfl
  | cons e events ih => rw [List.map_cons, records, records, Event.record_readBack, ih]

/-! ## Writing what was read -/

namespace Log

variable {store : MemoryStore} {bytes : Bytes} {log : Log}

/-- **A log that was read is written, and from then on it stays as it is written.** The store is
    left with the texts that it has; with these, what was written is read as the log again, and is
    written again as it stands. -/
theorem rewriting_settles (given : read (SourceStore.load store) (.ofBytes bytes) = .ok log) :
    ∃ d, log.write (Delivery.start store none) = .ok () d ∧
      d.store.texts.keys = store.texts.keys ∧
      (∀ key, d.store.texts.get? key = store.texts.get? key) ∧
      read (SourceStore.load d.store) (.ofBytes d.sink.delivered) =
        .ok (log.mapDouble Double.readBack) ∧
      ∃ d', (log.mapDouble Double.readBack).write (Delivery.start d.store none) = .ok () d' ∧
        d'.sink.delivered = d.sink.delivered := by
  obtain ⟨short, loaded, countable⟩ := writable_of_read given
  have known : ∀ put ∈ log.scripts.map Script.put, store.texts.get? put.1 = some put.2 := by
    intro put mem
    obtain ⟨s, there, rfl⟩ := List.mem_map.1 mem
    exact MemoryStore.get?_of_load (loaded s there)
  obtain ⟨keys, same⟩ := MemoryStore.putAll_known known
  obtain ⟨d, written, delivered, stored⟩ := write_run short store
  -- what is read back is as short as the log, and its records are the same bytes
  have short' : (log.mapDouble Double.readBack).Short := by
    intro e mem
    rw [mapDouble, Array.toList_map] at mem
    obtain ⟨e, there, rfl⟩ := List.mem_map.1 mem
    exact Action.short_mapDouble (short e there)
  obtain ⟨d', written', delivered', -⟩ := write_run short' d.store
  refine ⟨d, written, stored ▸ keys, fun key => stored ▸ same key, ?_, d', written', ?_⟩
  · have back := read_records_readBack short countable store
    rw [delivered, stored]
    exact back.trans (readBack_of_alike (alike_of_loaded loaded))
  · have size : (log.mapDouble Double.readBack).size = log.size := Array.size_map
    rw [delivered', delivered, size, mapDouble, Array.toList_map, Wire.records_readBack]

/-- A script and a call's end, in another hand than the writer's: with blanks and escapes, numbers
    with signs and zeros in front, a NaN with a sign, and more bytes behind the log. -/
def otherHand : Bytes := [
  " \x7b\"\\u0074tlog\" :+01,\"actions\":[",
  " \x7b\"eventTime\":1, \"ctxTag\":+0,\"actionKind\":019,",
  "\"documentId\":7,\"loadFlag\":0,\"bodyCounterId\":1,",
  "\"logDir\":\"lib\",\"src\":\"a.js\",",
  "\"uri\":\"app\\u003aa\",\"length\":+4\x7d , ",
  "\x7b\"eventTime\":+2,\"ctxTag\":0,\"actionKind\":21,",
  "\"matchingCallBegin\":1,\"rootNestingDepth\":0,",
  "\"boolVal\":false,\"boolVal\":true,\"endTime\":-nan\x7d]",
  ", \"endOfLog\":002\x7d and so on"].flatMap Bytes.utf8

/-- What it says. -/
def otherHandLog : Log where
  events := #[
    ⟨⟨1⟩, ⟨0⟩, .codeParse ⟨⟨7⟩, 0, ⟨1⟩, "lib", "a.js", "app:a", "f(1)"⟩⟩,
    ⟨⟨2⟩, ⟨0⟩, .callEnd ⟨⟨1⟩, 0, false, true, .nan true⟩⟩]

/-- A store with the text of the script, and another one. -/
def otherHandStore : MemoryStore :=
  ⟨⟨[(⟨"lib", "7ld", "app:a"⟩, "f(1)"), (⟨"", "7ld", "app:a"⟩, "g")]⟩⟩

theorem otherHand_settles :
    read (SourceStore.load otherHandStore) (.ofBytes otherHand) = .ok otherHandLog ∧
    ∃ d, otherHandLog.write (Delivery.start otherHandStore none) = .ok () d ∧
      d.store.texts.keys = otherHandStore.texts.keys ∧
      (∀ key, d.store.texts.get? key = otherHandStore.texts.get? key) ∧
      read (SourceStore.load d.store) (.ofBytes d.sink.delivered) =
        .ok (otherHandLog.mapDouble Double.readBack) ∧
      ∃ d', (otherHandLog.mapDouble Double.readBack).write (Delivery.start d.store none) =
          .ok () d' ∧
        d'.sink.delivered = d.sink.delivered := by
  have given : read (SourceStore.load otherHandStore) (.ofBytes otherHand) = .ok otherHandLog := by
    decide +kernel
  exact ⟨given, rewriting_settles given⟩

end Log
end Retrace
