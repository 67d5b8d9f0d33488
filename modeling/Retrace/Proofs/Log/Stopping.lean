import Retrace.Proofs.Log.Delivery

/-!
# What is delivered of a log when writing stops

Writing stops where there is no more room or where the store refuses a text. What has been done then
is an initial piece of the outputs of the log and, if it was the room that ran out, a part of the
bytes of the next one (`Output.forM_rationed`).

A script's text goes to the store before the end of its record goes to the sink. So where a record
has been delivered through its closing brace, the store has the text of its script
(`Log.stored_of_through`).
-/

namespace Retrace

/-! ## Writing that stops -/

/-- Bytes are delivered, or else a part of them and not all. -/
theorem Sink.put_run (bytes : Bytes) (sink : Sink) :
    (∃ sink', put bytes sink = .ok () sink' ∧ sink'.delivered = sink.delivered ++ bytes) ∨
      ∃ torn sink', put bytes sink = .error (.transport .full) sink' ∧
        sink'.delivered = sink.delivered ++ torn ∧ torn <+: bytes ∧ torn ≠ bytes := by
  unfold put
  cases sink.room with
  | none => exact .inl ⟨_, rfl, delivered_add sink bytes⟩
  | some room =>
    by_cases fits : bytes.length ≤ room
    · refine .inl ⟨_, if_pos fits, ?_⟩
      rw [List.take_of_length_le fits]
      exact delivered_add sink bytes
    · refine .inr ⟨bytes.take room, _, if_neg fits, delivered_add sink _, List.take_prefix .., ?_⟩
      intro all
      have length := congrArg List.length all
      rw [List.length_take] at length
      omega

/-- A delivery after so many outputs, and some bytes more. -/
structure Delivery.After (done : List Output) (torn : Bytes)
    (d d' : Delivery (RationedStore MemoryStore)) : Prop where
  delivered : d'.sink.delivered = d.sink.delivered ++ (done.flatMap Output.bytes ++ torn)
  store : d'.store.store = d.store.store.putAll (done.flatMap Output.saved)
  stored : d'.stored = d.stored ++ done.flatMap Output.saved

/-- How the outputs that are left can have been broken off: there are none, or just the torn bytes
of the first have been delivered, which are not all of them if there are any. -/
def Output.Broken (rest : List Output) (torn : Bytes) : Prop :=
  torn = [] ∧ rest = [] ∨
    ∃ o more, rest = o :: more ∧ torn <+: o.bytes ∧ (torn = o.bytes → o.bytes = [])

namespace Output

variable {o : Output} {outputs : List Output}

/-- An output is performed, or else it is the text that the store refuses, or the one that there is
no room for. -/
theorem perform_rationed (accepted : o.Accepted) (d : Delivery (RationedStore MemoryStore)) :
    (∃ d', o.perform d = .ok () d' ∧ d.After [o] [] d') ∨
      ∃ error torn d', o.perform d = .error error d' ∧ d.After [] torn d' ∧ Broken [o] torn ∧
        ∀ e, error = .source e → ∃ put, o.saved = [put] := by
  cases o with
  | refusal error => exact accepted.elim
  | script key content =>
    obtain ⟨sink, ⟨store, left⟩, stored⟩ := d
    cases left with
    | zero =>
      have broken : Broken [script key content] [] :=
        .inr ⟨_, [], rfl, List.prefix_rfl, fun _ => rfl⟩
      refine .inr ⟨_, [], _, rfl, ⟨by simp, rfl, by simp⟩, broken, fun _ _ => ⟨_, rfl⟩⟩
    | succ left =>
      exact .inl ⟨_, rfl, by simp [bytes], rfl, rfl⟩
  | text content =>
    rcases Sink.put_run content d.sink with ⟨sink, put, delivered⟩ | ⟨torn, sink, put, delivered, part,
      notAll⟩
    · refine .inl ⟨{ d with sink }, ?_, ?_, rfl, ?_⟩
      · simp only [perform, Delivery.put, put]
      · simpa [bytes] using delivered
      · simp [saved]
    · have broken : Broken [text content] torn :=
        .inr ⟨_, [], rfl, part, fun all => absurd all notAll⟩
      refine .inr ⟨.transport .full, torn, { d with sink }, ?_, ⟨?_, rfl, ?_⟩, broken, fun _ same => ?_⟩
      · simp only [perform, Delivery.put, put]
      · simpa using delivered
      · simp
      · cases same

/-- **Writing stops somewhere between two outputs, or in one.** -/
theorem forM_rationed (accepted : ∀ o ∈ outputs, o.Accepted)
    (d : Delivery (RationedStore MemoryStore)) : ∃ done rest torn d',
      outputs = done ++ rest ∧ d.After done torn d' ∧ Broken rest torn ∧
      (outputs.forM perform d = .ok () d' ∨ ∃ error, outputs.forM perform d = .error error d' ∧
        ∀ e, error = .source e → ∃ o more put, rest = o :: more ∧ o.saved = [put]) := by
  induction outputs generalizing d with
  | nil => exact ⟨[], [], [], d, rfl, ⟨by simp, rfl, by simp⟩, .inl ⟨rfl, rfl⟩, .inl rfl⟩
  | cons o outputs ih =>
    have step : (o :: outputs).forM perform d =
        (o.perform >>= fun _ => outputs.forM perform) d := rfl
    rcases perform_rationed (accepted o List.mem_cons_self) d with
      ⟨d₁, ran, after⟩ | ⟨error, torn, d₁, ran, after, broken, refused⟩
    · obtain ⟨done, rest, torn, d₂, split, later, broken, outcome⟩ :=
        ih (fun p mem => accepted p (List.mem_cons_of_mem _ mem)) d₁
      have all : d.After (o :: done) torn d₂ := by
        refine ⟨?_, ?_, ?_⟩
        · rw [later.delivered, after.delivered]
          simp
        · rw [later.store, after.store, ← MemoryStore.putAll_append]
          simp
        · rw [later.stored, after.stored]
          simp
      refine ⟨o :: done, rest, torn, d₂, by rw [split]; rfl, all, broken, ?_⟩
      rw [step, bind_run, ran]
      exact outcome
    · refine ⟨[], o :: outputs, torn, d₁, rfl, after, ?_, .inr ⟨error, ?_, ?_⟩⟩
      · obtain ⟨-, ⟨⟩⟩ | ⟨_, _, ⟨⟩, part, notAll⟩ := broken
        exact .inr ⟨o, outputs, rfl, part, notAll⟩
      · rw [step, bind_run, ran]
      · intro e isSource
        obtain ⟨put, saved⟩ := refused e isSource
        exact ⟨o, outputs, put, rfl, saved⟩

/-- The bytes that were delivered begin those of all outputs. -/
theorem Broken.delivered_prefix {rest : List Output} {torn : Bytes} (broken : Broken rest torn)
    (done : List Output) : done.flatMap bytes ++ torn <+: (done ++ rest).flatMap bytes := by
  rw [List.flatMap_append, List.prefix_append_right_inj]
  obtain ⟨rfl, -⟩ | ⟨o, more, rfl, part, -⟩ := broken
  · exact List.nil_prefix
  · exact part.trans (List.prefix_append _ _)

/-- **What was delivered was performed**: where some bytes of a text are delivered with all that
come before it, so is the text. -/
theorem performed {before after done rest : List Output} {content torn : Bytes}
    (split : before ++ text content :: after = done ++ rest) (broken : Broken rest torn)
    (some_ : content ≠ [])
    (delivered : ((before ++ [text content]).flatMap bytes).length ≤
      (done.flatMap bytes ++ torn).length) : before ++ [text content] <+: done := by
  have split : (before ++ [text content]) ++ after = done ++ rest := by simpa using split
  rcases List.append_eq_append_iff.1 split with ⟨x, isDone, -⟩ | ⟨x, isBefore, isRest⟩
  · exact ⟨x, isDone.symm⟩
  cases x with
  | nil => exact ⟨[], by simpa using isBefore⟩
  | cons o x =>
    -- some of what broke off would have been delivered whole, and the text is not empty
    exfalso
    obtain ⟨-, none⟩ | ⟨_, _, isRest', part, notAll⟩ := broken
    · simp [none] at isRest
    · obtain ⟨rfl, -⟩ := List.cons.inj (isRest.symm.trans isRest')
      rw [isBefore] at delivered
      simp only [List.flatMap_append, List.flatMap_cons, List.length_append] at delivered
      have short := part.length_le
      have all : torn = o.bytes := part.eq_of_length (by omega)
      have none : ((o :: x).flatMap bytes) = [] := by
        rw [← List.length_eq_zero_iff, List.flatMap_cons, List.length_append, notAll all]
        rw [all, notAll all] at delivered
        simp only [List.length_nil] at delivered ⊢
        omega
      have last : text content ∈ o :: x := by
        have ends := congrArg List.getLast? isBefore
        have isLast := List.getLast?_eq_some_getLast (List.cons_ne_nil o x)
        rw [List.getLast?_concat, List.getLast?_append, isLast, Option.some_or] at ends
        exact Option.some.inj ends ▸ List.getLast_mem (List.cons_ne_nil o x)
      obtain ⟨b, more, rfl⟩ := List.exists_cons_of_ne_nil some_
      have byte : b ∈ (o :: x).flatMap bytes :=
        List.mem_flatMap.2 ⟨_, last, List.mem_cons_self⟩
      rw [none] at byte
      exact absurd byte List.not_mem_nil

end Output

/-! ## Which texts the store has -/

/-- An action whose script has its own text in the store is read as it was written. -/
theorem Action.reread_of_loaded {load : Loader} {a : Action} (short : a.Short)
    (loaded : ∀ s, a = codeParse s → load s.key = .ok s.text) :
    a.reread load = .ok (a.mapDouble Double.readBack) := by
  cases a with
  | codeParse s =>
    have declared : s.text.utf8ByteSize = (UInt32.ofNat s.text.utf8ByteSize).toNat := by
      rw [UInt32.toNat_ofNat']
      exact (Nat.mod_eq_of_lt short).symm
    simp only [reread, loadScript, loaded s rfl, ← declared, if_true]
    rfl
  | _ => rfl

namespace Log

variable {log : Log} {k : Nat}

/-- The bytes of a log through the closing brace of the record at a position. -/
def through (log : Log) (position : Nat) : Bytes :=
  Wire.logStart ++ Wire.records 0 (log.events.toList.take (position + 1))

/-- The outputs of a log through the record at a position, the last of which is a text. -/
theorem outputs_through (short : log.Short) {i : Nat} {e : Event}
    (there : log.events.toList[i]? = some e) : ∃ before content after,
      log.outputs = before ++ .text content :: after ∧ content ≠ [] ∧
      (before ++ [.text content]).flatMap Output.bytes = log.through i ∧
      ∀ s, e.script? = some s → s.put ∈ (before ++ [Output.text content]).flatMap Output.saved := by
  have earlier : ∀ d ∈ log.events.toList.take (i + 1), d.action.Short :=
    fun d inside => short d (List.mem_of_mem_take inside)
  have taken : log.events.toList.take (i + 1) = log.events.toList.take i ++ [e] := by
    rw [List.take_add_one, there]
    rfl
  have split : log.events.toList =
      log.events.toList.take (i + 1) ++ log.events.toList.drop (i + 1) :=
    (List.take_append_drop (i + 1) _).symm
  let content := Wire.recordEnd
  obtain ⟨before, last⟩ : ∃ before, Wire.outputs 0 (log.events.toList.take (i + 1)) =
      before ++ [.text content] := by
    rw [taken, Wire.outputs_append]
    simp only [Wire.outputs, List.append_nil]
    rw [Event.outputs, ← List.append_assoc]
    exact ⟨_, rfl⟩
  let after := Wire.outputs (0 + (log.events.toList.take (i + 1)).length)
    (log.events.toList.drop (i + 1)) ++ [.text (Wire.endMarker log.size)]
  refine ⟨.text Wire.logStart :: before, content, after, ?_, ?_, ?_, ?_⟩
  · have all : Wire.outputs 0 log.events.toList = Wire.outputs 0 (log.events.toList.take (i + 1)) ++
        Wire.outputs (0 + (log.events.toList.take (i + 1)).length)
          (log.events.toList.drop (i + 1)) := by
      rw [← Wire.outputs_append, ← split]
    rw [outputs_eq, all, last]
    simp only [List.append_assoc, List.cons_append, List.nil_append, after]
  · simp [content, Wire.recordEnd]
  · rw [List.cons_append, List.flatMap_cons, ← last, Wire.outputs_bytes earlier]
    rfl
  · intro s isScript
    rw [List.cons_append, List.flatMap_cons, ← last, Wire.outputs_saved earlier]
    apply List.mem_append_right
    apply List.mem_map_of_mem
    exact List.mem_filterMap.2 ⟨e, by simp [taken], isScript⟩

/-- Where a record is delivered whole, the text of its script has been stored. -/
theorem stored_of_through (short : log.Short) {done rest : List Output} {torn : Bytes}
    (split : log.outputs = done ++ rest) (broken : Output.Broken rest torn) {i : Nat} {e : Event}
    (there : log.events.toList[i]? = some e)
    (delivered : log.through i <+: done.flatMap Output.bytes ++ torn) {s : Script}
    (isScript : e.script? = some s) : s.put ∈ done.flatMap Output.saved := by
  obtain ⟨before, content, after, outputs, some_, bytes, saved⟩ := outputs_through short there
  have performed := Output.performed (outputs.symm.trans split) broken some_
    (bytes ▸ delivered.length_le)
  obtain ⟨x, same⟩ := performed
  rw [← same, List.flatMap_append]
  exact List.mem_append_left _ (saved s isScript)

/-- A text that was stored is loaded, if its source has no other one. -/
theorem load_of_stored
    (alike : ∀ s ∈ log.scripts, ∀ t ∈ log.scripts, s.SameSource t → s.text = t.text)
    {store : MemoryStore} {puts : List (SourceKey × String)}
    (among : puts ⊆ log.scripts.map Script.put) {s : Script} (mem : s.put ∈ puts) :
    SourceStore.load (store.putAll puts) s.key = .ok s.text := by
  have own {put : SourceKey × String} (inside : put ∈ puts) (isKey : put.1 = s.key) :
      put.2 = s.text := by
    obtain ⟨t, isScript, rfl⟩ := List.mem_map.1 (among inside)
    obtain ⟨u, isScript', same⟩ := List.mem_map.1 (among mem)
    obtain ⟨key, text⟩ : u.key = s.key ∧ u.text = s.text := Prod.mk.inj same
    have source : t.SameSource u := Script.key_eq_iff.1 (Eq.trans isKey key.symm)
    exact (alike t isScript u isScript' source).trans text
  have stored := MemoryStore.get?_putAll store puts s.key
  cases found : puts.reverse.find? fun put => put.1 = s.key with
  | none =>
    have missing := List.find?_eq_none.1 found s.put (List.mem_reverse.2 mem)
    exact absurd (decide_eq_true rfl) missing
  | some put =>
    have isKey : put.1 = s.key := by simpa using List.find?_some found
    have text := own (List.mem_reverse.1 (List.mem_of_find?_eq_some found)) isKey
    rw [found] at stored
    simp only [SourceStore.load, stored, Option.map_some, Option.some_or, text]

end Log

end Retrace
