import Retrace.Proofs.Wire.Acceptance
import Retrace.Proofs.Wire.Records

/-!
# Records are read just from their renderings

The pieces of a record accept what the grammar renders them as: sequences, which have just the
elements that their length declares (`Reader.sequence_accepts`), values, the shapes of fields
(`Field.accepts`), and layouts by induction over their fields (`Layout.accepts`).

A record's header and fields make an event, if the store has the text of a script
(`Action.ofFields_eq_ok`); so what stands between the braces of a record is a rendering of an event,
or it is not read (`Event.inside_accepts`).
-/

namespace Retrace

open Grammar

namespace Reader

/-! ## Sequences -/

section Sequences

variable {α : Type} {element : ReadM α} {L : α → Language UInt8}

theorem more_cons (a : α) (list : List α) : more L (a :: list) = mark ',' * L a * more L list :=
  List.prod_cons

theorem breaks_more (list : List α) : Breaks Stops (more L list) := by
  cases list with
  | nil => exact breaks_one
  | cons a list =>
    rw [more_cons, mul_assoc]
    exact (breaks_mark (by decide)).mul

/-- What makes up the whole list from the elements that are done, which are held in reverse, and so
many more. -/
def completing (L : α → Language UInt8) (done : List α) (count : Nat) (whole : List α) :
    Language UInt8 :=
  {w | ∃ list, list.length = count ∧ whole = done.reverse ++ list ∧ w ∈ more L list}

theorem breaks_completing (done : List α) (count : Nat) (whole : List α) :
    Breaks Stops (completing L done count whole) := by
  rintro w ⟨list, -, -, mem⟩
  exact breaks_more list w mem

/-- Elements behind others: each has a comma before it. -/
theorem more_accepts (each : Accepts Stops element L) {done : List α} (some_ : done ≠ [])
    (count : Nat) : Accepts Stops (elements element done count) (completing L done count) := by
  induction count generalizing done with
  | zero =>
    refine (Accepts.pure done.reverse).congr fun whole => ?_
    ext w
    constructor
    · rintro ⟨list, none, rfl, mem⟩
      obtain rfl := List.length_eq_zero_iff.1 none
      exact ⟨List.append_nil _, mem⟩
    · rintro ⟨rfl, mem⟩
      exact ⟨[], rfl, (List.append_nil _).symm, mem⟩
  | succ count ih =>
    have comma : (!done.isEmpty) = true := by simpa using some_
    simp only [elements, comma, if_true]
    have behind : Accepts Stops (element >>= fun a => elements element (a :: done) count)
        fun whole => ⨆ a, L a * completing L (a :: done) count whole :=
      each.bindStop (fun a => ih (List.cons_ne_nil a done))
        (fun a => breaks_completing (a :: done) count) fun _ _ => Language.mem_iSup
    refine (comma_accepts.seq behind).congr fun whole => ?_
    ext w
    constructor
    · rintro ⟨list, length, rfl, mem⟩
      obtain ⟨a, list, rfl⟩ := List.exists_cons_of_length_eq_add_one length
      rw [more_cons, mul_assoc] at mem
      obtain ⟨u, isMark, _, product, rfl⟩ := Language.mem_mul.1 mem
      obtain ⟨v, isElement, x, isMore, rfl⟩ := Language.mem_mul.1 product
      have others : x ∈ completing L (a :: done) count (done.reverse ++ a :: list) :=
        ⟨list, Nat.succ.inj length, by simp, isMore⟩
      exact Language.append_mem_mul isMark
        (Language.mem_iSup.2 ⟨a, Language.append_mem_mul isElement others⟩)
    · intro mem
      obtain ⟨u, isMark, _, products, rfl⟩ := Language.mem_mul.1 mem
      obtain ⟨a, product⟩ := Language.mem_iSup.1 products
      obtain ⟨v, isElement, x, ⟨list, rfl, rfl, isMore⟩, rfl⟩ := Language.mem_mul.1 product
      refine ⟨a :: list, rfl, by simp, ?_⟩
      rw [more_cons, mul_assoc]
      exact Language.append_mem_mul isMark (Language.append_mem_mul isElement isMore)

theorem elements_accepts (each : Accepts Stops element L) (count : Nat) :
    Accepts Stops (elements element [] count) fun list =>
      provided (list.length = count) (separated L list) := by
  cases count with
  | zero =>
    refine (Accepts.pure []).congr fun list => ?_
    cases list <;> ext w <;> simp [separated]
  | succ count =>
    simp only [elements, List.isEmpty_nil, Bool.not_true, Bool.false_eq_true, if_false]
    apply each.bindStop fun a => more_accepts each (List.cons_ne_nil a []) count
    · exact fun a => breaks_completing [a] count
    · intro list w
      constructor
      · rintro ⟨length, mem⟩
        obtain ⟨a, list, rfl⟩ := List.exists_cons_of_length_eq_add_one length
        obtain ⟨u, isElement, v, isMore, rfl⟩ := Language.mem_mul.1 mem
        exact ⟨a, Language.append_mem_mul isElement ⟨list, Nat.succ.inj length, rfl, isMore⟩⟩
      · rintro ⟨a, product⟩
        obtain ⟨u, isElement, v, ⟨list, rfl, rfl, isMore⟩, rfl⟩ := Language.mem_mul.1 product
        exact ⟨rfl, Language.append_mem_mul isElement isMore⟩

/-- A piece that may end in a scalar, and the mark that closes it. -/
theorem Accepts.closed {α : Type} {m : ReadM α} {L : α → Language UInt8} (h : Accepts Stops m L)
    {c : Char} (close : Accepts Anything (expect c) fun _ => mark c)
    (other : Bytes.isToken (UInt8.ofNat c.toNat) = false) :
    Accepts Anything (m >>= fun a => expect c >>= fun _ => Pure.pure a) fun a => L a * mark c := by
  apply h.bindStop (M := fun a b => provided (b = a) (mark c))
  · exact fun a => (close.seq (.pure a)).congr fun b => by simp
  · exact fun a b => (breaks_mark other).provided
  · intro a w
    simp

/-- **A sequence has just the elements that its length declares.** -/
theorem sequence_accepts (k : Key) (each : Accepts Stops element L) :
    Accepts Anything (sequence k element) (Grammar.sequence k L) := by
  have bracket : Accepts Anything (expect ']') fun _ => mark ']' :=
    expect_accepts (by decide) (by decide)
  apply (keyed_accepts .length .u32).bindStop fun count => comma_accepts.seq
    ((sequenceStart_accepts k).seq
      ((elements_accepts each count.toNat).closed bracket (by decide)))
  · exact fun _ _ => (breaks_mark (by decide)).mul
  · intro list w
    simp only [Grammar.sequence, mul_provided, provided_mul, mem_provided, mul_assoc]
    exact Iff.rfl

end Sequences

/-! ## Values -/

/-- A case that holds what its constructor is made from. -/
theorem held_accepts {α : Type} {m : ReadM α} {L : α → Language UInt8} {k : Key}
    {make : α → Recorded} (h : Accepts Stops m L)
    (mine : ∀ a, caseKey (make a) = k ∧ held (make a) = L a)
    (only : ∀ v, caseKey v = k → ∃ a, make a = v) :
    Accepts Stops (make <$> m) fun v => provided ((caseKey v).text = k.text) (held v) := by
  refine (h.map make).congr fun v => ?_
  ext w
  constructor
  · rintro ⟨isCase, mem⟩
    obtain ⟨a, rfl⟩ := only v (Key.text_injective isCase)
    exact Language.mem_iSup.2 ⟨a, rfl, (mine a).2 ▸ mem⟩
  · intro h
    obtain ⟨a, rfl, mem⟩ := Language.mem_iSup.1 h
    exact ⟨congrArg Key.text (mine a).1, (mine a).2 ▸ mem⟩

/-- What a value holds is read as its case asks, which the key before it has named. -/
theorem valueCase_accepts (start : Reader) (case : String) :
    Accepts Stops (valueCase start case) fun v => provided ((caseKey v).text = case) (held v) := by
  unfold valueCase
  split
  case isTrue same =>
    subst same
    refine held_accepts (null_accepts start) (fun _ => ⟨rfl, rfl⟩) ?_
    rintro (_ | _) isCase <;> first | exact ⟨(), rfl⟩ | cases isCase
  -- the other cases are made from what their key calls for: a scalar, or a text
  iterate 8
    split
    case isTrue same =>
      subst same
      first
      | refine held_accepts (scalar_accepts _) (fun _ => ⟨rfl, rfl⟩) ?_
      | refine held_accepts quoted_accepts.before (fun _ => ⟨rfl, rfl⟩) ?_
      rintro (_ | _) isCase <;> first | exact ⟨_, rfl⟩ | cases isCase
  refine ⟨fun ran _ => absurd ran (by simp), ?_⟩
  rintro v w ⟨isCase, -⟩
  subst isCase
  cases v <;> contradiction

theorem value_accepts : Accepts Anything value Grammar.value := by
  have opening : Accepts Anything (expect '{') fun _ => mark '{' :=
    expect_accepts (by decide) (by decide)
  refine (opening.seq (N := fun v => Grammar.key (caseKey v) * held v * mark '}') ?_).congr
    fun v => by simp only [Grammar.value, mul_assoc]
  have inside (start : Reader) : Accepts Anything (do
      let case ← quoted
      expect ':'
      let v ← valueCase start case
      expect '}'
      return v) fun v => Grammar.key (caseKey v) * held v * mark '}' := by
    apply quoted_accepts.bind (fun case => colon_accepts.seq
      ((valueCase_accepts start case).closed brace_accepts (by decide)))
    · exact fun _ _ _ _ _ _ => trivial
    · intro v w
      simp [Grammar.key, mul_assoc]
  have whole (v : Recorded) : Grammar.key (caseKey v) * held v * mark '}' =
      blanks * ({Bytes.ascii ['"']} * (content (caseKey v).text * {Bytes.ascii ['"']} * mark ':' *
        held v * mark '}')) := by
    rw [Grammar.key, text_eq]
    simp only [mul_assoc]
  refine (Accepts.again ((Accepts.noting inside).congr fun v => (whole v).symm) ?_).congr whole
  exact fun v => (visible_singleton (by decide)).mul

theorem keyedValue_accepts (k : Key) : Accepts Anything (keyedValue k) (Grammar.keyedValue k) :=
  (key_accepts k).seq value_accepts

theorem nullOrObject_accepts : Accepts Stops nullOrObject fun isNull =>
    if isNull then Grammar.null else mark '{' := by
  have whole (isNull : Bool) : (if isNull then Grammar.null else mark '{') =
      blanks * if isNull then run ['n', 'u', 'l', 'l'] else {Bytes.ascii ['{']} := by
    cases isNull <;> rfl
  refine (Accepts.skipping ?_ ?_ ?_).congr whole
  · intro r isNull r' ran ending
    simp only [bind_run, get_run] at ran
    cases left : r.rest with
    | nil => simp [left] at ran
    | cons b rest =>
      simp only [left] at ran
      by_cases isWord : b = 110
      · rw [if_pos isWord] at ran
        obtain ⟨_, s, word, answered⟩ := ok_of_bind ran
        obtain ⟨rfl, rfl⟩ : true = isNull ∧ s = r' := by simpa using answered
        obtain ⟨w, mem, after, split, same⟩ := (null_accepts r).sound word ending
        exact ⟨w, mem, after, left.symm.trans split, same⟩
      · rw [if_neg isWord] at ran
        by_cases isBrace : b = 123
        · subst isBrace
          obtain ⟨rfl, rfl⟩ : false = isNull ∧ { r with rest } = r' := by simpa using ran
          exact ⟨_, mem_blanks_mul rfl, rest, rfl, rfl⟩
        · simp [isBrace] at ran
  · rintro (_ | _) w mem
    · obtain rfl : w = Bytes.ascii ['{'] := mem
      exact nullOrObject_object.before
    · obtain rfl : w = [110, 117, 108, 108] := eq_ascii_of_mem_run mem
      exact nullOrObject_null
  · rintro (_ | _) w mem
    · exact visible_singleton (by decide) w mem
    · exact visible_run w mem

end Reader

/-! ## Fields -/

open Reader

/-- **A field is read just from its renderings.** -/
theorem Field.accepts {α : Type} (f : Field α) :
    Accepts Stops f.read fun a => mark ',' * f.grammar a := by
  cases f with
  | scalar k s => exact comma_accepts.seq (keyed_accepts k s)
  | text k => exact comma_accepts.seq (keyedText_accepts k).before
  | value k => exact comma_accepts.seq (keyedValue_accepts k).before
  | arrayType =>
    apply Accepts.noting
    intro start
    apply comma_accepts.seq
    apply (keyed_accepts .typeId .u32).bindStop fun id => .check
    · exact fun _ _ => breaks_one.provided
    · intro _ w
      simp [Field.grammar]
  -- the flag decides whether a value follows
  | optionalValue =>
    apply comma_accepts.seq
    have behind (present : Bool) : Accepts Stops
        (if present then expect ',' >>= fun _ => some <$> Reader.keyedValue .entry
          else pure none)
        fun name => provided (present = name.isSome)
          (name.elim 1 fun v => mark ',' * Grammar.keyedValue .entry v) := by
      cases present with
      | false => exact (Accepts.pure none).congr fun name => by cases name <;> ext w <;> simp
      | true =>
        refine (comma_accepts.seq ((keyedValue_accepts .entry).map some)).before.congr
          fun name => ?_
        cases name <;> ext w <;> simp [Language.mul_iSup, Language.mem_iSup]
    apply (keyed_accepts .boolVal .bool).bindStop behind
    · intro present name
      cases name with
      | none => exact breaks_one.provided
      | some v => exact (breaks_mark (by decide)).mul.provided
    · intro name w
      cases name <;> simp [Field.grammar, mul_assoc]
  | bytes => exact comma_accepts.seq (sequence_accepts .bytes (scalar_accepts .u8)).before
  | values => exact comma_accepts.seq (sequence_accepts .values value_accepts.before).before
  -- the first token decides: there is no name behind `null`, and an object has just the name
  | diagnostics =>
    have named : Accepts Anything (keyedText .name >>= fun s => expect '}' >>= fun _ =>
        pure (some s)) fun name => ⨆ s, provided (name = some s)
          (Grammar.keyedText .name s * mark '}') :=
      (keyedText_accepts .name).bind (fun s => brace_accepts.seq (.pure (some s)))
        (fun _ _ _ _ _ _ => trivial) fun name w => by simp [Language.mem_iSup]
    have behind (isNull : Bool) : Accepts Stops (if isNull then pure none else keyedText .name >>=
        fun s => expect '}' >>= fun _ => pure (some s))
        fun name => provided (isNull = name.isNone)
          (name.elim 1 fun s => Grammar.keyedText .name s * mark '}') := by
      cases isNull with
      | true => exact (Accepts.pure none).congr fun name => by cases name <;> ext w <;> simp
      | false =>
        refine named.before.congr fun name => ?_
        cases name <;> ext w <;> simp [Language.mem_iSup]
    apply comma_accepts.seq
    refine ((key_accepts .diag).seq (nullOrObject_accepts.bindStop behind ?_
      fun name w => Language.mem_iSup)).congr fun name => ?_
    · intro isNull name
      cases name with
      | none => exact breaks_one.provided
      | some s =>
        simp only [Option.elim, Grammar.keyedText, Grammar.key, Grammar.text, mul_assoc]
        exact (breaks_mark (by decide)).mul.provided
    · cases name <;> ext w <;> simp [Field.grammar, Language.mul_iSup, Language.mem_iSup, mul_assoc]

theorem Layout.breaks {α : Type} (layout : Layout α) (a : α) :
    Breaks Stops (layout.grammar a) := by
  cases layout with
  | done => exact breaks_one
  | field f rest => exact (breaks_mark (by decide)).mul.mul

/-- **The fields of a record are read just from their renderings.** -/
theorem Layout.accepts {α : Type} (layout : Layout α) :
    Accepts Stops layout.read layout.grammar := by
  induction layout with
  | done => exact (Accepts.pure ()).congr fun _ => by ext w; simp [Layout.grammar]
  | @field α β f rest ih =>
    apply f.accepts.bindStop fun a => ih.map (Prod.mk a)
    · exact fun a c => .iSup fun b => (rest.breaks b).provided
    · rintro ⟨a, b⟩ w
      simp [Layout.grammar, Language.mul_iSup, Language.mem_iSup]

/-! ## Records -/

variable {load : Loader}

theorem Action.ofFields_eq_ok {k : Kind} {fields : k.Fields} {a : Action} :
    ofFields load k fields = .ok a ↔
      (⟨k, fields⟩ : (k : Kind) × k.Fields) = ⟨a.kind, a.fields⟩ ∧ a.Stored load := by
  constructor
  · intro h
    cases k with
    | codeParse =>
      obtain ⟨document, loadFlags, body, directory, file, uri, length, ⟨⟩⟩ := fields
      let s : Script := ⟨⟨document⟩, loadFlags, ⟨body⟩, directory, file, uri, ""⟩
      have loaded : loadScript load s length = .ok a := h
      unfold loadScript at loaded
      cases found : load s.key with
      | error e => simp [found] at loaded
      | ok text =>
        by_cases fits : text.utf8ByteSize = length.toNat
        · simp only [found, fits, if_true] at loaded
          cases loaded
          have declared : UInt32.ofNat text.utf8ByteSize = length := by
            rw [fits, UInt32.ofNat_toNat]
          have small : text.utf8ByteSize < UInt32.size := fits ▸ length.toNat_lt
          exact ⟨by simp [s, kind, Action.fields, declared], found, small⟩
        · simp [found, fits] at loaded
    | _ => cases h; exact ⟨rfl, trivial⟩
  · rintro ⟨same, stored⟩
    obtain ⟨rfl, same⟩ := Sigma.mk.inj same
    obtain rfl := eq_of_heq same
    cases a with
    | codeParse s =>
      have declared : s.text.utf8ByteSize = (UInt32.ofNat s.text.utf8ByteSize).toNat := by
        rw [UInt32.toNat_ofNat']
        exact (Nat.mod_eq_of_lt stored.2).symm
      show loadScript load { s with text := "" } _ = _
      have found : load { s with text := "" }.key = .ok s.text := stored.1
      unfold loadScript
      rw [found]
      exact if_pos declared
    | _ => rfl

/-- Takes the number of a kind, the last part of a record's header. -/
def kindNumber (time : Int64) (context : UInt64) (start : Reader) : ReadM RecordHeader := do
  let number ← keyed .actionKind .u32
  match Kind.ofNumber? number with
  | some kind => return ⟨⟨time⟩, ⟨context⟩, kind⟩
  | none => throw (.unknownKind number start.offset)

theorem recordHeader_accepts : Accepts Stops recordHeader RecordHeader.grammar := by
  have numbered (time : Int64) (id : UInt64) (start : Reader) :
      Accepts Stops (kindNumber time id start) fun h =>
        provided (h.time.ticks = time ∧ h.context.id = id)
          (Grammar.keyed .actionKind .u32 h.kind.number) := by
    apply (keyed_accepts .actionKind .u32).bindStop (M := fun number h =>
      provided ((h.time.ticks = time ∧ h.context.id = id) ∧ h.kind.number = number) 1)
    · intro number
      cases found : Kind.ofNumber? number with
      | some kind =>
        obtain rfl := Kind.number_of_ofNumber? found
        refine (Accepts.pure _).congr fun h => ?_
        obtain ⟨⟨ticks⟩, ⟨context⟩, other⟩ := h
        have same : other.number = kind.number ↔ other = kind :=
          ⟨fun h => Option.some.inj (by rw [← Kind.ofNumber?_number, h, Kind.ofNumber?_number]),
            congrArg Kind.number⟩
        ext w
        simp [and_assoc, same]
      | none =>
        refine ⟨fun ran _ => absurd ran (by simp), ?_⟩
        rintro h w ⟨⟨-, rfl⟩, -⟩
        rw [Kind.ofNumber?_number] at found
        cases found
    · exact fun _ _ => breaks_one.provided
    · intro h w
      simp
  have placed (time : Int64) : Accepts Stops (keyed .ctxTag .u64 >>= fun id => get >>=
      fun start : Reader => expect ',' >>= fun _ => kindNumber time id start)
      fun h => provided (h.time.ticks = time) (Grammar.keyed .ctxTag .u64 h.context.id *
        (mark ',' * Grammar.keyed .actionKind .u32 h.kind.number)) := by
    apply (keyed_accepts .ctxTag .u64).bindStop fun id => .noting fun start =>
      comma_accepts.seq (numbered time id start)
    · exact fun _ _ => (breaks_mark (by decide)).mul
    · intro h w
      simp
  apply (keyed_accepts .eventTime .i64).bindStop fun time => comma_accepts.seq (placed time)
  · exact fun _ _ => (breaks_mark (by decide)).mul
  · intro h w
    simp [RecordHeader.grammar, mul_assoc]


/-- What a record holds behind the brace that opens it. -/
def Event.inside (e : Event) : Language UInt8 :=
  RecordHeader.grammar ⟨e.time, e.context, e.kind⟩ * e.kind.layout.grammar e.action.fields *
    mark '}'

/-- Makes the event of a record of which the fields are read, and takes the closing brace. -/
def Event.finish (load : Loader) (header : RecordHeader) (fields : header.kind.Fields) :
    ReadM (Option Event) :=
  match Action.ofFields load header.kind fields with
  | .error e => throw e
  | .ok action => do
    expect '}'
    return some ⟨header.time, header.context, action⟩

theorem Event.interior_eq (load : Loader) : interior load =
    recordHeader >>= fun header => header.kind.layout.read >>= finish load header := rfl

/-- A record is finished by a brace, if its fields are those of an action. -/
theorem Event.finish_accepts (load : Loader) (header : RecordHeader) (fields : header.kind.Fields) :
    Accepts Anything (finish load header fields) fun found =>
      ⨆ a, provided (Action.ofFields load header.kind fields = .ok a ∧
        found = some ⟨header.time, header.context, a⟩) (mark '}') := by
  unfold finish
  cases read : Action.ofFields load header.kind fields with
  | error e =>
    exact ⟨fun ran _ => absurd ran (by simp), fun mem => absurd mem (by simp [Language.mem_iSup])⟩
  | ok action =>
    refine (brace_accepts.seq (f := fun _ => pure (some (⟨_, _, action⟩ : Event)))
      (.pure _)).congr fun found => ?_
    ext w
    simp [Language.mem_iSup]

theorem Event.inside_accepts : Accepts Anything (Event.interior load) fun found =>
    ⨆ e, provided (found = some e ∧ e.action.Stored load) e.inside := by
  have breaks : Breaks Anything (mark '}') := breaks_mark (by decide)
  have fielded (header : RecordHeader) := (Layout.accepts header.kind.layout).bindStop
    (finish_accepts load header) (fun _ _ => .iSup fun _ => breaks.provided)
    fun _ _ => Language.mem_iSup
  rw [interior_eq]
  refine (recordHeader_accepts.bindStop fielded (fun header _ => .iSup fun fields =>
    (header.kind.layout.breaks fields).then (.iSup fun _ => breaks.provided))
    fun _ _ => Language.mem_iSup).congr fun found => ?_
  ext w
  simp only [Event.inside, Language.mem_iSup, Language.mul_iSup, mul_provided, mem_provided,
    Action.ofFields_eq_ok, mul_assoc]
  constructor
  · rintro ⟨e, ⟨rfl, stored⟩, mem⟩
    exact ⟨⟨e.time, e.context, e.kind⟩, e.action.fields, e.action, ⟨⟨rfl, stored⟩, rfl⟩, mem⟩
  · rintro ⟨⟨time, context, kind⟩, fields, action, ⟨⟨same, stored⟩, rfl⟩, mem⟩
    obtain ⟨rfl, same⟩ := Sigma.mk.inj same
    obtain rfl := eq_of_heq same
    exact ⟨⟨time, context, action⟩, ⟨rfl, stored⟩, mem⟩

end Retrace
