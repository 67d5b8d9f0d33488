import Retrace.Proofs.Tagging.Indexes

/-!
# What a table of tags has been through

A table can be told to issue a tag, to bind one that was issued, to track a handle, and to forget
everything; in any order, and with anything. A `Chronicle` keeps, beside the table, what came of it
since it last forgot: which tags it issued, and what it bound under which tag, both in order.

The tags issued count up from 1, so none is issued twice as long as they last. And a tag is bound
once only, so that the bindings of the table are those of its chronicle: new ones are put behind the
others, and none is ever replaced. The index of the handles agrees with them all the time
(`Chronicle.Sound`). Hence a bound tag keeps its handle, and the tag of a handle is the first that
it was bound under, whatever comes later (`keeps_what_it_bound`).
-/

namespace Retrace
namespace IndexedTags

/-- What a table can be told. -/
inductive Operation (η : Type) where
  | issue
  | bind (tag : Tag) (handle : η)
  | track (handle : η)
  | clear
deriving DecidableEq

/-- A table, with what came of it since it was last cleared. -/
structure Chronicle (η : Type) where
  table : IndexedTags η
  /-- The tags that it issued, the earliest first. -/
  issued : List Tag
  /-- What it bound, by hand or in tracking, the earliest first. -/
  bindings : List (Tag × η)

/-- The place of a tag in the order of issue, from 1. -/
def number (tag : Tag) : Nat := tag.id.toNat

namespace Chronicle

variable {η : Type}

/-- Nothing has come of an empty table. -/
def start : Chronicle η := ⟨.empty, [], []⟩

variable [DecidableEq η]

/-- The table does what it is told, and what comes of it is written down. A binding that it refuses
leaves nothing to write. -/
def record (c : Chronicle η) : Operation η → Chronicle η
  | .issue => { c with table := c.table.issue.2, issued := c.issued ++ [c.table.issue.1] }
  | .bind tag handle =>
    match c.table.bind tag handle with
    | .ok table => { c with table, bindings := c.bindings ++ [(tag, handle)] }
    | .error _ => c
  | .track handle =>
    let (tag, table) := c.table.track handle
    -- only a handle without a tag is given one
    if (c.table.tagOf? handle).isSome then { c with table }
    else ⟨table, c.issued ++ [tag], c.bindings ++ [(tag, handle)]⟩
  | .clear => ⟨c.table.clear, [], []⟩

end Chronicle

variable {η : Type} [DecidableEq η]

/-- What a table without an index becomes when it is told something. -/
def Operation.perform (operation : Operation η) (t : TagTable η) : TagTable η :=
  match operation with
  | .issue => t.issue.2
  | .bind tag handle => (t.bind tag handle).toOption.getD t
  | .track handle => (t.track handle).2
  | .clear => .empty

/-- The chronicle of a table that was empty at first and was told all this. -/
def chronicle (operations : List (Operation η)) : Chronicle η :=
  operations.foldl Chronicle.record .start

/-- At no time are all tags issued that there are. -/
def Roomy (operations : List (Operation η)) : Prop :=
  ∀ done, done <+: operations → (chronicle done).issued.length < UInt64.size - 1

/-- Since the table was last cleared, no handle was to be bound that was bound already. -/
def BindsOnce (operations : List (Operation η)) : Prop :=
  ∀ done tag x more, operations = done ++ .bind tag x :: more → .clear ∉ more →
    ∀ other, (chronicle done).table.resolve other ≠ .ok x

/-! ## The table is what was bound -/

namespace Chronicle

variable {c c' : Chronicle η} {operation : Operation η} {operations more : List (Operation η)}
variable {tag : Tag} {x : η}

/-- The chronicle is one of its table, and the index of the table agrees with it. -/
structure Sound (c : Chronicle η) : Prop where
  counted : c.table.next.id.toNat = c.issued.length + 1
  issued : c.issued.map number = List.range' 1 c.issued.length
  entries : c.table.byTag.entries = c.bindings
  once : c.table.plain.Issued
  agrees : c.table.Agrees
  positive : ∀ b ∈ c.bindings, 0 < b.1.id.toNat

theorem start_sound : (start : Chronicle η).Sound where
  counted := rfl
  issued := rfl
  entries := rfl
  once := TagTable.empty_issued
  agrees := empty_agrees
  positive _ mem := absurd mem List.not_mem_nil

/-- One more tag is issued. -/
theorem Sound.issued_append (sound : c.Sound) : (c.issued ++ [c.table.next]).map number =
    List.range' 1 (c.issued ++ [c.table.next]).length := by
  have next : number c.table.next = 1 + c.issued.length := by
    rw [Nat.add_comm]
    exact sound.counted
  rw [List.map_append, sound.issued, List.length_append, List.length_singleton,
    List.range'_1_concat, ← next]
  rfl

omit [DecidableEq η] in
/-- As long as tags last, the next one counts on. -/
theorem next_counts {t : IndexedTags η} (room : t.next.id.toNat + 1 < UInt64.size) :
    t.issue.2.next.id.toNat = t.next.id.toNat + 1 := by
  show (t.next.id + 1).toNat = t.next.id.toNat + 1
  rw [UInt64.toNat_add]
  exact Nat.mod_eq_of_lt room

theorem Sound.issue (sound : c.Sound) (room : c.issued.length + 1 < UInt64.size - 1) :
    (c.record .issue).Sound := by
  have counts : c.table.issue.2.next.id.toNat = c.issued.length + 1 + 1 := by
    have enough : c.table.next.id.toNat + 1 < UInt64.size := by
      have next := sound.counted
      omega
    rw [next_counts enough, sound.counted]
  -- the maps are what they were
  refine ⟨?_, ?_, sound.entries, ⟨sound.once.nodup, fun tag mem => ?_⟩, sound.agrees,
    sound.positive⟩
  · show c.table.issue.2.next.id.toNat = (c.issued ++ [c.table.next]).length + 1
    rw [counts, List.length_append, List.length_singleton]
  · exact sound.issued_append
  · have below : tag.id.toNat < c.table.next.id.toNat := sound.once.below tag mem
    show tag.id.toNat < c.table.issue.2.next.id.toNat
    rw [counts, ← sound.counted]
    omega

/-- A binding that is accepted is put behind the others. -/
theorem Sound.bound (sound : c.Sound) {table : IndexedTags η}
    (bound : c.table.bind tag x = .ok table) :
    (Chronicle.mk table c.issued (c.bindings ++ [(tag, x)])).Sound := by
  have agrees := sound.agrees.bind bound
  obtain ⟨⟨positive, below⟩, new, rfl⟩ := bind_eq_ok.1 bound
  have entries := OrderedMap.entries_insert new x
  have nodup := OrderedMap.nodup_keys_insert sound.once.nodup tag x
  refine ⟨sound.counted, sound.issued, entries.trans (by rw [sound.entries]), ⟨nodup, ?_⟩, agrees,
    ?_⟩
  · intro other mem
    rcases OrderedMap.mem_keys_insert.1 mem with rfl | old
    · exact below
    · exact sound.once.below other old
  · intro b mem
    rcases List.mem_append.1 mem with old | new
    · exact sound.positive b old
    · exact List.mem_singleton.1 new ▸ positive

/-- A handle without a tag is given the next one. -/
theorem Sound.tracked (sound : c.Sound) (room : c.issued.length + 1 < UInt64.size - 1)
    (new : c.table.tagOf? x = none) :
    c.record (.track x) = ⟨(c.table.track x).2, c.issued ++ [c.table.next],
      c.bindings ++ [(c.table.next, x)]⟩ ∧ (c.record (.track x)).Sound := by
  have recorded : c.record (.track x) = ⟨(c.table.track x).2, c.issued ++ [c.table.next],
      c.bindings ++ [(c.table.next, x)]⟩ := by
    simp [record, track_new new, new]
  have enough : c.table.next.id.toNat + 1 < UInt64.size := by
    have next := sound.counted
    omega
  -- the maps without the index are those of the plain table, which needs no second proof
  have plain : (c.table.track x).2.plain = (c.table.plain.track x).2 :=
    congrArg Prod.snd (plain_track sound.agrees x)
  have absent := TagTable.tagOf?_eq_none.1 ((sound.agrees x).symm.trans new)
  have entries : (c.table.track x).2.byTag.entries =
      c.table.byTag.entries ++ [(c.table.next, x)] :=
    (congrArg (·.bound.entries) plain).trans (sound.once.entries_track absent)
  refine ⟨recorded, ?_⟩
  rw [recorded]
  refine ⟨?_, sound.issued_append, entries.trans (by rw [sound.entries]), ?_,
    sound.agrees.track sound.once x, ?_⟩
  · rw [track_new new, List.length_append, List.length_singleton, ← sound.counted]
    exact next_counts enough
  · rw [plain]
    exact (TagTable.track_issued sound.once enough x).1
  · intro b mem
    rcases List.mem_append.1 mem with old | new
    · exact sound.positive b old
    · rw [List.mem_singleton.1 new, sound.counted]
      exact Nat.succ_pos _

/-- A handle with a tag keeps it. -/
theorem record_track_known (known : (c.table.tagOf? x).isSome = true) :
    c.record (.track x) = c := by
  obtain ⟨tag, found⟩ := Option.isSome_iff_exists.1 known
  simp [record, track_known found, found]

theorem record_bind_refused {err : NamingError} (refused : c.table.bind tag x = .error err) :
    c.record (.bind tag x) = c := by
  rw [record, refused]

theorem record_bind_ok {table : IndexedTags η} (bound : c.table.bind tag x = .ok table) :
    c.record (.bind tag x) = ⟨table, c.issued, c.bindings ++ [(tag, x)]⟩ := by
  rw [record, bound]

/-- **A chronicle stays one of its table**, whatever the table is told. -/
theorem Sound.record (sound : c.Sound) (operation : Operation η)
    (room : (c.record operation).issued.length < UInt64.size - 1) : (c.record operation).Sound := by
  cases operation with
  | issue => exact sound.issue (by simpa [Chronicle.record] using room)
  | bind tag x =>
    cases outcome : c.table.bind tag x with
    | error err => rw [record_bind_refused outcome]; exact sound
    | ok table => rw [record_bind_ok outcome]; exact sound.bound outcome
  | track x =>
    cases known : c.table.tagOf? x with
    | some tag =>
      rw [record_track_known (by rw [known]; rfl)]
      exact sound
    | none =>
      have room : c.issued.length + 1 < UInt64.size - 1 := by
        simpa [Chronicle.record, known] using room
      exact (sound.tracked room known).2
  | clear => exact start_sound

/-- The index makes no difference to what the table becomes. -/
theorem Sound.plain_record (sound : c.Sound) (operation : Operation η) :
    (c.record operation).table.plain = operation.perform c.table.plain := by
  cases operation with
  | issue => rfl
  | bind tag x =>
    rw [Operation.perform, ← plain_bind]
    cases outcome : c.table.bind tag x with
    | error err => rw [record_bind_refused outcome]; rfl
    | ok table => rw [record_bind_ok outcome]; rfl
  | track x =>
    have table : (c.record (.track x)).table = (c.table.track x).2 := by
      rw [Chronicle.record]
      dsimp only
      split <;> rfl
    rw [table]
    exact congrArg Prod.snd (plain_track sound.agrees x)
  | clear => rfl

/-- **Nothing that was bound is taken back**, unless all is. -/
theorem bindings_record (kept : operation ≠ .clear) :
    c.bindings <+: (c.record operation).bindings := by
  cases operation with
  | issue => exact List.prefix_refl _
  | bind tag x =>
    cases outcome : c.table.bind tag x with
    | error err => rw [record_bind_refused outcome]
    | ok table => rw [record_bind_ok outcome]; exact List.prefix_append _ _
  | track x =>
    rw [record]
    dsimp only
    split
    · exact List.prefix_refl _
    · exact List.prefix_append _ _
  | clear => exact absurd rfl kept

end Chronicle

/-! ## All that a table is told -/

section Runs

variable {operations more : List (Operation η)} {operation : Operation η}

theorem chronicle_append (operations : List (Operation η)) (operation : Operation η) :
    chronicle (operations ++ [operation]) = (chronicle operations).record operation := by
  unfold chronicle
  rw [List.foldl_append]
  rfl

theorem Roomy.before (roomy : Roomy (operations ++ more)) : Roomy operations :=
  fun done mem => roomy done (mem.trans (List.prefix_append operations more))

/-- No more tags are issued than the table is told things. -/
theorem length_issued_le (operations : List (Operation η)) :
    (chronicle operations).issued.length ≤ operations.length := by
  induction operations using List.reverseRecOn with
  | nil => exact Nat.zero_le _
  | append_singleton done operation ih =>
    rw [chronicle_append, List.length_append, List.length_singleton]
    cases operation with
    | issue => simpa [Chronicle.record] using ih
    | bind tag x =>
      unfold Chronicle.record
      dsimp only
      split <;> exact Nat.le_succ_of_le ih
    | track x =>
      unfold Chronicle.record
      dsimp only
      split
      · exact Nat.le_succ_of_le ih
      · simpa using ih
    | clear => exact Nat.zero_le _

theorem roomy_of_length (few : operations.length < UInt64.size - 1) : Roomy operations :=
  fun done mem =>
    Nat.lt_of_le_of_lt (length_issued_le done) (Nat.lt_of_le_of_lt mem.length_le few)

theorem chronicle_sound (roomy : Roomy operations) : (chronicle operations).Sound := by
  induction operations using List.reverseRecOn with
  | nil => exact Chronicle.start_sound
  | append_singleton done operation ih =>
    have room := roomy _ (List.prefix_refl _)
    rw [chronicle_append] at room ⊢
    exact (ih roomy.before).record operation room

/-- **A table with an index is one without, as long as tags last**: told the same, it has the same
bindings, and finds the same tag for every handle. -/
theorem plain_chronicle (roomy : Roomy operations) :
    (chronicle operations).table.plain = operations.foldl (fun t o => o.perform t) .empty ∧
      (chronicle operations).table.Agrees := by
  refine ⟨?_, (chronicle_sound roomy).agrees⟩
  induction operations using List.reverseRecOn with
  | nil => rfl
  | append_singleton done operation ih =>
    rw [chronicle_append, (chronicle_sound roomy.before).plain_record operation, ih roomy.before,
      List.foldl_append]
    rfl

theorem bindings_chronicle (kept : .clear ∉ more) :
    (chronicle operations).bindings <+: (chronicle (operations ++ more)).bindings := by
  induction more using List.reverseRecOn with
  | nil => rw [List.append_nil]
  | append_singleton more operation ih =>
    rw [← List.append_assoc, chronicle_append]
    have before : .clear ∉ more := fun mem => kept (List.mem_append_left _ mem)
    have this : operation ≠ .clear := fun same => kept (by simp [same])
    exact (ih before).trans (Chronicle.bindings_record this)

/-- If no bound handle was to be bound again, none is bound twice. -/
theorem BindsOnce.nodup (once : BindsOnce operations) (roomy : Roomy operations) :
    ((chronicle operations).bindings.map Prod.snd).Nodup := by
  -- on the last operation, since the binding that it adds is compared with those before
  induction operations using List.reverseRecOn with
  | nil => exact List.nodup_nil
  | append_singleton done operation ih =>
    have sound := chronicle_sound roomy.before
    -- clearing forgets what was bound, so only behind it the earlier operations do not matter
    have earlier (kept : operation ≠ .clear) : ((chronicle done).bindings.map Prod.snd).Nodup := by
      refine ih (fun first tag x more split uncleared => ?_) roomy.before
      refine once first tag x (more ++ [operation]) (by simp [split]) fun mem => ?_
      rcases List.mem_append.1 mem with inside | last
      · exact uncleared inside
      · exact kept (List.mem_singleton.1 last).symm
    -- what is bound now was not bound before
    have behind {tag : Tag} {x : η} (nodup : ((chronicle done).bindings.map Prod.snd).Nodup)
        (new : x ∉ (chronicle done).bindings.map Prod.snd) :
        (((chronicle done).bindings ++ [(tag, x)]).map Prod.snd).Nodup := by
      rw [List.map_append, List.nodup_append]
      refine ⟨nodup, by simp, fun y mem z isX => ?_⟩
      rw [List.mem_singleton.1 isX]
      rintro rfl
      exact new mem
    rw [chronicle_append]
    cases operation with
    | issue => exact earlier (by simp)
    | bind tag x =>
      have nodup := earlier (by simp)
      cases outcome : (chronicle done).table.bind tag x with
      | error err => rw [Chronicle.record_bind_refused outcome]; exact nodup
      | ok table =>
        rw [Chronicle.record_bind_ok outcome]
        refine behind nodup fun mem => ?_
        obtain ⟨⟨other, y⟩, there, rfl⟩ := List.mem_map.1 mem
        have resolves := sound.once.resolve_eq_ok.2 (sound.entries ▸ there)
        exact once done tag y [] rfl List.not_mem_nil other resolves
    | track x =>
      have nodup := earlier (by simp)
      cases known : (chronicle done).table.tagOf? x with
      | some tag =>
        rw [Chronicle.record_track_known (by rw [known]; rfl)]
        exact nodup
      | none =>
        rw [Chronicle.record, known]
        refine behind nodup fun mem => ?_
        rw [← sound.entries] at mem
        exact TagTable.tagOf?_eq_none.1 ((sound.agrees x).symm.trans known) mem
    | clear => exact List.nodup_nil

end Runs

/-! ## What holds at any time -/

/-- A table does what it should, going by what came of it. -/
structure Chronicle.InOrder (c : Chronicle η) : Prop where
  /-- The tags issued are 1, 2, 3, … -/
  issued : c.issued.map number = List.range' 1 c.issued.length
  distinct : c.issued.Nodup
  next : number c.table.next = c.issued.length + 1
  bound : ∀ tag x, c.table.resolve tag = .ok x ↔ (tag, x) ∈ c.bindings
  within : ∀ tag x, c.table.resolve tag = .ok x →
    1 ≤ number tag ∧ number tag < number c.table.next
  /-- A binding is refused if its tag was not issued or is bound, and then nothing changes. -/
  refused : ∀ tag x, (∃ err, c.table.bind tag x = .error err) ↔
    tag ∉ c.issued ∨ ∃ y, c.table.resolve tag = .ok y
  unchanged : ∀ tag x err, c.table.bind tag x = .error err → c.record (.bind tag x) = c
  named : ∀ x, (∃ tag, c.table.tagOf? x = some tag) ↔ ∃ tag, c.table.resolve tag = .ok x
  /-- The tag of a handle is the one that it was bound under first. -/
  first : ∀ x tag, c.table.tagOf? x = some tag → c.table.resolve tag = .ok x ∧
    ∃ before after, c.bindings = before ++ (tag, x) :: after ∧ ∀ b ∈ before, b.2 ≠ x

namespace Chronicle

variable {c later : Chronicle η} {tag : Tag} {x : η}

theorem Sound.resolve_eq_ok (sound : c.Sound) :
    c.table.resolve tag = .ok x ↔ (tag, x) ∈ c.bindings := by
  rw [resolve_eq, sound.once.resolve_eq_ok]
  exact sound.entries ▸ Iff.rfl

theorem Sound.tagOf?_eq_some (sound : c.Sound) : c.table.tagOf? x = some tag ↔
    ∃ before after, c.bindings = before ++ (tag, x) :: after ∧ ∀ b ∈ before, b.2 ≠ x := by
  have search : c.table.tagOf? x = some tag ↔
      c.bindings.find? (fun e => decide (e.2 = x)) = some (tag, x) := by
    have entries : c.table.plain.bound.entries = c.bindings := sound.entries
    rw [sound.agrees x, TagTable.tagOf?, entries, Option.map_eq_some_iff]
    constructor
    · rintro ⟨⟨tag, y⟩, found, rfl⟩
      have same : y = x := by simpa using List.find?_some found
      rw [found, same]
    · exact fun found => ⟨_, found, rfl⟩
  rw [search, List.find?_eq_some_iff_append]
  simp

theorem Sound.mem_issued (sound : c.Sound) :
    tag ∈ c.issued ↔ 0 < number tag ∧ number tag < number c.table.next := by
  have next : number c.table.next = c.issued.length + 1 := sound.counted
  have count : number tag ∈ c.issued.map number ↔
      0 < number tag ∧ number tag < number c.table.next := by
    rw [sound.issued, List.mem_range'_1, next]
    omega
  rw [← count, List.mem_map]
  constructor
  · exact fun mem => ⟨tag, mem, rfl⟩
  · rintro ⟨⟨id⟩, mem, same⟩
    obtain rfl : id = tag.id := UInt64.toNat_inj.1 same
    exact mem

theorem Sound.bind_refused (sound : c.Sound) :
    (∃ err, c.table.bind tag x = .error err) ↔
      tag ∉ c.issued ∨ ∃ y, c.table.resolve tag = .ok y := by
  have bound : tag ∈ c.table.byTag.keys ↔ ∃ y, c.table.resolve tag = .ok y := by
    simp [sound.resolve_eq_ok, ← sound.entries, OrderedMap.keys]
  have accepted : (∃ table, c.table.bind tag x = .ok table) ↔
      tag ∈ c.issued ∧ ¬ ∃ y, c.table.resolve tag = .ok y := by
    simp only [bind_eq_ok, sound.mem_issued, ← bound, number]
    constructor
    · rintro ⟨_, given, free, -⟩
      exact ⟨given, free⟩
    · rintro ⟨given, free⟩
      exact ⟨_, given, free, rfl⟩
  have either : (∃ err, c.table.bind tag x = .error err) ↔
      ¬ ∃ table, c.table.bind tag x = .ok table := by
    cases c.table.bind tag x <;> simp
  rw [either, accepted, not_and_or, not_not]

/-- What the index gives for a handle, the other map takes back to it. -/
theorem Sound.resolve_tagOf (sound : c.Sound) (found : c.table.tagOf? x = some tag) :
    c.table.resolve tag = .ok x :=
  TagTable.resolve_tagOf sound.once ((sound.agrees x).symm.trans found)

theorem Sound.named (sound : c.Sound) :
    (∃ tag, c.table.tagOf? x = some tag) ↔ ∃ tag, c.table.resolve tag = .ok x := by
  constructor
  · rintro ⟨tag, found⟩
    exact ⟨tag, sound.resolve_tagOf found⟩
  · rintro ⟨tag, bound⟩
    refine Option.isSome_iff_exists.1 (Option.isSome_iff_ne_none.2 fun unnamed => ?_)
    have absent := TagTable.tagOf?_eq_none.1 ((sound.agrees x).symm.trans unnamed)
    exact absent (List.mem_map.2 ⟨(tag, x), sound.once.resolve_eq_ok.1 bound, rfl⟩)

theorem Sound.inOrder (sound : c.Sound) : c.InOrder where
  issued := sound.issued
  distinct := by
    have nodup : (c.issued.map number).Nodup := by
      rw [sound.issued]
      exact List.nodup_range'
    exact nodup.of_map
  next := sound.counted
  bound _ _ := sound.resolve_eq_ok
  within tag x bound := by
    have mem := sound.resolve_eq_ok.1 bound
    refine ⟨sound.positive _ mem, sound.once.below tag ?_⟩
    rw [← sound.entries] at mem
    exact List.mem_map_of_mem mem
  refused _ _ := sound.bind_refused
  unchanged _ _ _ refused := record_bind_refused refused
  named _ := sound.named
  first _ _ found := ⟨sound.resolve_tagOf found, sound.tagOf?_eq_some.1 found⟩

/-- The first binding of a handle stays the first. -/
theorem Sound.tagOf?_later (sound : c.Sound) (later_sound : later.Sound)
    (longer : c.bindings <+: later.bindings) (found : c.table.tagOf? x = some tag) :
    later.table.tagOf? x = some tag := by
  obtain ⟨before, after, split, other⟩ := sound.tagOf?_eq_some.1 found
  obtain ⟨new, all⟩ := longer
  refine later_sound.tagOf?_eq_some.2 ⟨before, after ++ new, ?_, other⟩
  rw [← all, split]
  simp

/-- If no handle is bound twice, its only binding is its first. -/
theorem Sound.tagOf?_of_resolve (sound : c.Sound) (nodup : (c.bindings.map Prod.snd).Nodup)
    (bound : c.table.resolve tag = .ok x) : c.table.tagOf? x = some tag := by
  obtain ⟨before, after, split⟩ := List.append_of_mem (sound.resolve_eq_ok.1 bound)
  refine sound.tagOf?_eq_some.2 ⟨before, after, split, fun b mem same => ?_⟩
  rw [split, List.map_append, List.nodup_append] at nodup
  exact nodup.2.2 b.2 (List.mem_map_of_mem mem) x (by simp) same

end Chronicle

/-- **A table that is told anything keeps what it bound.** At any time its tags are in order
(`Chronicle.InOrder`). From then on, up to when it is cleared, a bound tag stands for what it was
bound to, a value that was encoded is decoded to what it was, and one that was decoded is encoded to
what it was, if no handle was bound under two tags. -/
theorem keeps_what_it_bound {operations more : List (Operation η)}
    (roomy : Roomy (operations ++ more)) (kept : .clear ∉ more) :
    (chronicle operations).InOrder ∧
      (∀ tag x, (chronicle operations).table.resolve tag = .ok x →
        (chronicle (operations ++ more)).table.resolve tag = .ok x) ∧
      (∀ v w, (chronicle operations).table.encode v = .ok w →
        (chronicle (operations ++ more)).table.decode w = .ok v) ∧
      (BindsOnce operations → ∀ w v, (chronicle operations).table.decode w = .ok v →
        (chronicle (operations ++ more)).table.encode v = .ok w) := by
  have sound := chronicle_sound roomy.before
  have later := chronicle_sound roomy
  have longer : (chronicle operations).bindings <+: (chronicle (operations ++ more)).bindings :=
    bindings_chronicle kept
  have stays {tag : Tag} {x : η} (bound : (chronicle operations).table.resolve tag = .ok x) :
      (chronicle (operations ++ more)).table.resolve tag = .ok x :=
    later.resolve_eq_ok.2 (longer.subset (sound.resolve_eq_ok.1 bound))
  refine ⟨sound.inOrder, fun _ _ => stays, fun v w encoded => ?_, fun once w v decoded => ?_⟩
  · rw [encode_eq sound.agrees] at encoded
    have decoded := (decode_eq _ w).trans (Value.decode_encode sound.once encoded)
    exact Value.traverse_mono (fun _ _ => stays) decoded
  · refine Value.traverse_back (fun tag x bound => ?_) decoded
    have found := sound.tagOf?_of_resolve (once.nodup roomy.before) bound
    rw [sound.tagOf?_later later longer found]

/-- Tags that are bound out of turn, after bindings that are refused. -/
def outOfTurn : List (Operation String) :=
  [.issue, .clear, .issue, .issue, .bind ⟨2⟩ "b", .bind ⟨2⟩ "c", .bind ⟨3⟩ "c", .track "a"]

/-- Going by what was done before, each handle is new where it is to be bound. -/
theorem outOfTurn_bindsOnce : BindsOnce outOfTurn := by
  intro done tag x more split kept other bound
  have roomy : Roomy outOfTurn := roomy_of_length (by decide)
  have sound := chronicle_sound (Roomy.before (split ▸ roomy))
  have mem : x ∈ (chronicle done).bindings.map Prod.snd :=
    List.mem_map_of_mem (sound.resolve_eq_ok.1 bound)
  simp only [outOfTurn, List.cons_eq_append_iff, List.cons.injEq, reduceCtorEq, false_and,
    and_false, Operation.bind.injEq, List.nil_eq, List.append_eq_nil_iff, exists_const, or_self,
    or_false, ↓existsAndEq, true_and, false_or] at split
  rcases split with
    ⟨_, rfl, ⟨rfl, ⟨-, rfl⟩, -⟩ | ⟨_, rfl, ⟨rfl, ⟨-, rfl⟩, -⟩ | ⟨rfl, ⟨-, rfl⟩, -⟩⟩⟩
  all_goals exact absurd mem (by decide)

/-- What comes then gives the first handle a second tag. -/
theorem outOfTurn_kept : Roomy (outOfTurn ++ [.bind ⟨1⟩ "b", .issue]) ∧
    Operation.clear ∉ [Operation.bind ⟨1⟩ "b", .issue] ∧
    (chronicle outOfTurn).bindings = [(⟨2⟩, "b"), (⟨3⟩, "a")] ∧
    (chronicle (outOfTurn ++ [.bind ⟨1⟩ "b", .issue])).table.decode (.ref ⟨2⟩) =
      .ok (.ref "b") ∧
    (chronicle (outOfTurn ++ [.bind ⟨1⟩ "b", .issue])).table.encode (.ref "b") =
      .ok (.ref ⟨2⟩) := by
  have roomy : Roomy (outOfTurn ++ [.bind ⟨1⟩ "b", .issue]) := roomy_of_length (by decide)
  have kept : Operation.clear ∉ [Operation.bind ⟨1⟩ "b", .issue] := by decide
  have encoded : (chronicle outOfTurn).table.encode (.ref "b") = .ok (.ref ⟨2⟩) := by decide
  have decoded : (chronicle outOfTurn).table.decode (.ref ⟨2⟩) = .ok (.ref "b") := by decide
  obtain ⟨-, -, back, again⟩ := keeps_what_it_bound roomy kept
  exact ⟨roomy, kept, by decide, back _ _ encoded, again outOfTurn_bindsOnce _ _ decoded⟩

end IndexedTags
end Retrace
