import Retrace.Engine.Request
import Retrace.Proofs.Runs

/-!
# Naming what was named

A recorder writes values through the tags of a table, and a replay reads them through the tags of
its own. If both tables are the same, what is read is what was written: of values
(`Value.decode_encode`), of the arguments of a call, and of whole requests
(`Request.request?_encode`).

This needs the table to be `Issued`: no tag is bound twice, and none is bound that is still to be
given out. Tracking keeps this as long as there are tags left.
-/

namespace Retrace

/-! ## Tables -/

namespace TagTable

variable {η : Type}

/-- Every tag is bound once, and was given out. -/
structure Issued (t : TagTable η) : Prop where
  nodup : t.bound.keys.Nodup
  below : ∀ tag ∈ t.bound.keys, tag.id.toNat < t.next.id.toNat

theorem empty_issued : (empty : TagTable η).Issued :=
  ⟨List.nodup_nil, fun _ h => absurd h (by simp [empty, OrderedMap.keys, OrderedMap.empty])⟩

variable [DecidableEq η]

/-- The tag of a handle stands for the handle. -/
theorem resolve_tagOf {t : TagTable η} (issued : t.Issued) {handle : η} {tag : Tag}
    (h : t.tagOf? handle = some tag) : t.resolve tag = .ok handle := by
  obtain ⟨⟨tag', handle'⟩, found, rfl⟩ := Option.map_eq_some_iff.1 h
  have same : handle' = handle := by simpa using List.find?_some found
  have there : t.bound.get? tag' = some handle :=
    OrderedMap.get?_of_mem issued.nodup (same ▸ List.mem_of_find?_eq_some found)
  unfold resolve
  rw [there]

/-- Tracking gives out at most one tag, which is new. -/
theorem track_issued {t : TagTable η} (issued : t.Issued) (room : t.next.id.toNat + 1 < UInt64.size)
    (handle : η) : (t.track handle).2.Issued ∧
      (t.track handle).2.next.id.toNat ≤ t.next.id.toNat + 1 := by
  unfold track
  cases t.tagOf? handle with
  | some tag => exact ⟨issued, Nat.le_succ _⟩
  | none =>
    have next : (t.next.id + 1).toNat = t.next.id.toNat + 1 := by
      rw [UInt64.toNat_add]
      exact Nat.mod_eq_of_lt room
    refine ⟨⟨OrderedMap.nodup_keys_insert issued.nodup t.next handle, ?_⟩, ?_⟩
    · intro tag mem
      show tag.id.toNat < (t.next.id + 1).toNat
      rw [next]
      -- the next tag lies above all that are bound
      rcases OrderedMap.mem_keys_insert.1 mem with rfl | old
      · exact Nat.lt_succ_self _
      · exact Nat.lt_succ_of_lt (issued.below tag old)
    · exact Nat.le_of_eq next

theorem trackValue_issued {t : TagTable η} (issued : t.Issued)
    (room : t.next.id.toNat + 1 < UInt64.size) (value : Value η) :
    (t.trackValue value).Issued ∧ (t.trackValue value).next.id.toNat ≤ t.next.id.toNat + 1 := by
  unfold trackValue
  cases value.handle? with
  | none => exact ⟨issued, Nat.le_succ _⟩
  | some handle => exact track_issued issued room handle

end TagTable

/-! ## Values -/

section Values

variable {η : Type} [DecidableEq η] {tags : TagTable η}

omit [DecidableEq η] in
/-- What was put for the reference in a value can be put back. -/
theorem Value.traverse_back {κ ε ε' : Type} {f : η → Except ε κ} {g : κ → Except ε' η}
    (back : ∀ x y, f x = .ok y → g y = .ok x) {v : Value η} {w : Value κ}
    (there : v.traverse f = .ok w) : w.traverse g = .ok v := by
  cases v with
  | ref x =>
    cases found : f x with
    | error err => simp [Value.traverse, found, Except.map] at there
    | ok y =>
      obtain rfl : Value.ref y = w := by simpa [Value.traverse, found, Except.map] using there
      simp [Value.traverse, back x y found, Except.map]
  | _ =>
    obtain rfl := Except.ok.inj there
    rfl

omit [DecidableEq η] in
theorem Value.traverse_mono {κ ε ε' : Type} {f : η → Except ε κ} {g : η → Except ε' κ}
    (more : ∀ x y, f x = .ok y → g x = .ok y) {v : Value η} {w : Value κ}
    (h : v.traverse f = .ok w) : v.traverse g = .ok w := by
  cases v with
  | ref x =>
    cases found : f x with
    | error err => simp [Value.traverse, found, Except.map] at h
    | ok y => simpa [Value.traverse, found, more x y found, Except.map] using h
  | _ => exact congrArg Except.ok (Except.ok.inj h)

/-- A value that was written is read back. -/
theorem Value.decode_encode (issued : tags.Issued) {v : Value η} {w : Recorded}
    (h : v.encode tags = .ok w) : w.decode tags = .ok v := by
  refine Value.traverse_back (fun handle tag written => TagTable.resolve_tagOf issued ?_) h
  cases found : tags.tagOf? handle with
  | none => rw [found] at written; exact absurd written (by simp)
  | some _ => rw [found] at written; exact congrArg some (Except.ok.inj written)

theorem decode_encode_all (issued : tags.Issued) {args : List (Value η)} {recorded : List Recorded}
    (h : args.mapM (Value.encode tags) = .ok recorded) :
    recorded.mapM (Value.decode tags) = .ok args := by
  induction args generalizing recorded with
  | nil =>
    obtain rfl := ok_of_pure_ok h
    rfl
  | cons v vs ih =>
    rw [List.mapM_cons] at h
    obtain ⟨w, hw, h⟩ := ok_of_bind_ok h
    obtain ⟨ws, hws, h⟩ := ok_of_bind_ok h
    obtain rfl := ok_of_pure_ok h
    rw [List.mapM_cons, Value.decode_encode issued hw, ih hws]
    rfl

theorem TagTable.value_encode (issued : tags.Issued) {v : Value η} {w : Recorded}
    (h : v.encode tags = .ok w) : tags.value w = .ok v := by
  unfold TagTable.value
  rw [Value.decode_encode issued h]
  rfl

theorem TagTable.object_target (issued : tags.Issued) {object : η} {w : Recorded}
    (h : Request.encode.target tags object = .ok w) : tags.object w = .ok object := by
  unfold TagTable.object
  rw [TagTable.value_encode issued h]
  rfl

/-- **A request that was recorded is read back as it was.** -/
theorem Request.request?_encode (issued : tags.Issued) {r : Request η} {a : Action}
    (h : r.encode tags = .ok a) : a.request? tags = some (.ok r) := by
  have value {v : Value η} {w : Recorded} (h : v.encode tags = .ok w) : tags.value w = .ok v :=
    TagTable.value_encode issued h
  have object {o : η} {w : Recorded} (h : encode.target tags o = .ok w) : tags.object w = .ok o :=
    TagTable.object_target issued h
  -- the kinds go by how many values they hold, each of which is decoded in its turn
  cases r with
  | createObject | createArray | createArrayBuffer | loadScript =>
    obtain rfl := ok_of_pure_ok h
    rfl
  | toObject v | createSymbol v =>
    obtain ⟨w, hw, h⟩ := ok_of_bind_ok h
    obtain rfl := ok_of_pure_ok h
    simp only [Action.request?, value hw]
    rfl
  | createFunction name =>
    cases name with
    | none =>
      obtain rfl := ok_of_pure_ok h
      rfl
    | some v =>
      obtain ⟨w, hw, h⟩ := ok_of_bind_ok h
      obtain rfl := ok_of_pure_ok h
      simp only [Action.request?, value hw]
      rfl
  | getProperty o | ownPropertyDescriptor o | ownPropertyKeys o | deleteProperty o
  | typedArrayBuffer o =>
    obtain ⟨w, hw, h⟩ := ok_of_bind_ok h
    obtain rfl := ok_of_pure_ok h
    simp only [Action.request?, object hw]
    rfl
  | getIndex o v | defineProperty o _ v | setPrototype o v | setProperty o _ v =>
    obtain ⟨w, hw, h⟩ := ok_of_bind_ok h
    obtain ⟨u, hu, h⟩ := ok_of_bind_ok h
    obtain rfl := ok_of_pure_ok h
    simp only [Action.request?, object hw, value hu]
    rfl
  | setIndex o v x =>
    obtain ⟨w, hw, h⟩ := ok_of_bind_ok h
    obtain ⟨u, hu, h⟩ := ok_of_bind_ok h
    obtain ⟨y, hy, h⟩ := ok_of_bind_ok h
    obtain rfl := ok_of_pure_ok h
    simp only [Action.request?, object hw, value hu, value hy]
    rfl

end Values

end Retrace
