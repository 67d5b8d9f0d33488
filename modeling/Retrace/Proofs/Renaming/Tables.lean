import Retrace.Proofs.Replay.Execution

/-!
# Other handles for the same objects

What a log says of references it says in tags; handles only stand in tables and values, and which
ones do should not matter. This module replaces all of them by others: in the values of a map, in a
table of tags, in a request. Everything that is done with handles here is done in the same way after
the replacement, as long as different handles stay different. A table is asked for the tag of a
handle, so that is where injectivity is needed (`TagTable.tagOf?_rename`), and only there.
-/

namespace Retrace

/-! ## Maps -/

namespace OrderedMap

variable {κ ν μ : Type}

/-- Replaces the values of a map. -/
def mapValues (f : ν → μ) (m : OrderedMap κ ν) : OrderedMap κ μ :=
  ⟨m.entries.map fun e => (e.1, f e.2)⟩

@[simp] theorem mapValues_id (m : OrderedMap κ ν) : m.mapValues id = m := by
  simp [mapValues]

@[simp] theorem keys_mapValues (f : ν → μ) (m : OrderedMap κ ν) :
    (m.mapValues f).keys = m.keys := by
  simp [keys, mapValues, Function.comp_def]

variable [DecidableEq κ]

@[simp] theorem get?_mapValues (f : ν → μ) (m : OrderedMap κ ν) (k : κ) :
    (m.mapValues f).get? k = (m.get? k).map f := by
  unfold get? mapValues
  induction m.entries with
  | nil => rfl
  | cons e l ih =>
    obtain ⟨a, b⟩ := e
    simp only [List.map_cons, List.lookup_cons]
    cases k == a with
    | true => rfl
    | false => exact ih

@[simp] theorem contains_mapValues (f : ν → μ) (m : OrderedMap κ ν) (k : κ) :
    (m.mapValues f).contains k = m.contains k := by
  simp [contains]

theorem insert_mapValues (f : ν → μ) (m : OrderedMap κ ν) (k : κ) (v : ν) :
    (m.mapValues f).insert k (f v) = (m.insert k v).mapValues f := by
  unfold insert
  rw [contains_mapValues]
  split
  · simp only [mapValues, List.map_map, mk.injEq]
    apply List.map_congr_left
    intro e _
    by_cases same : e.1 = k <;> simp [same]
  · simp [mapValues]

theorem erase_mapValues (f : ν → μ) (m : OrderedMap κ ν) (k : κ) :
    (m.mapValues f).erase k = (m.erase k).mapValues f := by
  simp [erase, mapValues, List.filter_map, Function.comp_def]

end OrderedMap

/-! ## Values -/

namespace Value

variable {η κ : Type} (f : η → κ)

@[simp] theorem mapRef_id : mapRef (id : η → η) = id := by
  funext v
  cases v <;> rfl

@[simp] theorem typeName_mapRef (v : Value η) : (v.mapRef f).typeName = v.typeName := by
  cases v <;> rfl

@[simp] theorem handle?_mapRef (v : Value η) : (v.mapRef f).handle? = v.handle?.map f := by
  cases v <;> rfl

end Value

/-! ## Tables -/

namespace TagTable

variable {η κ : Type}

/-- The table with other handles under the same tags. -/
def rename (f : η → κ) (t : TagTable η) : TagTable κ := ⟨t.next, t.bound.mapValues f⟩

theorem rename_isIsomorphic (f : η → κ) (t : TagTable η) : t.isIsomorphic (t.rename f) = true := by
  simp [isIsomorphic, rename, order]

theorem resolve_rename (f : η → κ) (t : TagTable η) (tag : Tag) :
    (t.rename f).resolve tag = (t.resolve tag).map f := by
  unfold resolve rename
  rw [OrderedMap.get?_mapValues]
  cases t.bound.get? tag <;> rfl

theorem decode_rename (f : η → κ) (t : TagTable η) (v : Recorded) :
    v.decode (t.rename f) = (v.decode t).map (Value.mapRef f) := by
  cases v with
  | ref tag =>
    simp only [Value.decode, Value.traverse, resolve_rename]
    cases t.resolve tag <;> rfl
  | _ => rfl

theorem decode_all_rename (f : η → κ) (t : TagTable η) (args : List Recorded) :
    args.mapM (Value.decode (t.rename f)) =
      (args.mapM (Value.decode t)).map (List.map (Value.mapRef f)) := by
  induction args with
  | nil => rfl
  | cons v vs ih =>
    rw [List.mapM_cons, List.mapM_cons, ih, decode_rename]
    cases v.decode t with
    | error e => rfl
    | ok a => cases vs.mapM (Value.decode t) <;> rfl

theorem callOf_rename (f : η → κ) (t : TagTable η) (function : Tag) (args : List Recorded) :
    (t.rename f).callOf function args =
      (t.callOf function args).map fun call => (f call.1, call.2.map (Value.mapRef f)) := by
  unfold callOf
  rw [resolve_rename, decode_all_rename]
  cases t.resolve function with
  | error e => rfl
  | ok callee => cases args.mapM (Value.decode t) <;> rfl

theorem value_rename (f : η → κ) (t : TagTable η) (v : Recorded) :
    (t.rename f).value v = (t.value v).map (Value.mapRef f) := by
  unfold value
  rw [decode_rename]
  cases v.decode t <;> rfl

theorem object_rename (f : η → κ) (t : TagTable η) (v : Recorded) :
    (t.rename f).object v = (t.object v).map f := by
  unfold object
  rw [value_rename]
  cases t.value v with
  | error e => rfl
  | ok a => cases a <;> rfl

variable [DecidableEq η] [DecidableEq κ] {f : η → κ}

/-- Other handles have the tags of those that they stand for. -/
theorem tagOf?_rename (injective : Function.Injective f) (t : TagTable η) (handle : η) :
    (t.rename f).tagOf? (f handle) = t.tagOf? handle := by
  unfold tagOf? rename OrderedMap.mapValues
  induction t.bound.entries with
  | nil => rfl
  | cons e l ih =>
    simp only [List.map_cons, List.find?_cons, injective.eq_iff]
    cases decide (e.2 = handle) with
    | true => rfl
    | false => exact ih

theorem track_rename (injective : Function.Injective f) (t : TagTable η) (handle : η) :
    (t.rename f).track (f handle) = ((t.track handle).1, (t.track handle).2.rename f) := by
  unfold track
  rw [tagOf?_rename injective]
  cases t.tagOf? handle with
  | some tag => rfl
  | none => simp only [issue, rename, OrderedMap.insert_mapValues]

theorem trackValue_rename (injective : Function.Injective f) (t : TagTable η) (value : Value η) :
    (t.rename f).trackValue (value.mapRef f) = (t.trackValue value).rename f := by
  unfold trackValue
  rw [Value.handle?_mapRef]
  cases value.handle? with
  | none => rfl
  | some handle =>
    show ((t.rename f).track (f handle)).2 = _
    rw [track_rename injective]

end TagTable

/-! ## Requests -/

/-- The request with other handles. -/
def Request.rename {η κ : Type} (f : η → κ) : Request η → Request κ
  | toObject value => toObject (value.mapRef f)
  | createSymbol description => createSymbol (description.mapRef f)
  | createObject regular => createObject regular
  | createArray length => createArray length
  | createArrayBuffer bytes => createArrayBuffer bytes
  | createFunction name => createFunction (name.map (Value.mapRef f))
  | getProperty object property => getProperty (f object) property
  | getIndex object index => getIndex (f object) (index.mapRef f)
  | ownPropertyDescriptor object property => ownPropertyDescriptor (f object) property
  | ownPropertyKeys object names => ownPropertyKeys (f object) names
  | defineProperty object property descriptor =>
    defineProperty (f object) property (descriptor.mapRef f)
  | deleteProperty object property strict => deleteProperty (f object) property strict
  | setPrototype object prototype => setPrototype (f object) (prototype.mapRef f)
  | setProperty object property value strict =>
    setProperty (f object) property (value.mapRef f) strict
  | setIndex object index value => setIndex (f object) (index.mapRef f) (value.mapRef f)
  | typedArrayBuffer object wanted => typedArrayBuffer (f object) wanted
  | loadScript script => loadScript script

@[simp] theorem Request.rename_id {η : Type} (r : Request η) : r.rename id = r := by
  cases r <;> simp [rename]

@[simp] theorem Request.kind_rename {η κ : Type} (f : η → κ) (r : Request η) :
    (r.rename f).kind = r.kind := by
  cases r <;> rfl

@[simp] theorem Session.tagsResult_rename {η κ : Type} (f : η → κ) (r : Request η) :
    tagsResult (r.rename f) = tagsResult r := by
  cases r <;> rfl

/-- **An action stands for the same request over other handles.** -/
theorem Action.request?_rename {η κ : Type} (f : η → κ) (t : TagTable η) (a : Action) :
    a.request? (t.rename f) = (a.request? t).map (Except.map (Request.rename f)) := by
  have value (v : Recorded) := t.value_rename f v
  have object (v : Recorded) := t.object_rename f v
  -- the kinds go by how many values they hold
  cases a with
  | allocateObject | allocateArray | allocateArrayBuffer | codeParse | getAndClearException
  | constructCall | callbackOp | callBegin | callEnd => rfl
  | convertToObject v | createSymbol v =>
    simp only [request?, value]
    cases t.value v <;> rfl
  | allocateFunction name =>
    cases name with
    | none => rfl
    | some v =>
      simp only [request?, value]
      cases t.value v <;> rfl
  | getProperty _ o | getOwnPropertyInfo _ o | getOwnPropertiesInfo _ o | deleteProperty o
  | getTypedArrayInfo _ o =>
    simp only [request?, object]
    cases t.object o <;> rfl
  | getIndex v o | defineProperty o _ v | setPrototype o v | setProperty o _ v =>
    simp only [request?, object, value]
    cases t.object o with
    | error e => rfl
    | ok h => cases t.value v <;> rfl
  | setIndex o v x =>
    simp only [request?, object, value]
    cases t.object o with
    | error e => rfl
    | ok h =>
      cases t.value v with
      | error e => rfl
      | ok a => cases t.value x <;> rfl

end Retrace
