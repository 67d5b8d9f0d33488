import Retrace.TagTable

/-!
# Tags with an index of the handles

To encode a value is to ask for the tag of a handle, and a session asks this for every reference it
meets. A `TagTable` goes through its bindings; an `IndexedTags` keeps a second map, from each handle
to its tag, and brings it up to date with every binding.

The two maps are written by different rules. Under a tag there is one handle for good, since a bound
tag is not bound again. A handle may be bound by hand under several tags, and then it is the first
that stays in the index. `plain` forgets the index; that both give the same answers has to be
proved.
-/

namespace Retrace

/-- The tags of one session and the handles bound to them, to be looked up from both sides. -/
structure IndexedTags (η : Type) where
  /-- The tag that is issued next. -/
  next : Tag
  /-- The handle of each bound tag, in the order in which the tags were bound. -/
  byTag : OrderedMap Tag η
  /-- The tag of each bound handle. -/
  byHandle : OrderedMap η Tag
deriving DecidableEq, Repr

namespace IndexedTags

variable {η κ : Type}

/-- A table that has issued nothing. -/
def empty : IndexedTags η := ⟨TagTable.firstTag, .empty, .empty⟩

instance : Inhabited (IndexedTags η) := ⟨empty⟩

/-- The table without the index of its handles. -/
def plain (t : IndexedTags η) : TagTable η := ⟨t.next, t.byTag⟩

/-- Issues the next tag, without binding it. -/
def issue (t : IndexedTags η) : Tag × IndexedTags η := (t.next, { t with next := ⟨t.next.id + 1⟩ })

/-- The handle that a tag stands for. -/
def resolve (t : IndexedTags η) (tag : Tag) : Except NamingError η :=
  match t.byTag.get? tag with
  | some handle => .ok handle
  | none => .error (.unresolved tag)

/-- The value that a recorded one stands for in the session that owns the table. -/
def decode (t : IndexedTags η) (value : Recorded) : Except NamingError (Value η) :=
  value.traverse t.resolve

/-- The bound tags, first bound first. -/
def order (t : IndexedTags η) : List Tag := t.byTag.keys

/-- The number of bound tags. -/
def size (t : IndexedTags η) : Nat := t.byTag.size

/-- Whether no tag is bound. -/
def isEmpty (t : IndexedTags η) : Bool := t.byTag.isEmpty

/-- Whether two tables have issued and bound the same tags in the same order. Handles are not
compared, for they differ between runs. -/
def isIsomorphic (t : IndexedTags η) (u : IndexedTags κ) : Bool :=
  t.next = u.next && t.order = u.order

/-- Forgets everything, so that tags are issued from the first one again. -/
def clear (t : IndexedTags η) : IndexedTags η :=
  { t with next := TagTable.firstTag, byTag := .empty, byHandle := .empty }

variable [DecidableEq η]

/-- The tag in the index of handles. -/
def tagOf? (t : IndexedTags η) (handle : η) : Option Tag := t.byHandle.get? handle

/-- Binds a handle to a tag that was issued and is not bound yet. -/
def bind (t : IndexedTags η) (tag : Tag) (handle : η) : Except NamingError (IndexedTags η) :=
  if tag.id < TagTable.firstTag.id ∨ t.next.id ≤ tag.id then .error (.outOfOrder tag t.next)
  else if t.byTag.contains tag then .error (.alreadyBound tag)
  else .ok { t with
    byHandle := t.byHandle.insertNew handle tag
    byTag := t.byTag.insert tag handle }

/-- The tag of a handle, issued and bound now if the handle is seen for the first time. -/
def track (t : IndexedTags η) (handle : η) : Tag × IndexedTags η :=
  match t.byHandle.get? handle with
  | some tag => (tag, t)
  | none =>
    let (tag, issued) := t.issue
    (tag, { issued with
      byHandle := issued.byHandle.insert handle tag
      byTag := issued.byTag.insert tag handle })

/-- A value with tags for its references, which must have been bound before. -/
def encode (t : IndexedTags η) (value : Value η) : Except NamingError Recorded :=
  value.traverse fun handle =>
    match t.tagOf? handle with
    | some tag => .ok tag
    | none => .error .untagged

end IndexedTags
end Retrace
