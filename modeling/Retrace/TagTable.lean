import Retrace.OrderedMap
import Retrace.Value

/-!
# Identity tags

A `TagTable` gives the reference values of one session their tags. Tags are issued 1, 2, 3, … in the
order in which handles are first tracked. Recording and replay observe the same values in the same
order, so a tag names the same object in both, whatever the handles are.

The table is one list of bindings, in the order in which they were made. It answers both ways: from
a tag to its handle, and from a handle to the tag under which it was bound *first*, which matters
only for a handle bound by hand under several tags. `IndexedTags` gives the same answers without
going through the list.

`Value.encode` writes a value with tags for its references, `Value.decode` gives it back.
-/

namespace Retrace

/-- What can go wrong in naming values and times. -/
inductive NamingError where
  /-- A reference was to be written that has no tag. -/
  | untagged
  /-- A tag was to be resolved that is not bound. -/
  | unresolved (tag : Tag)
  /-- A tag was to be bound a second time. -/
  | alreadyBound (tag : Tag)
  /-- A tag was to be bound that has not been issued; `expected` is the next one to be. -/
  | outOfOrder (tag expected : Tag)
  /-- A time after the last point of the clock was asked for. -/
  | clockExhausted (time : Time)
deriving DecidableEq, Repr

/-- The error as it is shown. -/
def NamingError.message : NamingError → String
  | untagged => "complex value has not been tagged"
  | unresolved tag => s!"unresolved identity tag: {tag}"
  | alreadyBound tag => s!"identity tag {tag} is already bound"
  | outOfOrder tag expected => s!"identity tag {tag} bound out of order (expected {expected})"
  | clockExhausted time => s!"event clock exhausted at time {time}"

/-- The point of the clock after this one, unless this one is the last. -/
def Time.next (t : Time) : Except NamingError Time :=
  match t.next? with
  | some u => .ok u
  | none => .error (.clockExhausted t)

/-- The tags of one session and the handles bound to them. -/
structure TagTable (η : Type) where
  /-- The tag that is issued next. -/
  next : Tag
  /-- The bindings, in the order in which they were made. -/
  bound : OrderedMap Tag η
deriving DecidableEq, Repr

namespace TagTable

variable {η κ : Type}

/-- The first tag of a session; tag 0 is never issued. -/
def firstTag : Tag := ⟨1⟩

/-- A table that has issued nothing. -/
def empty : TagTable η := ⟨firstTag, .empty⟩

instance : Inhabited (TagTable η) := ⟨empty⟩

/-- Issues the next tag, without binding it. -/
def issue (t : TagTable η) : Tag × TagTable η := (t.next, { t with next := ⟨t.next.id + 1⟩ })

/-- The bound tags, first bound first. -/
def order (t : TagTable η) : List Tag := t.bound.keys

/-- The number of bound tags. -/
def size (t : TagTable η) : Nat := t.bound.size

/-- Whether two tables have issued and bound the same tags in the same order. Handles are not
compared, for they differ between runs. -/
def isIsomorphic (t : TagTable η) (u : TagTable κ) : Bool :=
  t.next = u.next && t.order = u.order

/-- The handle that a tag stands for. -/
def resolve (t : TagTable η) (tag : Tag) : Except NamingError η :=
  match t.bound.get? tag with
  | some handle => .ok handle
  | none => .error (.unresolved tag)

variable [DecidableEq η]

/-- The tag that a handle was bound to first. -/
def tagOf? (t : TagTable η) (handle : η) : Option Tag :=
  (t.bound.entries.find? fun e => e.2 = handle).map Prod.fst

/-- Binds a handle to a tag that was issued and is not bound yet. -/
def bind (t : TagTable η) (tag : Tag) (handle : η) : Except NamingError (TagTable η) :=
  if tag.id < firstTag.id ∨ t.next.id ≤ tag.id then .error (.outOfOrder tag t.next)
  else if t.bound.contains tag then .error (.alreadyBound tag)
  else .ok { t with bound := t.bound.insert tag handle }

/-- The tag of a handle, issued and bound now if the handle is seen for the first time. -/
def track (t : TagTable η) (handle : η) : Tag × TagTable η :=
  match t.tagOf? handle with
  | some tag => (tag, t)
  | none =>
    let (tag, issued) := t.issue
    (tag, { issued with bound := issued.bound.insert tag handle })

/-- Tracks the reference in a value, if there is one. -/
def trackValue (t : TagTable η) (value : Value η) : TagTable η :=
  match value.handle? with
  | some handle => (t.track handle).2
  | none => t

end TagTable

/-- A value with tags for its references, which must have been tracked before. -/
def Value.encode {η : Type} [DecidableEq η] (tags : TagTable η) (value : Value η) :
    Except NamingError Recorded :=
  value.traverse fun handle =>
    match tags.tagOf? handle with
    | some tag => .ok tag
    | none => .error .untagged

/-- The value that a recorded one stands for in the session that owns `tags`. -/
def Value.decode {η : Type} (tags : TagTable η) (value : Recorded) : Except NamingError (Value η) :=
  value.traverse tags.resolve

end Retrace
