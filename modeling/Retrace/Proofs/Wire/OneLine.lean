import Retrace.Proofs.Wire.Printed

/-!
# A record holds no newline

Newlines stand between the records of a log only. A newline is a control character, and what can be
printed holds none (`OneLine.printed`), so there is none in any field, whatever the field holds.
Leaving a record out by going to the end of its line rests on this.
-/

namespace Retrace

/-- There is no newline among the bytes. -/
def OneLine (bytes : Bytes) : Prop := 10 ∉ bytes

instance (bytes : Bytes) : Decidable (OneLine bytes) := inferInstanceAs (Decidable (10 ∉ bytes))

namespace OneLine

variable {bytes more : Bytes} {b : UInt8}

theorem printed (h : Printed bytes) : OneLine bytes := by
  intro mem
  rcases h.byte mem with beyond | ⟨c, visible, same⟩
  · exact absurd beyond (by decide)
  · have code : (10 : UInt8).toNat = 10 := rfl
    omega

theorem ne (h : OneLine bytes) (mem : b ∈ bytes) : b ≠ 10 :=
  fun same => h (same ▸ mem)

theorem append (h : OneLine bytes) (h' : OneLine more) : OneLine (bytes ++ more) :=
  fun mem => (List.mem_append.1 mem).elim h h'

theorem cons (other : b ≠ 10) (h : OneLine bytes) : OneLine (b :: bytes) :=
  fun mem => (List.mem_cons.1 mem).elim (fun same => other same.symm) h

theorem suffix (h : OneLine bytes) (suffix : more <:+ bytes) : OneLine more :=
  fun mem => h (suffix.subset mem)

theorem keyed {α : Type} (k : Key) (s : Scalar α) (a : α) : OneLine (Wire.keyed k s a) :=
  printed (.keyed k s a)

end OneLine

end Retrace
