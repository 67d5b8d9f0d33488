import Retrace.Proofs.Double.ReadBack
import Retrace.Proofs.Wire.Fields

/-!
# Sequences of values and of bytes

A sequence of values is a field of a call, and one of bytes is a field of a buffer; both declare
their length first. What is asked of a reader that takes one is that it stops just where the writer
stopped, whatever comes next, for what comes next is another field, or the end of the record, or
what a foreign writer has put there. The elements are the difficulty. A number has no end of its own
and goes on as long as there are bytes for it (`Reader.Stops`); but within a sequence it stands
before a comma, a brace or the closing bracket, and none of them belongs to a number. So nothing is
asked of what follows the bracket (`Reader.sequence_takes`).

Of doubles nothing is asked either, as each is printed so that it is read back (`Scalar.faithful`).
All NaNs are printed alike, so what is read for any of them is the one NaN.
-/

namespace Retrace

/-- What is written as the first field of a record, or else with a comma before it. -/
def Wire.delimited (first : Bool) (field : Bytes) : Bytes := (if first then [] else [44]) ++ field

namespace Reader

variable {α : Type} {field : Bytes} {a : α}

/-- Takes a field, and the comma before it if it is not the first one. -/
def delimited (first : Bool) (m : ReadM α) : ReadM α := do
  if !first then expect ','
  m

theorem delimited_takes (first : Bool) {m : ReadM α} (h : Takes Anything m field a) :
    Takes Anything (delimited first m) (Wire.delimited first field) a := by
  cases first with
  | true => exact h
  | false => exact comma_takes.seq h

/-- A field that is taken whatever follows is taken by a reader that stands before it. -/
theorem delimited_standing {first : Bool} {m : ReadM α} (taken : Takes Anything m field a)
    {r : Reader} (isEnd : r.ending = .endOfInput) {behind : Bytes}
    (stands : r.rest = Wire.delimited first field ++ behind) :
    delimited first m r = .ok a { r with rest := behind } := by
  have ran := delimited_takes first taken r behind isEnd trivial
  rwa [← stands] at ran

/-- **A sequence is taken just as far as it was written**, with or without a comma before it, and
    whatever bytes come behind it.

    A reader that stands before the values of a sequence takes them all, and then stands before the
    first byte behind its bracket. It has changed in nothing else. The values are those that were
    written, but for NaNs, which are all read as the same one. Bytes are read as they were written.
-/
theorem sequence_taken_exactly (first : Bool) {r : Reader} (isEnd : r.ending = .endOfInput)
    (behind : Bytes) :
    (∀ list : List Recorded, list.length < UInt32.size →
      r.rest = Wire.delimited first (Wire.values list) ++ behind →
      delimited first values r = .ok (list.map Recorded.readBack) { r with rest := behind }) ∧
    ∀ list : List UInt8, list.length < UInt32.size →
      r.rest = Wire.delimited first (Wire.bytes list) ++ behind →
      delimited first bytes r = .ok list { r with rest := behind } := by
  have faithful (v : Recorded) : v.Faithful := fun x _ => Scalar.faithful .f64 x
  constructor
  · intro list short stands
    exact delimited_standing (values_takes short fun v _ => faithful v) isEnd stands
  · intro list short stands
    exact delimited_standing (bytes_takes short) isEnd stands

/-- Values that are awkward to find the end of: a text that has quotes, brackets and letters outside
    ASCII in it, a NaN with a sign, and a number. -/
def awkwardValues : List Recorded := [.str "]\x7d\"\\\n€", .f64 (.nan true), .i32 (-1)]

/-- The awkward values behind a comma, with bytes behind them that look like more of the same. -/
def awkwardInput : Bytes := Wire.delimited false (Wire.values awkwardValues) ++ [44, 49, 93]

theorem awkwardValues_taken : awkwardValues.length < UInt32.size ∧
    delimited false values (ofBytes awkwardInput) =
      .ok [.str "]\x7d\"\\\n€", .f64 (.nan false), .i32 (-1)]
        { ofBytes awkwardInput with rest := [44, 49, 93] } := by
  have short : awkwardValues.length < UInt32.size := by decide
  have isEnd : (ofBytes awkwardInput).ending = .endOfInput := rfl
  have taken := (sequence_taken_exactly false isEnd [44, 49, 93]).1 awkwardValues short rfl
  have back : awkwardValues.map Recorded.readBack =
      [.str "]\x7d\"\\\n€", .f64 (.nan false), .i32 (-1)] := by decide
  exact ⟨short, back ▸ taken⟩

end Reader
end Retrace
