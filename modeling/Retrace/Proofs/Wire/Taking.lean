import Retrace.Proofs.Runs
import Retrace.Wire.Reader

/-!
# Reading back what was written

`Takes follow m bytes a` says that the step `m` takes just `bytes` from the front of an input and
answers `a`, whatever comes behind them, as long as it is something that may follow. All that is
read back is read back in this sense, from single bytes up to records, and `Takes.bind` composes it:
what may follow the first piece has to be there at the front of the second.

Only unquoted scalars care for what follows. They end at the first byte that cannot belong to one,
so there has to be such a byte, or none at all (`Stops`).
-/

namespace Retrace
namespace Reader

variable {α β : Type} {follow further : Bytes → Prop} {bytes more rest : Bytes} {b : UInt8}

/-- Nothing is asked of what follows. -/
def Anything : Bytes → Prop := fun _ => True

/-- No unquoted token goes on. -/
def Stops (rest : Bytes) : Prop := ∀ b, rest.head? = some b → Bytes.isToken b = false

theorem Stops.cons (other : Bytes.isToken b = false) : Stops (b :: rest) := by
  intro c isHead
  rw [← Option.some.inj isHead]
  exact other

/-- The step takes the bytes and answers `a`, before everything that may follow. -/
def Takes (follow : Bytes → Prop) (m : ReadM α) (bytes : Bytes) (a : α) : Prop :=
  ∀ (r : Reader) (rest : Bytes), r.ending = .endOfInput → follow rest →
    m { r with rest := bytes ++ rest } = .ok a { r with rest }

section Composition

variable {m : ReadM α} {f : α → ReadM β} {a : α} {c : β}

theorem Takes.congr (h : Takes follow m bytes a) (same : more = bytes) : Takes follow m more a :=
  same ▸ h

theorem Takes.before (h : Takes Anything m bytes a) : Takes follow m bytes a :=
  fun r rest ending _ => h r rest ending trivial

theorem Takes.pure (a : α) : Takes follow (pure a) [] a := fun _ _ _ _ => rfl

theorem Takes.bind (first : Takes follow m bytes a) (next : Takes further (f a) more c)
    (fits : ∀ rest, further rest → follow (more ++ rest)) :
    Takes further (m >>= f) (bytes ++ more) c := by
  intro r rest ending follows
  rw [List.append_assoc, bind_run, first r _ ending (fits rest follows)]
  exact next r rest ending follows

/-- A piece that may stand before anything, and another one behind it. -/
theorem Takes.seq (first : Takes Anything m bytes a) (next : Takes further (f a) more c) :
    Takes further (m >>= f) (bytes ++ more) c :=
  first.bind next fun _ _ => trivial

/-- One byte, and a piece behind it. -/
theorem Takes.byte (first : Takes Anything m [b] a) (next : Takes further (f a) more c) :
    Takes further (m >>= f) (b :: more) c :=
  first.seq next

/-- A piece that may end in a scalar, and another one behind it, which does not begin like one. -/
theorem Takes.bindStop (first : Takes Stops m bytes a) (next : Takes further (f a) (b :: more) c)
    (other : Bytes.isToken b = false) : Takes further (m >>= f) (bytes ++ b :: more) c :=
  first.bind next fun _ _ => .cons other

/-- A piece behind which nothing more is taken. -/
theorem Takes.last (first : Takes follow m bytes a) (next : Takes follow (f a) [] c) :
    Takes follow (m >>= f) bytes c :=
  (first.bind next fun _ follows => follows).congr (List.append_nil _).symm

theorem Takes.map (g : α → β) (h : Takes follow m bytes a) : Takes follow (g <$> m) bytes (g a) := by
  intro r rest ending follows
  rw [map_run, h r rest ending follows]

end Composition

/-! ## Bytes -/

theorem checkEnding_run {r : Reader} (ending : r.ending = .endOfInput) :
    checkEnding r = .ok () r := by
  unfold checkEnding
  rw [ending]
  cases r.rest <;> rfl

theorem skipBlanks_run {r : Reader} (ending : r.ending = .endOfInput)
    (visible : Bytes.isBlank b = false) :
    skipBlanks { r with rest := b :: rest } = .ok () { r with rest := b :: rest } := by
  simp only [skipBlanks, bind_run, modify_run, List.dropWhile_cons, visible]
  exact checkEnding_run ending

theorem next_run {r : Reader} (ending : r.ending = .endOfInput) :
    next { r with rest := b :: rest } = .ok b { r with rest } := by
  have here : checkEnding { r with rest := b :: rest } = .ok () { r with rest := b :: rest } :=
    checkEnding_run ending
  simp only [next, bind_run, here, get_run]
  rfl

theorem expect_takes {c : Char} (same : b.toNat = c.toNat) (visible : Bytes.isBlank b = false) :
    Takes Anything (expect c) [b] () := by
  intro r rest ending _
  show expect c { r with rest := b :: rest } = _
  simp only [expect, bind_run, skipBlanks_run ending visible, get_run, next_run ending]
  simp [same]

/-- The steps that note where they are, for the offset of an error. -/
theorem Takes.noting {f : Reader → ReadM α} {a : α} (h : ∀ start, Takes follow (f start) bytes a) :
    Takes follow (get >>= f) bytes a :=
  fun r rest ending follows => h _ r rest ending follows

theorem Takes.skipping {f : Unit → ReadM α} {a : α} (h : Takes follow (f ()) (b :: bytes) a)
    (visible : Bytes.isBlank b = false) : Takes follow (skipBlanks >>= f) (b :: bytes) a := by
  intro r rest ending follows
  have standing : skipBlanks { r with rest := b :: bytes ++ rest } =
      .ok () { r with rest := b :: bytes ++ rest } := skipBlanks_run ending visible
  rw [bind_run, standing]
  exact h r rest ending follows

/-! ## Tokens -/

theorem takeWhile_of_stops (all : ∀ b ∈ bytes, Bytes.isToken b = true) (stops : Stops rest) :
    (bytes ++ rest).takeWhile Bytes.isToken = bytes ∧
      (bytes ++ rest).dropWhile Bytes.isToken = rest := by
  induction bytes with
  | nil =>
    cases rest with
    | nil => exact ⟨rfl, rfl⟩
    | cons b rest => simp [stops b rfl]
  | cons b bytes ih =>
    obtain ⟨taken, dropped⟩ := ih fun c mem => all c (List.mem_cons_of_mem _ mem)
    have isToken := all b List.mem_cons_self
    simp only [List.cons_append, List.takeWhile_cons, List.dropWhile_cons, isToken, if_true]
    exact ⟨by rw [taken], dropped⟩

theorem isBlank_of_isToken (h : Bytes.isToken b = true) : Bytes.isBlank b = false := by
  cases blank : Bytes.isBlank b with
  | false => rfl
  | true =>
    simp only [Bytes.isBlank, Bool.or_eq_true, decide_eq_true_eq] at blank
    rcases blank with (((rfl | rfl) | rfl) | rfl) | rfl <;> exact absurd h (by decide)

theorem token_takes (some_ : bytes ≠ []) (all : ∀ b ∈ bytes, Bytes.isToken b = true) :
    Takes Stops token bytes (Bytes.latin bytes) := by
  intro r rest ending stops
  obtain ⟨b, more, rfl⟩ := List.exists_cons_of_ne_nil some_
  have visible := isBlank_of_isToken (all b List.mem_cons_self)
  obtain ⟨taken, dropped⟩ := takeWhile_of_stops all stops
  have left : checkEnding { r with rest } = .ok () { r with rest } := checkEnding_run ending
  rw [List.cons_append] at taken dropped ⊢
  simp only [token, bind_run, skipBlanks_run ending visible, get_run, taken, dropped, set_run, left]
  simp

end Reader
end Retrace
