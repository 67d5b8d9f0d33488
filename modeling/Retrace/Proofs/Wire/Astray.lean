import Retrace.Proofs.Wire.Steady

/-!
# Reading that runs out of its line

A record that breaks off for want of input, when it stands alone on its line, goes on into the next
line, when there is one. It does not come far. What it can take beyond its line is the comma behind
it, or, within a text that was not closed, all up to the first quote of the next record, which is
the one before the key of its time. Neither is a place from which the rest of a record can be read:
no field begins with a brace, and the key of the time is looked for only at the start of a record.

`Astray` says where such a reader can be, and `Behind` where it can be when it has failed: not yet
past the first key of the next record. `Strands` is about the step that runs out of the line, and
`Drifts` about those that come after it.
-/

namespace Retrace

namespace Reader

variable {α β : Type} {more : Bytes} {r s : Reader}

/-! ## Where reading can have come to -/

/-- What stands between the end of a record and the time of the next one. -/
def crossing : Bytes := Wire.recordStart false ++ Key.eventTime.written

theorem crossing_eq : crossing =
    [44, 10, 123, 34, 101, 118, 101, 110, 116, 84, 105, 109, 101, 34, 58] := by
  decide +kernel

/-- Reading stands somewhere in the crossing, or just behind it. -/
def Behind (more : Bytes) (s : Reader) : Prop := ∃ n, s.rest = crossing.drop n ++ more

/-- Reading has left its line without failing: it stands behind the comma, at the brace of the next
    record, or on either side of its first quote. -/
structure Astray (more : Bytes) (s : Reader) : Prop where
  ending : s.ending = .endOfInput
  place : ∃ n ∈ [1, 2, 3, 4], s.rest = crossing.drop n ++ more

theorem Astray.behind (h : Astray more s) : Behind more s :=
  let ⟨n, _, same⟩ := h.place
  ⟨n, same⟩

/-- The byte before which a stray reader stands: the brace of the next record, its first quote, or
    the first letter of its first key. -/
theorem Astray.visible (h : Astray more s) : ∃ b n,
    s.rest.dropWhile Bytes.isBlank = b :: (crossing.drop n ++ more) ∧
      (b = 123 ∧ n = 3 ∨ b = 34 ∧ n = 4 ∨ b = 101 ∧ n = 5) := by
  obtain ⟨-, n, mem, same⟩ := h
  rw [same, crossing_eq]
  simp only [List.mem_cons, List.not_mem_nil, or_false] at mem
  rcases mem with rfl | rfl | rfl | rfl
  · exact ⟨123, 3, by simp [Bytes.isBlank], by simp⟩
  · exact ⟨123, 3, by simp [Bytes.isBlank], by simp⟩
  · exact ⟨34, 4, by simp [Bytes.isBlank], by simp⟩
  · exact ⟨101, 5, by simp [Bytes.isBlank], by simp⟩

/-- What becomes of a step that leaves its line: it fails there, unless it may go on. -/
def Lost (more : Bytes) (on : Prop) : EStateM.Result LogError Reader α → Prop
  | .ok _ s => on ∧ Astray more s
  | .error _ s => Behind more s

/-- A step of a stray reader fails, unless it may go on. -/
def Drifts (more : Bytes) (on : Prop) (n : ReadM α) : Prop :=
  ∀ s, Astray more s → Lost more on (n s)

/-- The bytes are none, or end in a closing brace. -/
def Braced (bytes : Bytes) : Prop := ∀ b, bytes.getLast? = some b → b = 125

/-- Bytes that end in a brace are not all blank. -/
theorem Braced.visible {bytes : Bytes} (h : Braced bytes) (some_ : bytes ≠ []) :
    ∃ b rest, bytes.dropWhile Bytes.isBlank = b :: rest := by
  refine List.exists_cons_of_ne_nil fun none => ?_
  have last := h _ (List.getLast?_eq_some_getLast some_)
  have blank := List.dropWhile_eq_nil_iff.1 none _ (List.getLast_mem some_)
  rw [last] at blank
  cases blank

theorem Braced.suffix {bytes rest : Bytes} (h : Braced bytes) (suffix : rest <:+ bytes) :
    Braced rest := by
  intro b last
  obtain ⟨before, rfl⟩ := suffix
  apply h b
  rw [List.getLast?_append, last]
  rfl

/-- `r` has a line for itself, and `s` stands on the same line with another record behind it. -/
structure Brink (more : Bytes) (r s : Reader) : Prop where
  beside : Beside (crossing ++ more) r s
  ending : r.ending = .endOfInput
  braced : Braced r.rest

/-- A step that would want more input runs out of its line, and then fails, unless it may go on. -/
def Strands (more : Bytes) (on : Prop) (m n : ReadM α) : Prop :=
  ∀ r s, Brink more r s → Starved (m r) → Lost more on (n s)

/-! ## Composition -/

section

variable {on on' : Prop} {m n : ReadM α} {f g : α → ReadM β}

theorem Lost.imp {x : EStateM.Result LogError Reader α} (h : Lost more on x) (imp : on → on') :
    Lost more on' x := by
  cases x with
  | ok a s => exact h.imp_left imp
  | error e s => exact h

theorem Drifts.imp (h : Drifts more on n) (imp : on → on') : Drifts more on' n :=
  fun s astray => (h s astray).imp imp

theorem Drifts.pure (a : α) : Drifts more True (Pure.pure a : ReadM α) :=
  fun _ astray => ⟨trivial, astray⟩

theorem Drifts.throw (e : LogError) : Drifts more False (throw e : ReadM α) :=
  fun _ astray => astray.behind

theorem Drifts.bind (first : Drifts more on n) (next : on → ∀ a, Drifts more on' (g a)) :
    Drifts more on' (n >>= g) := by
  intro s astray
  have lost := first s astray
  rw [bind_run]
  cases ran : n s with
  | ok a t =>
    rw [ran] at lost
    exact next lost.1 a t lost.2
  | error e t =>
    rw [ran] at lost
    exact lost

theorem Drifts.noting {g : Reader → ReadM α} (h : ∀ start, Drifts more on (g start)) :
    Drifts more on (get >>= g) :=
  fun s astray => h s s astray

theorem Drifts.ite {p : Prop} [Decidable p] {n' : ReadM α} (yes : Drifts more on n)
    (no : Drifts more on n') : Drifts more on (if p then n else n') := by
  split
  · exact yes
  · exact no

theorem Drifts.map (h : α → β) (first : Drifts more on n) : Drifts more on (h <$> n) := by
  rw [map_eq_pure_bind]
  exact first.bind fun may a => (Drifts.pure (h a)).imp fun _ => may

theorem Brink.moved (h : Brink more r s) {r' s' : Reader} (onward : Onward r r')
    (beside : Beside (crossing ++ more) r' s') : Brink more r' s' where
  beside := beside
  ending := by
    rw [onward.same]
    exact h.ending
  braced := h.braced.suffix onward.rest

theorem Strands.imp (h : Strands more on m n) (imp : on → on') : Strands more on' m n :=
  fun r s brink starved => (h r s brink starved).imp imp

/-- A step that never wants more input does not run out of its line. -/
theorem Strands.fed (h : ∀ r, ¬ Starved (m r)) : Strands more on m n :=
  fun r _ _ starved => absurd starved (h r)

theorem Strands.pure (a : α) : Strands more on (Pure.pure a) n :=
  .fed fun _ starved => starved

theorem Strands.fail {e : LogError} (fed : e.wantsMore = false) : Strands more on (throw e) n :=
  .fed fun _ starved => by cases fed.symm.trans starved

/-- **Running out of a line composes**, with what a stray reader does behind the first step. -/
theorem Strands.bind (first : Strands more on m n) (steady : Steady m n)
    (next : ∀ a, Strands more on' (f a) (g a)) (drifts : on → ∀ a, Drifts more on' (g a)) :
    Strands more on' (m >>= f) (n >>= g) := by
  intro r s brink starved
  rw [bind_run] at starved ⊢
  have onward := steady.onward r
  rcases steady.beside _ r s brink.beside with short | alike
  · have lost := first r s brink short
    cases ran : n s with
    | ok a t =>
      rw [ran] at lost
      exact drifts lost.1 a t lost.2
    | error e t =>
      rw [ran] at lost
      exact lost
  · rcases alike.cases with ⟨a, r', b, s', ran, ran', rfl, after⟩ |
      ⟨e, r', e', s', ran, ran', ⟨fed, _⟩, _⟩
    · rw [ran] at starved onward
      rw [ran']
      exact next a r' s' (brink.moved onward after) starved
    · rw [ran] at starved
      cases fed.symm.trans starved

theorem Strands.noting {f g : Reader → ReadM α} (h : ∀ r s, Strands more on (f r) (g s)) :
    Strands more on (get >>= f) (get >>= g) :=
  fun r s => h r s r s

theorem Strands.ite {p : Prop} [Decidable p] {m' n' : ReadM α} (yes : Strands more on m n)
    (no : Strands more on m' n') :
    Strands more on (if p then m else m') (if p then n else n') := by
  split
  · exact yes
  · exact no

theorem Strands.map (h : α → β) (first : Strands more on m n) (steady : Steady m n) :
    Strands more on (h <$> m) (h <$> n) := by
  rw [map_eq_pure_bind, map_eq_pure_bind]
  exact first.bind steady (fun a => .pure (h a)) fun may a => (Drifts.pure (h a)).imp fun _ => may

end

/-! ## Bytes and tokens -/

theorem expect_here {c : Char} {b : UInt8} {rest : Bytes}
    (stands : r.rest.dropWhile Bytes.isBlank = b :: rest) :
    expect c r = if b.toNat ≠ c.toNat
      then .error (.unexpectedByte c b ({ r with rest := b :: rest } : Reader).offset)
        { r with rest }
      else .ok () { r with rest } := by
  have taken : next { r with rest := b :: rest } = .ok b { r with rest } := rfl
  simp only [expect, bind_run, skipBlanks_before stands, get_run, taken]
  split
  · rfl
  · rfl

theorem Brink.blank (h : Brink more r s) (none : r.rest.dropWhile Bytes.isBlank = []) :
    s.rest.dropWhile Bytes.isBlank = 44 :: (crossing.drop 1 ++ more) := by
  rw [h.beside.rest, List.dropWhile_append, none]
  simp [crossing_eq, Bytes.isBlank]

theorem expect_strands (c : Char) : Strands more (c = ',') (expect c) (expect c) := by
  intro r s brink starved
  cases stands : r.rest.dropWhile Bytes.isBlank with
  | cons b rest =>
    rw [expect_here stands] at starved
    split at starved
    · cases starved
    · exact starved.elim
  | nil =>
    rw [expect_here (brink.blank stands)]
    split
    · exact ⟨1, rfl⟩
    · rename_i same
      have isComma : c.toNat = (',').toNat := (not_not.1 same).symm
      exact ⟨Char.toNat_inj.1 isComma, brink.beside.ending, 1, by simp, rfl⟩

theorem expect_drifts {c : Char} (other : c ≠ 'e') :
    Drifts more (c = '{' ∨ c = '"') (expect c) := by
  intro s astray
  obtain ⟨b, n, stands, which⟩ := astray.visible
  rw [expect_here stands]
  split
  · exact ⟨n, rfl⟩
  · rename_i same
    have same : c.toNat = b.toNat := (not_not.1 same).symm
    rcases which with ⟨rfl, rfl⟩ | ⟨rfl, rfl⟩ | ⟨rfl, rfl⟩
    · have isBrace : c.toNat = ('{').toNat := same
      exact ⟨Or.inl (Char.toNat_inj.1 isBrace), astray.ending, 3, by simp, rfl⟩
    · have isQuote : c.toNat = ('"').toNat := same
      exact ⟨Or.inr (Char.toNat_inj.1 isQuote), astray.ending, 4, by simp, rfl⟩
    · have isLetter : c.toNat = ('e').toNat := same
      exact absurd (Char.toNat_inj.1 isLetter) other

theorem mark_strands {c : Char} (other : c ≠ ',') : Strands more False (expect c) (expect c) :=
  (expect_strands c).imp other

theorem mark_drifts {c : Char} (letter : c ≠ 'e') (brace : c ≠ '{') (quote : c ≠ '"') :
    Drifts more False (expect c) :=
  (expect_drifts letter).imp (Or.elim · brace quote)

theorem Astray.blanks (h : Astray more s) :
    Astray more { s with rest := s.rest.dropWhile Bytes.isBlank } := by
  obtain ⟨ending, n, mem, same⟩ := h
  refine ⟨ending, ?_⟩
  rw [same, crossing_eq]
  simp only [List.mem_cons, List.not_mem_nil, or_false] at mem
  rcases mem with rfl | rfl | rfl | rfl
  · exact ⟨2, by simp, by simp [Bytes.isBlank]⟩
  · exact ⟨2, by simp, by simp [Bytes.isBlank]⟩
  · exact ⟨3, by simp, by simp [Bytes.isBlank]⟩
  · exact ⟨4, by simp, by simp [Bytes.isBlank]⟩

theorem skipBlanks_ended (ending : r.ending = .endOfInput) :
    skipBlanks r = .ok () { r with rest := r.rest.dropWhile Bytes.isBlank } :=
  checkEnding_run (r := { r with rest := r.rest.dropWhile Bytes.isBlank }) ending

theorem Brink.blanks (h : Brink more r s) : Brink more
    { r with rest := r.rest.dropWhile Bytes.isBlank }
    { s with rest := s.rest.dropWhile Bytes.isBlank } := by
  refine h.moved (.of_suffix (List.dropWhile_suffix _)) ?_
  have moved := h.beside.moved (List.dropWhile_suffix Bytes.isBlank)
  have same : s.rest.dropWhile Bytes.isBlank =
      r.rest.dropWhile Bytes.isBlank ++ (crossing ++ more) := by
    cases stands : r.rest.dropWhile Bytes.isBlank with
    | nil =>
      rw [h.blank stands, crossing_eq]
      rfl
    | cons b rest => exact h.beside.stands stands
  rw [same]
  exact moved

section

variable {on : Prop} {f g : Unit → ReadM α}

theorem Strands.blanks (h : Strands more on (f ()) (g ())) :
    Strands more on (skipBlanks >>= f) (skipBlanks >>= g) := by
  intro r s brink starved
  rw [bind_run, skipBlanks_ended brink.ending] at starved
  rw [bind_run, skipBlanks_ended brink.beside.ending]
  exact h _ _ brink.blanks starved

theorem Drifts.blanks (h : Drifts more on (g ())) : Drifts more on (skipBlanks >>= g) := by
  intro s astray
  rw [bind_run, skipBlanks_ended astray.ending]
  exact h _ astray.blanks

end

theorem tokenHere_strands : Strands more False tokenHere tokenHere := by
  intro r s brink starved
  cases left : r.rest with
  | nil =>
    have stands : s.rest = 44 :: (crossing.drop 1 ++ more) := by
      rw [brink.beside.rest, left, crossing_eq]
      rfl
    rw [tokenHere_other stands (by decide)]
    exact ⟨0, by rw [brink.beside.rest, left]; rfl⟩
  | cons b rest =>
    exfalso
    cases isToken : Bytes.isToken b with
    | true =>
      rw [tokenHere_token left isToken (checkEnding_run brink.ending)] at starved
      exact starved
    | false =>
      rw [tokenHere_other left isToken] at starved
      cases starved

theorem token_strands : Strands more False token token := .blanks tokenHere_strands

theorem scalar_strands (s : Scalar α) : Strands more False (scalar s) (scalar s) := by
  refine .noting fun _ _ => token_strands.bind token_steady (fun text => ?_) nofun
  cases s.ofChars? text with
  | some a => exact .pure a
  | none => exact .fail rfl

theorem null_strands (start start' : Reader) :
    Strands more False (null start) (null start') :=
  token_strands.bind token_steady (fun _ => .ite (.fail rfl) (.pure ())) nofun

/-- The first key of a record, without its quotes. -/
theorem crossing_key : crossing.drop 4 = Bytes.ascii Key.eventTime.text.toList ++ [34, 58] := by
  decide +kernel

/-- Where a stray reader looks for a token, it finds none or the first key. -/
theorem token_astray (astray : Astray more s) :
    (∃ e s', token s = .error e s' ∧ Behind more s') ∨
      token s = .ok Key.eventTime.text.toList { s with rest := 34 :: 58 :: more } := by
  obtain ⟨b, n, stands, which⟩ := astray.visible
  have here : token s = tokenHere { s with rest := b :: (crossing.drop n ++ more) } := by
    rw [show token s = (skipBlanks >>= fun _ => tokenHere) s from rfl, bind_run,
      skipBlanks_before stands]
  rcases which with ⟨rfl, rfl⟩ | ⟨rfl, rfl⟩ | ⟨rfl, rfl⟩
  · rw [here, tokenHere_other rfl (by decide)]
    exact Or.inl ⟨_, _, rfl, 2, by rw [crossing_eq]; rfl⟩
  · rw [here, tokenHere_other rfl (by decide)]
    exact Or.inl ⟨_, _, rfl, 3, by rw [crossing_eq]; rfl⟩
  · have letters : ∀ c ∈ Key.eventTime.text.toList, Scalar.IsTokenChar c :=
      Scalar.isTokenChar_of_all rfl
    have taken := Scalar.token_takes (by decide +kernel) letters s (34 :: 58 :: more) astray.ending
      (.cons (by decide))
    have split : Bytes.ascii Key.eventTime.text.toList ++ 34 :: 58 :: more =
        101 :: (crossing.drop 5 ++ more) := by
      have key : Bytes.ascii Key.eventTime.text.toList ++ 34 :: 58 :: more =
          (Bytes.ascii Key.eventTime.text.toList ++ [34, 58]) ++ more := by simp
      rw [key, ← crossing_key, crossing_eq]
      rfl
    have visible : (101 :: (crossing.drop 5 ++ more)).dropWhile Bytes.isBlank =
        101 :: (crossing.drop 5 ++ more) := rfl
    rw [split, show token _ = (skipBlanks >>= fun _ => tokenHere) _ from rfl, bind_run,
      skipBlanks_before visible] at taken
    exact Or.inr (here.trans taken)

/-- The first key is no scalar. -/
theorem scalar_drifts (s : Scalar α) : Drifts more False (scalar s) := by
  refine .noting fun start => ?_
  intro t astray
  rcases token_astray astray with ⟨e, t', ran, behind⟩ | ran
  · rw [bind_run, ran]
    exact behind
  · have none : s.ofChars? Key.eventTime.text.toList = none := by cases s <;> rfl
    rw [bind_run, ran]
    simp only [none]
    exact ⟨13, by rw [crossing_eq]; rfl⟩

/-! ## Texts -/

/-- How a text ends that was not closed on its line: at the first quote of the next one, or at a bad
    escape before it. -/
def Crossed (tail : Bytes) : Quoted.Scan → Prop
  | .closed _ rest => rest = tail.drop 4
  | .malformed rest => ∃ n ≤ 3, rest = tail.drop n
  | .unfinished => False

theorem scan_badUnicode {done tail : Bytes} {h₁ h₂ h₃ h₄ : UInt8} (mem : 125 ∈ [h₁, h₂, h₃, h₄]) :
    Quoted.scan done (92 :: 117 :: h₁ :: h₂ :: h₃ :: h₄ :: tail) = .malformed tail := by
  have noDigit : Quoted.digitValue? 125 = none := rfl
  have none : Quoted.unicode? h₁ h₂ h₃ h₄ = none := by
    simp only [List.mem_cons, List.not_mem_nil, or_false] at mem
    rcases mem with rfl | rfl | rfl | rfl <;> simp [Quoted.unicode?, Quoted.hexValue?, noDigit]
  rw [Quoted.scan.eq_def]
  simp [none]

theorem scan_crossing {tail rest : Bytes} (stands : tail = 44 :: 10 :: 123 :: 34 :: rest)
    (done bytes : Bytes) (braced : Braced bytes) :
    Quoted.scan done bytes = .unfinished → Crossed tail (Quoted.scan done (bytes ++ tail)) := by
  -- on the scan of the line, which must end unfinished: behind it come a comma, a newline and
  -- the brace of the next record, and the quote of its first key ends the text
  fun_induction Quoted.scan done bytes with
  | case1 done =>
    intro _
    have plain : Quoted.Plain [44, 10, 123] := by
      intro b mem
      simp only [List.mem_cons, List.not_mem_nil, or_false] at mem
      rcases mem with rfl | rfl | rfl <;> decide
    have split : [] ++ tail = [44, 10, 123] ++ 34 :: rest := by rw [stands]; rfl
    rw [split, Quoted.scan_plain plain, Quoted.scan.eq_def]
    simp [Crossed, stands]
  | case2 | case5 | case8 =>
    intro unfinished
    cases unfinished
  -- a line that ends in its brace does not end in a backslash
  | case3 done => exact absurd (braced 92 rfl) (by decide)
  | case4 done h₁ h₂ h₃ h₄ left c same _ ih =>
    intro unfinished
    have lost := ih (braced.suffix ⟨[92, 117, h₁, h₂, h₃, h₄], rfl⟩) unfinished
    exact (Quoted.scan_unicode same).symm ▸ lost
  | case6 done left short =>
    intro _
    rw [stands]
    -- fewer than four bytes are left on the line, and the last of them is the brace
    rcases left with _ | ⟨a, _ | ⟨b, _ | ⟨c, _ | ⟨d, more⟩⟩⟩⟩
    · exact absurd (braced 117 rfl) (by decide)
    · obtain rfl := braced a rfl
      show Crossed _ (Quoted.scan done (92 :: 117 :: 125 :: 44 :: 10 :: 123 :: 34 :: rest))
      rw [scan_badUnicode (by simp)]
      exact ⟨3, by decide, rfl⟩
    · obtain rfl := braced b rfl
      show Crossed _ (Quoted.scan done (92 :: 117 :: a :: 125 :: 44 :: 10 :: 123 :: 34 :: rest))
      rw [scan_badUnicode (by simp)]
      exact ⟨2, by decide, rfl⟩
    · obtain rfl := braced c rfl
      show Crossed _ (Quoted.scan done (92 :: 117 :: a :: b :: 125 :: 44 :: 10 :: 123 :: 34 :: rest))
      rw [scan_badUnicode (by simp)]
      exact ⟨1, by decide, rfl⟩
    · exact (short a b c d more rfl).elim
  | case7 done e left other b same _ ih =>
    intro unfinished
    have lost := ih (braced.suffix ⟨[92, e], rfl⟩) unfinished
    exact (Quoted.scan_letter other same).symm ▸ lost
  | case9 done b left quote escape ih =>
    intro unfinished
    have lost := ih (braced.suffix (List.suffix_cons b left)) unfinished
    have plain : Quoted.Plain [b] := fun c mem => List.mem_singleton.1 mem ▸ ⟨quote, escape⟩
    exact (Quoted.scan_plain plain).symm ▸ lost

theorem quotedHere_strands : Strands more True quotedHere quotedHere := by
  intro r s brink starved
  have stands : crossing ++ more = 44 :: 10 :: 123 :: 34 :: (crossing.drop 4 ++ more) := by
    rw [crossing_eq]
    rfl
  simp only [quotedHere, bind_run get, get_run] at starved ⊢
  cases scanned : Quoted.scan [] r.rest with
  | closed content rest =>
    simp only [scanned, bind_run, set_run] at starved
    cases valid : Bytes.ofUtf8? content <;> rw [valid] at starved
    · cases starved
    · exact starved.elim
  | malformed rest =>
    rw [scanned] at starved
    cases starved
  -- the text goes on over the end of the line, up to the first quote of the next record
  | unfinished =>
    have crossed := scan_crossing stands [] r.rest brink.braced scanned
    rw [← brink.beside.rest] at crossed
    cases further : Quoted.scan [] s.rest with
    | closed content rest =>
      rw [further] at crossed
      obtain rfl : rest = (crossing ++ more).drop 4 := crossed
      simp only [bind_run, set_run]
      cases Bytes.ofUtf8? content with
      | some text => exact ⟨trivial, brink.beside.ending, 4, by simp, by rw [crossing_eq]; rfl⟩
      | none => exact ⟨4, by rw [crossing_eq]; rfl⟩
    | malformed rest =>
      rw [further] at crossed
      obtain ⟨n, few, rfl⟩ := crossed
      refine ⟨n, List.drop_append_of_le_length ?_⟩
      rw [crossing_eq]
      exact few.trans (by decide)
    | unfinished =>
      rw [further] at crossed
      exact crossed.elim

theorem quoted_strands : Strands more True quoted quoted :=
  (mark_strands (by decide)).bind (expect_steady '"') (fun _ => quotedHere_strands) nofun

/-- Where a stray reader looks for a text, it finds none or the first key. -/
theorem quoted_astray (astray : Astray more s) :
    (∃ e s', quoted s = .error e s' ∧ Behind more s') ∨
      quoted s = .ok Key.eventTime.text { s with rest := 58 :: more } := by
  obtain ⟨b, n, stands, which⟩ := astray.visible
  have opening : quoted s = (expect '"' >>= fun _ => quotedHere) s := rfl
  rw [opening, bind_run, expect_here stands]
  rcases which with ⟨rfl, rfl⟩ | ⟨rfl, rfl⟩ | ⟨rfl, rfl⟩
  · exact Or.inl ⟨_, _, rfl, 3, rfl⟩
  · right
    have taken := quoted_takes Key.eventTime.text s (58 :: more) astray.ending trivial
    have split : Quoted.written Key.eventTime.text ++ 58 :: more =
        34 :: (crossing.drop 4 ++ more) := by
      have key : Quoted.written Key.eventTime.text ++ [58] = 34 :: crossing.drop 4 := by
        decide +kernel
      rw [← List.cons_append, ← key]
      simp
    have visible : (34 :: (crossing.drop 4 ++ more)).dropWhile Bytes.isBlank =
        34 :: (crossing.drop 4 ++ more) := rfl
    rw [split, show quoted _ = (expect '"' >>= fun _ => quotedHere) _ from rfl, bind_run,
      expect_here visible] at taken
    exact taken
  · exact Or.inl ⟨_, _, rfl, 5, rfl⟩

/-! ## Keys and values -/

theorem key_strands (k : Key) : Strands more False (key k) (key k) := by
  refine .blanks (.noting fun _ _ => quoted_strands.bind quoted_steady (fun found => ?_)
    fun _ found => ?_)
  · exact .ite (.fed fun r starved => by cases starved) (mark_strands (by decide))
  · exact .ite ((Drifts.throw _).bind nofun) (mark_drifts (by decide) (by decide) (by decide))

theorem key_drifts {k : Key} (other : k ≠ .eventTime) : Drifts more False (key k) := by
  refine .blanks (.noting fun start => ?_)
  intro s astray
  rcases quoted_astray astray with ⟨e, s', ran, behind⟩ | ran
  · rw [bind_run, ran]
    exact behind
  · have mismatch : Key.eventTime.text ≠ k.text := fun same => other (Key.text_injective same).symm
    rw [bind_run, ran]
    dsimp only
    rw [if_pos mismatch]
    exact ⟨14, by rw [crossing_eq]; rfl⟩

theorem keyed_strands (k : Key) (s : Scalar α) : Strands more False (keyed k s) (keyed k s) :=
  (key_strands k).bind (key_steady k) (fun _ => scalar_strands s) nofun

theorem keyed_drifts {k : Key} (other : k ≠ .eventTime) (s : Scalar α) :
    Drifts more False (keyed k s) :=
  (key_drifts other).bind nofun

theorem keyedText_strands (k : Key) : Strands more True (keyedText k) (keyedText k) :=
  (key_strands k).bind (key_steady k) (fun _ => quoted_strands) nofun

theorem sequenceStart_strands (k : Key) :
    Strands more False (sequenceStart k) (sequenceStart k) :=
  (key_strands k).bind (key_steady k) (fun _ => mark_strands (by decide)) nofun

theorem nullOrObjectHere_strands : Strands more False nullOrObjectHere nullOrObjectHere := by
  intro r s brink starved
  cases left : r.rest with
  | nil =>
    have stands : s.rest = 44 :: (crossing.drop 1 ++ more) := by
      rw [brink.beside.rest, left, crossing_eq]
      rfl
    rw [nullOrObjectHere_run stands]
    exact ⟨0, by rw [brink.beside.rest, left]; rfl⟩
  | cons b rest =>
    have stands : s.rest = b :: (rest ++ (crossing ++ more)) := by
      rw [brink.beside.rest, left]
      rfl
    rw [nullOrObjectHere_run left] at starved
    rw [nullOrObjectHere_run stands]
    split at starved
    · rename_i isNull
      rw [if_pos isNull]
      exact (null_strands r s).bind (null_steady r s) (fun _ => .pure true) nofun r s brink starved
    · split at starved
      · exact starved.elim
      · cases starved

theorem nullOrObject_strands : Strands more False nullOrObject nullOrObject :=
  .blanks nullOrObjectHere_strands

section

variable {element : ReadM α}

theorem elements_drifts (each : Drifts more True element) (count : Nat) :
    ∀ done, Drifts more True (elements element done count) := by
  induction count with
  | zero => exact fun done => .pure done.reverse
  | succ count ih =>
    intro done
    have here : Drifts more True (element >>= fun a => elements element (a :: done) count) :=
      each.bind fun _ a => ih (a :: done)
    unfold elements
    exact .ite ((expect_drifts (by decide)).bind fun _ _ => here) here

theorem elements_strands (each : Strands more True element element) (steady : Steady element element)
    (drifts : Drifts more True element) (count : Nat) :
    ∀ done, Strands more True (elements element done count) (elements element done count) := by
  induction count with
  | zero => exact fun done => .pure done.reverse
  | succ count ih =>
    intro done
    have here : Strands more True (element >>= fun a => elements element (a :: done) count)
        (element >>= fun a => elements element (a :: done) count) :=
      each.bind steady (fun a => ih (a :: done)) fun _ a => elements_drifts drifts count (a :: done)
    unfold elements
    exact .ite ((expect_strands ',').bind (expect_steady ',') (fun _ => here) fun _ _ =>
      drifts.bind fun _ a => elements_drifts drifts count (a :: done)) here

theorem sequence_drifts (k : Key) : Drifts more False (sequence k element) :=
  (keyed_drifts (by decide) .u32).bind nofun

theorem sequence_strands {k : Key} (other : k ≠ .eventTime)
    (each : Strands more True element element) (steady : Steady element element)
    (drifts : Drifts more True element) :
    Strands more False (sequence k element) (sequence k element) := by
  have bracket : Drifts more False (expect ']') :=
    mark_drifts (by decide) (by decide) (by decide)
  have start : Drifts more False (sequenceStart k) := (key_drifts other).bind nofun
  refine (keyed_strands .length .u32).bind length_steady (fun count => ?_) nofun
  refine (expect_strands ',').bind (expect_steady ',') (fun _ => ?_) fun _ _ => start.bind nofun
  refine (sequenceStart_strands k).bind (sequenceStart_steady k) (fun _ => ?_) nofun
  refine (elements_strands each steady drifts count.toNat []).bind
    (elements_steady steady count.toNat []) (fun list => ?_) fun _ list => bracket.bind nofun
  exact (mark_strands (by decide)).bind (expect_steady ']') (fun _ => .pure list) nofun

end

theorem bytes_strands : Strands more False bytes bytes :=
  sequence_strands (by decide) ((scalar_strands .u8).imp False.elim) (scalar_steady .u8)
    ((scalar_drifts .u8).imp False.elim)

theorem valueCase_strands (start start' : Reader) (case : String) :
    Strands more True (valueCase start case) (valueCase start' case) := by
  have scalar {β : Type} (s : Scalar β) (h : β → Recorded) :
      Strands more True (h <$> Reader.scalar s) (h <$> Reader.scalar s) :=
    .map _ ((scalar_strands s).imp False.elim) (scalar_steady s)
  exact .ite ((null_strands start start').bind (null_steady start start') (fun _ => .pure _) nofun) <|
    .ite (scalar _ _) <| .ite (scalar _ _) <| .ite (scalar _ _) <| .ite (scalar _ _) <|
    .ite (scalar _ _) <| .ite (scalar _ _) <| .ite (.map _ quoted_strands quoted_steady) <|
    .ite (scalar _ _) (.fail rfl)

theorem value_strands : Strands more False value value := by
  have brace : Drifts more False (expect '}') := mark_drifts (by decide) (by decide) (by decide)
  have colon : Drifts more False (expect ':') := mark_drifts (by decide) (by decide) (by decide)
  refine (mark_strands (by decide)).bind (expect_steady '{') (fun _ => ?_) nofun
  refine .blanks (.noting fun start start' => ?_)
  refine quoted_strands.bind quoted_steady (fun case => ?_) fun _ _ => colon.bind nofun
  refine (mark_strands (by decide)).bind (expect_steady ':') (fun _ => ?_) nofun
  refine (valueCase_strands start start' case).bind (valueCase_steady start start' case)
    (fun v => ?_) fun _ _ => brace.bind nofun
  exact (mark_strands (by decide)).bind (expect_steady '}') (fun _ => .pure v) nofun

/-- The record that comes next is no value: its first key names no case of one. -/
theorem value_drifts : Drifts more False value := by
  refine (expect_drifts (by decide)).bind fun _ _ => .blanks (.noting fun start => ?_)
  intro s astray
  rcases quoted_astray astray with ⟨e, s', ran, behind⟩ | ran
  · rw [bind_run, ran]
    exact behind
  · have visible : (58 :: more).dropWhile Bytes.isBlank = 58 :: more := rfl
    have colon : expect ':' { s with rest := 58 :: more } = .ok () { s with rest := more } := by
      rw [expect_here (r := { s with rest := 58 :: more }) visible, if_neg (by decide)]
    have unknown : valueCase start Key.eventTime.text =
        throw (.unknownValueCase Key.eventTime.text start.offset) := by
      simp [valueCase, Key.text]
    simp only [bind_run, ran, colon, unknown]
    exact ⟨15, by rw [crossing_eq]; rfl⟩

theorem keyedValue_strands (k : Key) : Strands more False (keyedValue k) (keyedValue k) :=
  (key_strands k).bind (key_steady k) (fun _ => value_strands) nofun

theorem values_strands : Strands more False values values :=
  sequence_strands (by decide) (value_strands.imp False.elim) value_steady
    (value_drifts.imp False.elim)

theorem recordHeader_strands : Strands more False recordHeader recordHeader := by
  refine (keyed_strands .eventTime .i64).bind (keyed_steady .eventTime .i64) (fun time => ?_) nofun
  refine (expect_strands ',').bind (expect_steady ',') (fun _ => ?_)
    fun _ _ => (keyed_drifts (by decide) .u64).bind nofun
  refine (keyed_strands .ctxTag .u64).bind (keyed_steady .ctxTag .u64) (fun context => ?_) nofun
  refine .noting fun _ _ => (expect_strands ',').bind (expect_steady ',') (fun _ => ?_)
    fun _ _ => (keyed_drifts (by decide) .u32).bind nofun
  refine (keyed_strands .actionKind .u32).bind (keyed_steady .actionKind .u32) (fun number => ?_)
    nofun
  cases Kind.ofNumber? number with
  | some kind => exact .pure _
  | none => exact .fail rfl

end Reader

/-! ## Records -/

open Reader

variable {α : Type} {more : Bytes}

/-- Every field has a comma before it, and so no record begins where one could stand. -/
theorem Field.drifts (f : Field α) : Drifts more False f.read := by
  have comma : Drifts more False (expect ',') := mark_drifts (by decide) (by decide) (by decide)
  cases f with
  | arrayType => exact .noting fun _ => comma.bind nofun
  | _ => exact comma.bind nofun

theorem Layout.drifts (layout : Layout α) : Drifts more True layout.read := by
  cases layout with
  | done => exact .pure ()
  | field f rest => exact f.drifts.bind nofun

/-- The field does not have the key that a record begins with. -/
def Field.Later : Field α → Prop
  | scalar k _ | text k | value k => k ≠ .eventTime
  | _ => True

def Layout.Later {α : Type} : Layout α → Prop
  | done => True
  | field f rest => f.Later ∧ rest.Later

theorem Kind.later (k : Kind) : k.layout.Later := by
  cases k <;> simp [Kind.layout, Kind.form, Layout.Later, Field.Later]

theorem Field.strands {f : Field α} (later : f.Later) : Strands more True f.read f.read := by
  have comma {n m : ReadM α} (field : Strands more True n m) (drifts : Drifts more False m) :
      Strands more True (expect ',' >>= fun _ => n) (expect ',' >>= fun _ => m) :=
    (expect_strands ',').bind (expect_steady ',') (fun _ => field)
      fun _ _ => drifts.imp False.elim
  cases f with
  | scalar k s => exact comma ((keyed_strands k s).imp False.elim) (keyed_drifts later s)
  | text k => exact comma (keyedText_strands k) ((key_drifts later).bind nofun)
  | value k => exact comma ((keyedValue_strands k).imp False.elim) ((key_drifts later).bind nofun)
  | arrayType =>
    refine .noting fun _ _ => comma ?_ ((keyed_drifts (by decide) .u32).bind nofun)
    exact (keyed_strands .typeId .u32).bind (keyed_steady .typeId .u32)
      (fun _ => .ite (.fail rfl) (.pure ())) nofun
  | optionalValue =>
    refine comma ?_ ((keyed_drifts (by decide) .bool).bind nofun)
    refine (keyed_strands .boolVal .bool).bind (keyed_steady .boolVal .bool) (fun _ => ?_) nofun
    exact .ite (comma (.map _ ((keyedValue_strands .entry).imp False.elim) (keyedValue_steady .entry))
      (.map _ ((key_drifts (by decide)).bind nofun))) (.pure none)
  | bytes => exact comma (bytes_strands.imp False.elim) (sequence_drifts .bytes)
  | values => exact comma (values_strands.imp False.elim) (sequence_drifts .values)
  | diagnostics =>
    have brace : Drifts more False (expect '}') := mark_drifts (by decide) (by decide) (by decide)
    refine comma ?_ ((key_drifts (by decide)).bind nofun)
    refine (key_strands .diag).bind (key_steady .diag) (fun _ => ?_) nofun
    refine nullOrObject_strands.bind nullOrObject_steady (fun _ => .ite (.pure none) ?_) nofun
    refine (keyedText_strands .name).bind (keyedText_steady .name) (fun s => ?_)
      fun _ _ => brace.bind nofun
    exact (mark_strands (by decide)).bind (expect_steady '}') (fun _ => .pure (some s)) nofun

theorem Layout.strands {layout : Layout α} (later : layout.Later) :
    Strands more True layout.read layout.read := by
  induction layout with
  | done => exact .pure ()
  | field f rest ih =>
    refine (Field.strands later.1).bind f.steady (fun a => ?_) fun _ a =>
      rest.drifts.bind fun _ b => .pure (a, b)
    exact (ih later.2).bind rest.steady (fun b => .pure (a, b)) fun _ b => .pure (a, b)

end Retrace
