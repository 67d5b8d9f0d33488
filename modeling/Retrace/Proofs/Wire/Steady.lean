import Mathlib.Data.List.TakeWhile
import Retrace.Proofs.Wire.Acceptance
import Retrace.Wire.Record

/-!
# Reading only moves on

Whatever is read within a record, and whatever comes of it, two things hold, and `Steady` is both of
them. Reading moves on in its input and does nothing else to the reader (`Onward`). And it does not
look beyond what it takes: with more input behind it, it does the same, unless it broke off for want
of input (`Beside`).

The second needs a condition. A number goes on as long as there are bytes for it, so what stands at
the end of the shorter input has to be a byte that belongs to no number (`Closes`). The brace that
closes a record is such a byte.

A step notes where it is for the offset of its error, and this depends on what came before. So a
`Steady` step is a pair of steps, which may differ in what they have noted.
-/

namespace Retrace

/-- Whether reading broke off for want of input. -/
def LogError.wantsMore : LogError → Bool
  | .unexpectedEnd _ | .transport _ => true
  | _ => false

namespace Reader

variable {α β : Type} {more : Bytes} {r s : Reader}

/-! ## Moving on -/

/-- The reader that a step leaves, whether it fails or not. -/
def final : EStateM.Result LogError Reader α → Reader
  | .ok _ s | .error _ s => s

/-- `s` is `r` further on in the input. -/
structure Onward (r s : Reader) : Prop where
  rest : s.rest <:+ r.rest
  same : s = { r with rest := s.rest }

theorem Onward.refl (r : Reader) : Onward r r := ⟨List.suffix_rfl, rfl⟩

theorem Onward.of_suffix {rest : Bytes} (suffix : rest <:+ r.rest) : Onward r { r with rest } :=
  ⟨suffix, rfl⟩

theorem Onward.exists_rest (h : Onward r s) : ∃ rest, rest <:+ r.rest ∧ s = { r with rest } :=
  ⟨s.rest, h.rest, h.same⟩

theorem Onward.trans {t : Reader} (first : Onward r s) (next : Onward s t) : Onward r t := by
  refine ⟨next.rest.trans first.rest, ?_⟩
  rw [next.same, first.same]

theorem final_bind {P : Reader → Prop} {m : ReadM α} {f : α → ReadM β}
    (first : P (final (m r))) (next : ∀ a s, m r = .ok a s → P s → P (final (f a s))) :
    P (final ((m >>= f) r)) := by
  rw [bind_run]
  cases ran : m r with
  | ok a s => rw [ran] at first; exact next a s ran first
  | error e s => rw [ran] at first; exact first

/-! ## Not looking beyond -/

/-- No number goes on behind the bytes. -/
def Closes (bytes : Bytes) : Prop := ∀ b, bytes.getLast? = some b → Bytes.isToken b = false

theorem Closes.suffix {bytes rest : Bytes} (h : Closes bytes) (suffix : rest <:+ bytes) :
    Closes rest := by
  intro b last
  obtain ⟨before, rfl⟩ := suffix
  apply h b
  rw [List.getLast?_append, last]
  rfl

/-- `s` stands before the same input as `r`, with more of it behind. How far the two have come may
    differ, and how many records they have started, but not whether they have started any. -/
structure Beside (more : Bytes) (r s : Reader) : Prop where
  rest : s.rest = r.rest ++ more
  ending : s.ending = .endOfInput
  inRecords : s.inRecords = r.inRecords
  commaSkipped : s.commaSkipped = r.commaSkipped
  started : 0 < s.records ↔ 0 < r.records
  closes : more = [] ∨ Closes r.rest

theorem Beside.moved (h : Beside more r s) {rest : Bytes} (suffix : rest <:+ r.rest) :
    Beside more { r with rest } { s with rest := rest ++ more } :=
  ⟨rfl, h.ending, h.inRecords, h.commaSkipped, h.started, h.closes.imp_right (·.suffix suffix)⟩

/-- The two see the same byte, if there is one. -/
theorem Beside.stands (h : Beside more r s) {b : UInt8} {rest : Bytes}
    (stands : r.rest.dropWhile Bytes.isBlank = b :: rest) :
    s.rest.dropWhile Bytes.isBlank = b :: (rest ++ more) := by
  rw [h.rest, List.dropWhile_append, if_neg (by simp [stands]), stands]
  rfl

/-- A step broke off for want of input. -/
def Starved : EStateM.Result LogError Reader α → Prop
  | .ok .. => False
  | .error e _ => e.wantsMore = true

/-- A step broke off for want of input, or another with more input ended just like it. -/
def Agree (more : Bytes) (x y : EStateM.Result LogError Reader α) : Prop :=
  Starved x ∨ Matched (Beside more) Eq (fun e f => e.wantsMore = false ∧ f.wantsMore = false) x y

theorem Agree.bind {m n : ReadM α} {f g : α → ReadM β} (first : Agree more (m r) (n s))
    (next : ∀ a r' s', Beside more r' s' → Agree more (f a r') (g a s')) :
    Agree more ((m >>= f) r) ((n >>= g) s) := by
  rw [bind_run, bind_run]
  rcases first with starved | alike
  · left
    cases ran : m r with
    | ok a r' => rw [ran] at starved; exact starved.elim
    | error e r' => rw [ran] at starved; exact starved
  · rcases alike.cases with ⟨a, r', b, s', ran, ran', rfl, after⟩ | ⟨e, r', e', s', ran, ran', failed⟩
    · rw [ran, ran']
      exact next a r' s' after
    · rw [ran, ran']
      exact Or.inr failed

/-- The step fails where there is no input at all. -/
def Hungry (m : ReadM α) : Prop := ∀ r : Reader, r.rest = [] → Starved (m r)

theorem Hungry.bind {m : ReadM α} (first : Hungry m) (f : α → ReadM β) : Hungry (m >>= f) := by
  intro r none
  have starved := first r none
  rw [bind_run]
  cases ran : m r with
  | ok a s => rw [ran] at starved; exact starved.elim
  | error e s => rw [ran] at starved; exact starved

theorem Hungry.noting {f : Reader → ReadM α} (h : ∀ start, Hungry (f start)) : Hungry (get >>= f) :=
  fun r none => h r r none

theorem starved_of_checkEnding {f : Unit → ReadM α} (none : r.rest = [])
    (next : r.ending = .endOfInput → Starved (f () r)) : Starved ((checkEnding >>= f) r) := by
  cases ending : r.ending with
  | endOfInput =>
    rw [bind_run, checkEnding_run ending]
    exact next ending
  | fault fault =>
    have broke : checkEnding r = .error (.transport fault) r := by
      unfold checkEnding
      rw [none, ending]
    rw [bind_run, broke]
    exact rfl

theorem checkEnding_of_rest (some_ : r.rest ≠ []) : checkEnding r = .ok () r := by
  unfold checkEnding
  cases left : r.rest with
  | nil => exact absurd left some_
  | cons b rest => rfl

theorem final_checkEnding (r : Reader) : final (checkEnding r) = r := by
  unfold checkEnding
  split <;> exact rfl

theorem skipBlanks_before {b : UInt8} {rest : Bytes}
    (stands : r.rest.dropWhile Bytes.isBlank = b :: rest) :
    skipBlanks r = .ok () { r with rest := b :: rest } := by
  rw [← stands]
  exact checkEnding_of_rest (by simp [stands])

theorem skipBlanks_onward (r : Reader) : Onward r (final (skipBlanks r)) := by
  rw [show skipBlanks r = checkEnding _ from rfl, final_checkEnding]
  exact .of_suffix (List.dropWhile_suffix _)

theorem wantsMore_of_checkEnding {e : LogError} (failed : checkEnding r = .error e s) :
    e.wantsMore = true := by
  unfold checkEnding at failed
  split at failed <;> cases failed
  rfl

theorem hungry_next : Hungry next := fun r none =>
  starved_of_checkEnding none fun _ => by
    simp only [bind_run, get_run, none]
    exact rfl

theorem Hungry.blanks {f : Unit → ReadM α} (h : Hungry (f ())) : Hungry (skipBlanks >>= f) := by
  intro r none
  simp only [skipBlanks, bind_assoc, bind_run (modify _), modify_run]
  have left : r.rest.dropWhile Bytes.isBlank = [] := by rw [none]; rfl
  exact starved_of_checkEnding left fun _ => h _ left

/-! ## Steps that only move on -/

/-- Two steps that move on, and move on alike where one of them has more input than the other. -/
structure Steady (m n : ReadM α) : Prop where
  onward : ∀ r, Onward r (final (m r))
  beside : ∀ more r s, Beside more r s → Agree more (m r) (n s)

namespace Steady

variable {m n : ReadM α} {f g : α → ReadM β}

theorem pure (a : α) : Steady (pure a) (pure a) :=
  ⟨.refl, fun _ _ _ beside => Or.inr ⟨rfl, beside⟩⟩

theorem fail {e e' : LogError} (alike : e.wantsMore = e'.wantsMore) :
    Steady (throw e : ReadM α) (throw e') := by
  refine ⟨.refl, fun _ _ _ beside => ?_⟩
  cases wants : e.wantsMore with
  | true => exact Or.inl wants
  | false => exact Or.inr ⟨⟨wants, alike.symm.trans wants⟩, beside⟩

/-- **Steadiness composes.** -/
theorem bind (first : Steady m n) (next : ∀ a, Steady (f a) (g a)) :
    Steady (m >>= f) (n >>= g) where
  onward := fun r => final_bind (first.onward r) fun a s _ moved =>
    moved.trans ((next a).onward s)
  beside := fun more r s beside => (first.beside more r s beside).bind fun a r' s' after =>
    (next a).beside more r' s' after

theorem map (h : α → β) (first : Steady m n) : Steady (h <$> m) (h <$> n) := by
  rw [map_eq_pure_bind, map_eq_pure_bind]
  exact first.bind fun a => .pure (h a)

/-- The steps that note where they are, for the offset of an error. -/
theorem noting {f g : Reader → ReadM α} (h : ∀ r s, Steady (f r) (g s)) :
    Steady (get >>= f) (get >>= g) :=
  ⟨fun r => (h r r).onward r, fun more r s => (h r s).beside more r s⟩

theorem ite {p : Prop} [Decidable p] {m' n' : ReadM α} (yes : Steady m n) (no : Steady m' n') :
    Steady (if p then m else m') (if p then n else n') := by
  split
  · exact yes
  · exact no

/-- Blanks that are skipped before a step which needs input. -/
theorem blanks {f g : Unit → ReadM α} (h : Steady (f ()) (g ())) (hungry : Hungry (f ())) :
    Steady (skipBlanks >>= f) (skipBlanks >>= g) where
  onward := by
    intro r
    exact final_bind (skipBlanks_onward r) fun _ s _ moved => moved.trans (h.onward s)
  beside := by
    intro more r s beside
    by_cases none : r.rest.dropWhile Bytes.isBlank = []
    · left
      simp only [skipBlanks, bind_assoc, bind_run (modify _), modify_run]
      exact starved_of_checkEnding none fun _ => hungry _ none
    · have isSkipped : skipBlanks r = .ok () { r with rest := r.rest.dropWhile Bytes.isBlank } :=
        checkEnding_of_rest none
      have isSkipped' : skipBlanks s =
          .ok () { s with rest := r.rest.dropWhile Bytes.isBlank ++ more } := by
        have split : s.rest.dropWhile Bytes.isBlank = r.rest.dropWhile Bytes.isBlank ++ more := by
          rw [beside.rest, List.dropWhile_append, if_neg (by simpa using none)]
        rw [← split]
        exact checkEnding_run beside.ending
      rw [bind_run, bind_run, isSkipped, isSkipped']
      exact h.beside more _ _ (beside.moved (List.dropWhile_suffix _))

end Steady

/-! ## Bytes and tokens -/

theorem next_steady : Steady next next where
  onward := by
    intro r
    have stays : Onward r (final (checkEnding r)) := (final_checkEnding r).symm ▸ .refl r
    refine final_bind stays fun _ s _ moved => moved.trans ?_
    simp only [bind_run, get_run]
    cases left : s.rest with
    | nil => exact .refl s
    | cons b rest => exact .of_suffix (left ▸ List.suffix_cons b rest)
  beside := by
    intro more r s beside
    cases left : r.rest with
    | nil => exact Or.inl (hungry_next r left)
    | cons b rest =>
      have here : next r = .ok b { r with rest } := by
        simp only [next, bind_run, checkEnding_of_rest (left ▸ List.cons_ne_nil b rest), get_run,
          left]
        rfl
      have there : next s = .ok b { s with rest := rest ++ more } := by
        have split : s = { s with rest := b :: (rest ++ more) } := by
          rw [← List.cons_append, ← left, ← beside.rest]
        rw [split]
        exact next_run beside.ending
      rw [here, there]
      exact Or.inr ⟨rfl, beside.moved (left ▸ List.suffix_cons b rest)⟩

theorem next_shorter {b : UInt8} (taken : next r = .ok b s) : s.rest.length < r.rest.length := by
  cases left : r.rest with
  | nil =>
    have starved := hungry_next r left
    rw [taken] at starved
    exact starved.elim
  | cons c rest =>
    simp only [next, bind_run, checkEnding_of_rest (left ▸ List.cons_ne_nil c rest), get_run, left]
      at taken
    obtain rfl : { r with rest } = s := (EStateM.Result.ok.inj taken).2
    exact Nat.lt_succ_self _

theorem expect_steady (c : Char) : Steady (expect c) (expect c) :=
  .blanks (.noting fun _ _ => next_steady.bind fun _ => .ite (.fail rfl) (.pure ()))
    (.noting fun _ => hungry_next.bind _)

theorem hungry_expect (c : Char) : Hungry (expect c) :=
  .blanks (.noting fun _ => hungry_next.bind _)

theorem expect_shorter {c : Char} (taken : expect c r = .ok () s) :
    s.rest.length < r.rest.length := by
  obtain ⟨_, t, skipped, taken⟩ := ok_of_bind taken
  obtain ⟨_, _, same, taken⟩ := ok_of_bind taken
  obtain ⟨rfl, rfl⟩ := EStateM.Result.ok.inj same
  obtain ⟨b, u, isNext, taken⟩ := ok_of_bind taken
  have moved := skipBlanks_onward r
  rw [skipped] at moved
  split at taken
  · cases taken
  · obtain rfl : u = s := (EStateM.Result.ok.inj taken).2
    exact (next_shorter isNext).trans_le moved.rest.length_le

/-- Takes a token that stands here. -/
def tokenHere : ReadM (List Char) := do
  let start ← get
  let bytes := start.rest.takeWhile Bytes.isToken
  set { start with rest := start.rest.dropWhile Bytes.isToken }
  checkEnding
  if bytes = [] then
    match (← get).rest with
    | [] => throw (.unexpectedEnd start.offset)
    | b :: _ => throw (.unexpectedByte '0' b start.offset)
  return Bytes.latin bytes

theorem tokenHere_token {b : UInt8} {rest : Bytes} (stands : r.rest = b :: rest)
    (isToken : Bytes.isToken b = true)
    (ends : checkEnding { r with rest := r.rest.dropWhile Bytes.isToken } =
      .ok () { r with rest := r.rest.dropWhile Bytes.isToken }) :
    tokenHere r = .ok (Bytes.latin (r.rest.takeWhile Bytes.isToken))
      { r with rest := r.rest.dropWhile Bytes.isToken } := by
  have some_ : r.rest.takeWhile Bytes.isToken ≠ [] := by simp [stands, isToken]
  simp only [tokenHere, bind_run, get_run, set_run, ends, some_, if_false]
  rfl

theorem tokenHere_other {b : UInt8} {rest : Bytes} (stands : r.rest = b :: rest)
    (other : Bytes.isToken b = false) :
    tokenHere r = .error (.unexpectedByte '0' b r.offset) r := by
  obtain ⟨left, ending, total, records, inRecords, commaSkipped⟩ := r
  obtain rfl : left = b :: rest := stands
  simp only [tokenHere, bind_run, get_run, set_run, List.takeWhile_cons, List.dropWhile_cons, other,
    Bool.false_eq_true, if_false, if_true]
  rfl

theorem hungry_tokenHere : Hungry tokenHere := by
  intro r none
  have left : r.rest.dropWhile Bytes.isToken = [] := by rw [none]; rfl
  simp only [tokenHere, bind_run (get), get_run, bind_run (set _), set_run]
  exact starved_of_checkEnding left fun _ => by
    simp only [none, List.takeWhile_nil, List.dropWhile_nil, if_true, bind_run, get_run]
    exact rfl

/-- A token ends within bytes that close. -/
theorem span_token_append {bytes : Bytes} (some_ : bytes ≠ []) (closes : more = [] ∨ Closes bytes) :
    (bytes ++ more).takeWhile Bytes.isToken = bytes.takeWhile Bytes.isToken ∧
      (bytes ++ more).dropWhile Bytes.isToken = bytes.dropWhile Bytes.isToken ++ more := by
  rcases closes with rfl | closes
  · simp
  · have other := closes _ (List.getLast?_eq_some_getLast some_)
    have ends : ¬ ∀ b ∈ bytes, Bytes.isToken b = true := fun all => by
      rw [all _ (List.getLast_mem some_)] at other
      cases other
    have shorter : (bytes.takeWhile Bytes.isToken).length ≠ bytes.length := fun same =>
      ends (List.takeWhile_eq_self_iff.1 ((List.takeWhile_prefix _).eq_of_length same))
    have left : ¬ (bytes.dropWhile Bytes.isToken).isEmpty = true := fun none =>
      ends (List.dropWhile_eq_nil_iff.1 (List.isEmpty_iff.1 none))
    rw [List.takeWhile_append, List.dropWhile_append]
    exact ⟨if_neg shorter, if_neg left⟩

theorem tokenHere_steady : Steady tokenHere tokenHere where
  onward := by
    intro r
    let behind : Reader := { r with rest := r.rest.dropWhile Bytes.isToken }
    have moved : Onward r behind := .of_suffix (List.dropWhile_suffix _)
    simp only [tokenHere, bind_run get, get_run, bind_run (set _), set_run]
    refine final_bind ((final_checkEnding behind).symm ▸ moved) fun _ s _ moved => ?_
    split
    · rw [bind_run, get_run]
      dsimp only
      cases s.rest <;> exact moved
    · exact moved
  beside := by
    intro more r s beside
    cases left : r.rest with
    | nil => exact Or.inl (hungry_tokenHere r left)
    | cons b rest =>
      have left' : s.rest = b :: (rest ++ more) := by rw [beside.rest, left]; rfl
      cases isToken : Bytes.isToken b with
      | false =>
        rw [tokenHere_other left isToken, tokenHere_other left' isToken]
        exact Or.inr ⟨⟨rfl, rfl⟩, beside⟩
      -- a token that ends before the end of the input ends there with more input, too
      | true =>
        obtain ⟨taken, dropped⟩ := span_token_append (left ▸ List.cons_ne_nil b rest) beside.closes
        have moved := beside.moved (List.dropWhile_suffix Bytes.isToken)
        rw [← dropped, ← beside.rest] at moved
        have there := tokenHere_token left' isToken (checkEnding_run beside.ending)
        rw [show s.rest.takeWhile Bytes.isToken = r.rest.takeWhile Bytes.isToken by
          rw [beside.rest, taken]] at there
        have stays := final_checkEnding { r with rest := r.rest.dropWhile Bytes.isToken }
        cases ends : checkEnding { r with rest := r.rest.dropWhile Bytes.isToken } with
        | ok _ t =>
          rw [ends] at stays
          obtain rfl : t = _ := stays
          rw [tokenHere_token left isToken ends, there]
          exact Or.inr ⟨rfl, moved⟩
        -- at the end of an input that is cut off, the token may go on
        | error e t =>
          left
          simp only [tokenHere, bind_run get, get_run, bind_run (set _), set_run]
          rw [bind_run, ends]
          exact wantsMore_of_checkEnding ends

theorem token_steady : Steady token token := .blanks tokenHere_steady hungry_tokenHere

/-! ## Texts -/

/-- How far a text was read, with more behind it. -/
def beforeMore (more : Bytes) : Quoted.Scan → Quoted.Scan
  | .closed content rest => .closed content (rest ++ more)
  | .malformed rest => .malformed (rest ++ more)
  | .unfinished => .unfinished

/-- What is left behind a text, unless it is unfinished. -/
def leftOf : Quoted.Scan → Option Bytes
  | .closed _ rest | .malformed rest => some rest
  | .unfinished => none

theorem scan_suffix (done bytes : Bytes) :
    ∀ rest ∈ leftOf (Quoted.scan done bytes), rest <:+ bytes := by
  fun_induction Quoted.scan done bytes with
  | case1 | case3 | case6 => exact fun rest mem => absurd mem (by simp [leftOf])
  | case2 done left =>
    rintro rest ⟨⟩
    exact List.suffix_cons 34 left
  | case4 done h₁ h₂ h₃ h₄ left c _ _ ih =>
    exact fun rest mem => (ih rest mem).trans ⟨[92, 117, h₁, h₂, h₃, h₄], rfl⟩
  | case5 done h₁ h₂ h₃ h₄ left =>
    rintro rest ⟨⟩
    exact ⟨[92, 117, h₁, h₂, h₃, h₄], rfl⟩
  | case7 done e left _ _ _ _ ih => exact fun rest mem => (ih rest mem).trans ⟨[92, e], rfl⟩
  | case8 done e left =>
    rintro rest ⟨⟩
    exact ⟨[92, e], rfl⟩
  | case9 done b left _ _ ih => exact fun rest mem => (ih rest mem).trans (List.suffix_cons b left)

/-- How far a text is read does not depend on what is behind it, unless it is unfinished. -/
theorem scan_append (done bytes more : Bytes) :
    Quoted.scan done bytes = .unfinished ∨
      Quoted.scan done (bytes ++ more) = beforeMore more (Quoted.scan done bytes) := by
  -- on the scan: where it comes to a verdict it has not looked
  -- beyond, and it passes on what the rest of the input is scanned as
  fun_induction Quoted.scan done bytes with
  | case1 | case3 | case6 => exact Or.inl rfl
  | case2 done left =>
    right
    rw [List.cons_append, Quoted.scan.eq_def]
    rfl
  | case4 done h₁ h₂ h₃ h₄ left c stands _ ih =>
    refine ih.imp_right fun same => ?_
    exact (Quoted.scan_unicode stands).trans same
  | case5 done h₁ h₂ h₃ h₄ left stands =>
    right
    simp only [List.cons_append]
    rw [Quoted.scan.eq_def]
    simp [stands, beforeMore]
  | case7 done e left other b stands _ ih =>
    refine ih.imp_right fun same => ?_
    exact (Quoted.scan_letter other stands).trans same
  | case8 done e left other stands =>
    right
    simp only [List.cons_append]
    rw [Quoted.scan.eq_def]
    simp [other, stands, beforeMore]
  | case9 done b left quote escape ih =>
    refine ih.imp_right fun same => ?_
    have plain : Quoted.Plain [b] := fun c mem => List.mem_singleton.1 mem ▸ ⟨quote, escape⟩
    exact (Quoted.scan_plain plain).trans same

/-- Takes what stands behind an opening quote. -/
def quotedHere : ReadM String := do
  let start ← get
  match Quoted.scan [] start.rest with
  | .closed content rest =>
    set { start with rest }
    match Bytes.ofUtf8? content with
    | some s => return s
    | none => throw (.invalidText start.offset)
  | .malformed rest =>
    set { start with rest }
    throw (.invalidText start.offset)
  | .unfinished =>
    set { start with rest := [] }
    checkEnding
    throw (.unexpectedEnd start.total)

theorem quotedHere_steady : Steady quotedHere quotedHere where
  onward := by
    intro r
    have suffix := scan_suffix [] r.rest
    simp only [quotedHere, bind_run get, get_run]
    cases scanned : Quoted.scan [] r.rest with
    | closed content rest =>
      have moved : Onward r { r with rest } := .of_suffix (suffix rest (scanned ▸ rfl))
      simp only [bind_run, set_run]
      cases Bytes.ofUtf8? content <;> exact moved
    | malformed rest => exact .of_suffix (suffix rest (scanned ▸ rfl))
    | unfinished =>
      have moved : Onward r { r with rest := [] } := .of_suffix List.nil_suffix
      simp only [bind_run (set _), set_run]
      exact final_bind ((final_checkEnding _).symm ▸ moved) fun _ s _ moved => moved
  beside := by
    intro more r s beside
    have suffix := scan_suffix [] r.rest
    simp only [quotedHere, bind_run get, get_run]
    rcases scan_append [] r.rest more with unfinished | same
    · left
      simp only [unfinished, bind_run (set _), set_run]
      exact starved_of_checkEnding rfl fun _ => rfl
    · rw [← beside.rest] at same
      rw [same]
      cases scanned : Quoted.scan [] r.rest with
      | closed content rest =>
        have moved := beside.moved (suffix rest (scanned ▸ rfl))
        right
        simp only [beforeMore, bind_run, set_run]
        cases Bytes.ofUtf8? content with
        | some s => exact ⟨rfl, moved⟩
        | none => exact ⟨⟨rfl, rfl⟩, moved⟩
      | malformed rest => exact Or.inr ⟨⟨rfl, rfl⟩, beside.moved (suffix rest (scanned ▸ rfl))⟩
      | unfinished =>
        left
        simp only [bind_run (set _), set_run]
        exact starved_of_checkEnding rfl fun _ => rfl

theorem quoted_steady : Steady quoted quoted :=
  (expect_steady '"').bind fun _ => quotedHere_steady

theorem hungry_quoted : Hungry quoted := (hungry_expect '"').bind _

/-! ## Keys and values -/

theorem scalar_steady (s : Scalar α) : Steady (scalar s) (scalar s) := by
  refine .noting fun _ _ => token_steady.bind fun text => ?_
  cases s.ofChars? text with
  | some a => exact .pure a
  | none => exact .fail rfl

theorem null_steady (start start' : Reader) : Steady (null start) (null start') :=
  token_steady.bind fun _ => .ite (.fail rfl) (.pure ())

theorem key_steady (k : Key) : Steady (key k) (key k) := by
  refine .blanks (.noting fun _ _ => quoted_steady.bind fun found => .ite ?_ (expect_steady ':'))
    (.noting fun _ => hungry_quoted.bind _)
  exact Steady.bind (.fail rfl) fun _ => expect_steady ':'

theorem keyed_steady (k : Key) (s : Scalar α) : Steady (keyed k s) (keyed k s) :=
  (key_steady k).bind fun _ => scalar_steady s

theorem keyedText_steady (k : Key) : Steady (keyedText k) (keyedText k) :=
  (key_steady k).bind fun _ => quoted_steady

theorem sequenceStart_steady (k : Key) : Steady (sequenceStart k) (sequenceStart k) :=
  (key_steady k).bind fun _ => expect_steady '['

theorem length_steady : Steady length length := keyed_steady .length .u32

/-- Takes `null` or an opening brace that stands here. -/
def nullOrObjectHere : ReadM Bool := do
  let start ← get
  match start.rest with
  | [] => throw (.unexpectedEnd start.offset)
  | b :: rest =>
    if b = 110 then
      null start
      return true
    else if b = 123 then
      set { start with rest }
      return false
    else throw (.unexpectedByte '{' b start.offset)

theorem nullOrObjectHere_run {b : UInt8} {rest : Bytes} (stands : r.rest = b :: rest) :
    nullOrObjectHere r =
      if b = 110 then (null r >>= fun _ => pure true) r
      else if b = 123 then .ok false { r with rest }
      else .error (.unexpectedByte '{' b r.offset) r := by
  simp only [nullOrObjectHere, bind_run get, get_run, stands]
  split
  · rfl
  · split <;> rfl

theorem hungry_nullOrObjectHere : Hungry nullOrObjectHere := by
  intro r none
  simp only [nullOrObjectHere, bind_run, get_run, none]
  exact rfl

theorem nullOrObjectHere_steady : Steady nullOrObjectHere nullOrObjectHere where
  onward := by
    intro r
    cases left : r.rest with
    | nil =>
      simp only [nullOrObjectHere, bind_run get, get_run, left]
      exact .refl r
    | cons b rest =>
      rw [nullOrObjectHere_run left]
      split
      · exact ((null_steady r r).bind fun _ => .pure true).onward r
      · split
        · exact .of_suffix (left ▸ List.suffix_cons b rest)
        · exact .refl r
  beside := by
    intro more r s beside
    cases left : r.rest with
    | nil => exact Or.inl (hungry_nullOrObjectHere r left)
    | cons b rest =>
      have left' : s.rest = b :: (rest ++ more) := by rw [beside.rest, left]; rfl
      rw [nullOrObjectHere_run left, nullOrObjectHere_run left']
      split
      · exact ((null_steady r s).bind fun _ => .pure true).beside more r s beside
      · right
        split
        · exact ⟨rfl, beside.moved (left ▸ List.suffix_cons b rest)⟩
        · exact ⟨⟨rfl, rfl⟩, beside⟩

theorem nullOrObject_steady : Steady nullOrObject nullOrObject :=
  .blanks nullOrObjectHere_steady hungry_nullOrObjectHere

theorem elements_steady {element : ReadM α} (each : Steady element element) (count : Nat) :
    ∀ done, Steady (elements element done count) (elements element done count) := by
  induction count with
  | zero => exact fun done => .pure done.reverse
  | succ count ih =>
    intro done
    unfold elements
    exact .ite ((expect_steady ',').bind fun _ => each.bind fun a => ih (a :: done))
      (each.bind fun a => ih (a :: done))

theorem sequence_steady (k : Key) {element : ReadM α} (each : Steady element element) :
    Steady (sequence k element) (sequence k element) :=
  length_steady.bind fun count => (expect_steady ',').bind fun _ =>
    (sequenceStart_steady k).bind fun _ => (elements_steady each count.toNat []).bind fun list =>
      (expect_steady ']').bind fun _ => .pure list

theorem bytes_steady : Steady bytes bytes := sequence_steady .bytes (scalar_steady .u8)

theorem valueCase_steady (start start' : Reader) (case : String) :
    Steady (valueCase start case) (valueCase start' case) :=
  .ite ((null_steady start start').bind fun _ => .pure _) <|
  .ite (.map _ (scalar_steady .bool)) <|
  .ite (.map _ (scalar_steady .i32)) <|
  .ite (.map _ (scalar_steady .u32)) <|
  .ite (.map _ (scalar_steady .i64)) <|
  .ite (.map _ (scalar_steady .u64)) <|
  .ite (.map _ (scalar_steady .f64)) <|
  .ite (.map _ quoted_steady) <|
  .ite (.map _ (scalar_steady .u64)) (.fail rfl)

/-- Takes what stands behind the brace that opens a value. -/
def valueHere : ReadM Recorded := do
  skipBlanks
  let start ← get
  let case ← quoted
  expect ':'
  let v ← valueCase start case
  expect '}'
  return v

theorem valueHere_steady : Steady valueHere valueHere := by
  refine .blanks (.noting fun _ _ => ?_) (.noting fun _ => hungry_quoted.bind _)
  exact quoted_steady.bind fun case => (expect_steady ':').bind fun _ =>
    (valueCase_steady _ _ case).bind fun v => (expect_steady '}').bind fun _ => .pure v

theorem value_steady : Steady value value := (expect_steady '{').bind fun _ => valueHere_steady

theorem keyedValue_steady (k : Key) : Steady (keyedValue k) (keyedValue k) :=
  (key_steady k).bind fun _ => value_steady

theorem values_steady : Steady values values := sequence_steady .values value_steady

theorem recordHeader_steady : Steady recordHeader recordHeader := by
  refine (keyed_steady .eventTime .i64).bind fun time => (expect_steady ',').bind fun _ =>
    (keyed_steady .ctxTag .u64).bind fun context => .noting fun _ _ => (expect_steady ',').bind
      fun _ => (keyed_steady .actionKind .u32).bind fun number => ?_
  cases Kind.ofNumber? number with
  | some kind => exact .pure _
  | none => exact .fail rfl

end Reader

/-! ## Records -/

open Reader

theorem Field.steady (f : Field α) : Steady f.read f.read := by
  cases f with
  | scalar k s => exact (expect_steady ',').bind fun _ => keyed_steady k s
  | text k => exact (expect_steady ',').bind fun _ => keyedText_steady k
  | value k => exact (expect_steady ',').bind fun _ => keyedValue_steady k
  | arrayType =>
    exact .noting fun _ _ => (expect_steady ',').bind fun _ =>
      (keyed_steady .typeId .u32).bind fun _ => .ite (.fail rfl) (.pure ())
  | optionalValue =>
    exact (expect_steady ',').bind fun _ => (keyed_steady .boolVal .bool).bind fun _ =>
      .ite ((expect_steady ',').bind fun _ => .map some (keyedValue_steady .entry)) (.pure none)
  | bytes => exact (expect_steady ',').bind fun _ => bytes_steady
  | values => exact (expect_steady ',').bind fun _ => values_steady
  | diagnostics =>
    exact (expect_steady ',').bind fun _ => (key_steady .diag).bind fun _ =>
      nullOrObject_steady.bind fun _ => .ite (.pure none) ((keyedText_steady .name).bind fun s =>
        (expect_steady '}').bind fun _ => .pure (some s))

theorem Layout.steady {α : Type} (layout : Layout α) : Steady layout.read layout.read := by
  induction layout with
  | done => exact .pure ()
  | field f rest ih => exact f.steady.bind fun a => ih.bind fun b => .pure (a, b)

end Retrace
