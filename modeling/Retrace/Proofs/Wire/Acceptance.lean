import Retrace.Proofs.Wire.Fields
import Retrace.Proofs.Wire.Grammar

/-!
# The steps of reading accept what the grammar renders

`Accepts follow m L` says of a step that it answers `a` for the words of `L a` and for nothing else:
what it takes from the front of an input, when it answers, is a word of `L a` (`Accepts.sound`); and
where such a word stands at the front, before something that may follow, it takes just this word
(`Accepts.complete`). Every step is shown to accept the language that the grammar has for it, and
`Accepts.bind` composes them as `*` composes languages.

What follows matters in one direction only. A scalar that was taken is a word of its language
whatever comes behind it; but to be taken where it stands it must not go on.
-/

namespace Retrace

open Grammar

/-! ## Languages -/

namespace Grammar

/-- A language under a condition. -/
def provided (p : Prop) (L : Language UInt8) : Language UInt8 := {w | p ∧ w ∈ L}

/-- The words of the language begin with something that is no blank. -/
def Visible (L : Language UInt8) : Prop :=
  ∀ w ∈ L, ∃ b more, w = b :: more ∧ Bytes.isBlank b = false

/-- A word of the language, before something that may follow it, ends a token that stands before
it. -/
def Breaks (follow : Bytes → Prop) (L : Language UInt8) : Prop :=
  ∀ w ∈ L, ∀ rest, follow rest → Reader.Stops (w ++ rest)

section Languages

variable {p q : Prop} {L M : Language UInt8} {w bytes : Bytes} {c : Char} {b : UInt8}
  {follow : Bytes → Prop}

@[simp] theorem mem_provided : w ∈ provided p L ↔ p ∧ w ∈ L := Iff.rfl

@[simp] theorem mul_provided : L * provided p M = provided p (L * M) := by
  ext w
  simp only [Language.mem_mul, mem_provided]
  constructor
  · rintro ⟨u, first, v, ⟨given, second⟩, rfl⟩
    exact ⟨given, u, first, v, second, rfl⟩
  · rintro ⟨given, u, first, v, second, rfl⟩
    exact ⟨u, first, v, ⟨given, second⟩, rfl⟩

@[simp] theorem provided_mul : provided p L * M = provided p (L * M) := by
  ext w
  simp only [Language.mem_mul, mem_provided]
  constructor
  · rintro ⟨u, ⟨given, first⟩, v, second, rfl⟩
    exact ⟨given, u, first, v, second, rfl⟩
  · rintro ⟨given, u, first, v, second, rfl⟩
    exact ⟨u, ⟨given, first⟩, v, second, rfl⟩

/-- A run is spelled in one way. -/
theorem eq_ascii_of_mem_run {cs : List Char} (h : w ∈ run cs) : w = Bytes.ascii cs := by
  have code (b : UInt8) : UInt8.ofNat (Char.ofUInt8 b).toNat = b := UInt8.ofNat_toNat
  obtain ⟨-, -, rfl⟩ := h
  simp only [Bytes.ascii, Bytes.latin, List.map_map]
  exact (List.map_id'' code w).symm

/-! Blanks may be put before whatever has blanks before it. -/

theorem nil_mem_blanks : [] ∈ blanks := fun _ mem => absurd mem List.not_mem_nil

theorem mem_blanks_mul (h : w ∈ L) : w ∈ blanks * L :=
  Language.append_mem_mul nil_mem_blanks h

theorem blanks_mul_blanks : blanks * blanks = blanks := by
  ext w
  constructor
  · intro mem
    obtain ⟨u, first, v, second, rfl⟩ := Language.mem_mul.1 mem
    intro b inside
    exact (List.mem_append.1 inside).elim (first b) (second b)
  · exact mem_blanks_mul

theorem visible_singleton (visible : Bytes.isBlank b = false) : Visible {b :: bytes} := by
  rintro w rfl
  exact ⟨b, bytes, rfl, visible⟩

theorem visible_run {cs : List Char} : Visible (run cs) := by
  rintro w ⟨some_, all, -⟩
  obtain ⟨b, more, rfl⟩ := List.exists_cons_of_ne_nil some_
  exact ⟨b, more, rfl, Reader.isBlank_of_isToken (all b List.mem_cons_self)⟩

theorem Visible.mul (h : Visible L) : Visible (L * M) := by
  intro w mem
  obtain ⟨u, first, v, -, rfl⟩ := Language.mem_mul.1 mem
  obtain ⟨b, more, rfl, visible⟩ := h u first
  exact ⟨b, more ++ v, rfl, visible⟩

/-! A mark ends the token before it, and so does what begins with one. -/

theorem breaks_mark (other : Bytes.isToken (UInt8.ofNat c.toNat) = false) :
    Breaks follow (mark c) := by
  intro w mem rest _
  obtain ⟨before, blank, byte, rfl, rfl⟩ := Language.mem_mul.1 mem
  cases before with
  | nil => exact .cons other
  | cons b before =>
    apply Reader.Stops.cons
    cases token : Bytes.isToken b with
    | false => rfl
    | true =>
      have isBlank := blank b List.mem_cons_self
      rw [Reader.isBlank_of_isToken token] at isBlank
      exact absurd isBlank (by decide)

theorem Breaks.mul (h : Breaks Reader.Anything L) : Breaks follow (L * M) := by
  intro w mem rest _
  obtain ⟨u, first, v, -, rfl⟩ := Language.mem_mul.1 mem
  rw [List.append_assoc]
  exact h u first _ trivial

theorem Breaks.then (h : Breaks Reader.Stops L) (next : Breaks follow M) :
    Breaks follow (L * M) := by
  intro w mem rest follows
  obtain ⟨u, first, v, second, rfl⟩ := Language.mem_mul.1 mem
  rw [List.append_assoc]
  exact h u first _ (next v second rest follows)

theorem Breaks.iSup {ι : Type} {L : ι → Language UInt8} (h : ∀ i, Breaks follow (L i)) :
    Breaks follow (⨆ i, L i) := by
  intro w mem
  obtain ⟨i, isWord⟩ := Language.mem_iSup.1 mem
  exact h i w isWord

theorem breaks_one : Breaks Reader.Stops 1 := by
  rintro w rfl rest stops
  exact stops

theorem Breaks.provided (h : Breaks follow L) : Breaks follow (provided p L) :=
  fun w mem => h w mem.2

end Languages

end Grammar

/-! ## Acceptance -/

namespace Reader

open Grammar

theorem skipBlanks_drops {r : Reader} (ending : r.ending = .endOfInput) :
    skipBlanks r = .ok () { r with rest := r.rest.dropWhile Bytes.isBlank } := by
  simp only [skipBlanks, bind_run, modify_run]
  exact checkEnding_run ending

/-- The blanks that are skipped are blanks. -/
theorem takeWhile_mem_blanks (bytes : Bytes) : bytes.takeWhile Bytes.isBlank ∈ blanks :=
  fun b inside => List.all_eq_true.1 List.all_takeWhile b inside

/-- The step answers `a` just for the words of `L a`. -/
structure Accepts {α : Type} (follow : Bytes → Prop) (m : ReadM α) (L : α → Language UInt8) :
    Prop where
  /-- What is taken is a word. -/
  sound : ∀ {r : Reader} {a : α} {r' : Reader}, m r = .ok a r' → r.ending = .endOfInput →
    ∃ w ∈ L a, ∃ rest, r.rest = w ++ rest ∧ r' = { r with rest }
  /-- A word is taken, before what may follow it. -/
  complete : ∀ {a : α} {w : Bytes}, w ∈ L a → Takes follow m w a

namespace Accepts

variable {α β : Type} {follow further : Bytes → Prop} {m : ReadM α} {f : α → ReadM β}
  {L L' : α → Language UInt8} {M : α → β → Language UInt8} {N : β → Language UInt8}

theorem congr (h : Accepts follow m L) (same : ∀ a, L' a = L a) : Accepts follow m L' := by
  obtain rfl : L' = L := funext same
  exact h

theorem before (h : Accepts Anything m L) : Accepts follow m L :=
  ⟨h.sound, fun mem => (h.complete mem).before⟩

theorem pure (a : α) : Accepts follow (pure a) fun c => provided (c = a) 1 where
  sound := by
    intro r c r' ran _
    obtain ⟨rfl, rfl⟩ : a = c ∧ r = r' := by simpa using ran
    exact ⟨[], ⟨rfl, rfl⟩, r.rest, rfl, rfl⟩
  complete := by
    rintro c w ⟨rfl, rfl⟩
    exact .pure c

/-- **Acceptance composes**: two steps accept the products of what each of them accepts. -/
theorem bind (first : Accepts follow m L) (next : ∀ a, Accepts further (f a) (M a))
    (fits : ∀ a c, ∀ w ∈ M a c, ∀ rest, further rest → follow (w ++ rest))
    (whole : ∀ c w, w ∈ N c ↔ ∃ a, w ∈ L a * M a c) : Accepts further (m >>= f) N where
  sound := by
    intro r c r' ran ending
    obtain ⟨a, s, there, behind⟩ := ok_of_bind ran
    obtain ⟨u, isFirst, rest, split, rfl⟩ := first.sound there ending
    obtain ⟨v, isNext, rest', split', rfl⟩ := (next a).sound behind ending
    refine ⟨u ++ v, (whole c _).2 ⟨a, Language.append_mem_mul isFirst isNext⟩, rest', ?_, rfl⟩
    rw [split, show rest = v ++ rest' from split', List.append_assoc]
  complete := by
    intro c w mem
    obtain ⟨a, product⟩ := (whole c w).1 mem
    obtain ⟨u, isFirst, v, isNext, rfl⟩ := Language.mem_mul.1 product
    exact (first.complete isFirst).bind ((next a).complete isNext) (fits a c v isNext)

/-- A piece that answers nothing, and another one behind it. -/
theorem seq {m : ReadM Unit} {f : Unit → ReadM β} {L : Language UInt8}
    (first : Accepts Anything m fun _ => L) (next : Accepts further (f ()) N) :
    Accepts further (m >>= f) fun c => L * N c :=
  first.bind (fun _ => next) (fun _ _ _ _ _ _ => trivial) fun _ _ => by simp

/-- A piece that may end in a scalar, and another one behind it, which does not begin like one. -/
theorem bindStop (first : Accepts Stops m L) (next : ∀ a, Accepts further (f a) (M a))
    (breaks : ∀ a c, Breaks further (M a c))
    (whole : ∀ c w, w ∈ N c ↔ ∃ a, w ∈ L a * M a c) : Accepts further (m >>= f) N :=
  first.bind next breaks whole

theorem map (g : α → β) (h : Accepts follow m L) :
    Accepts follow (g <$> m) fun c => ⨆ a, provided (g a = c) (L a) where
  sound := by
    intro r c r' ran ending
    rw [map_run] at ran
    cases there : m r with
    | error e s => rw [there] at ran; exact absurd ran (by simp)
    | ok a s =>
      rw [there] at ran
      obtain ⟨rfl, rfl⟩ : g a = c ∧ s = r' := by simpa using ran
      obtain ⟨w, mem, rest, split, same⟩ := h.sound there ending
      exact ⟨w, Language.mem_iSup.2 ⟨a, rfl, mem⟩, rest, split, same⟩
  complete := by
    intro c w mem
    obtain ⟨a, rfl, isWord⟩ := Language.mem_iSup.1 mem
    exact (h.complete isWord).map g

/-- A step that goes on under a condition only. -/
theorem onlyIf {p : Prop} [Decidable p] {e : LogError} {n : Unit → ReadM β}
    (h : p → Accepts follow (n ()) N) :
    Accepts follow (if ¬p then throw e >>= n else n ()) fun c => provided p (N c) := by
  by_cases holds : p
  · rw [if_neg (not_not_intro holds)]
    exact (h holds).congr fun c => by ext w; simp [holds]
  · rw [if_pos holds]
    refine ⟨fun ran _ => absurd ran (by simp), fun mem => absurd mem.1 holds⟩

/-- The steps that note where they are, for the offset of an error. -/
theorem noting {f : Reader → ReadM α} (h : ∀ start, Accepts follow (f start) L) :
    Accepts follow (get >>= f) L where
  sound := fun {r _ _} ran ending => (h r).sound ran ending
  complete := fun mem => .noting fun start => (h start).complete mem

/-- A condition behind which nothing more is taken. -/
theorem check {p : Prop} [Decidable p] {e : LogError} :
    Accepts follow (if ¬p then MonadExcept.throw e else Pure.pure () : ReadM Unit)
      fun _ => provided p 1 := by
  by_cases holds : p
  · rw [if_neg (not_not_intro holds)]
    exact (pure ()).congr fun c => by ext w; simp [holds]
  · rw [if_pos holds]
    exact ⟨fun ran _ => absurd ran (by simp), fun mem => absurd mem.1 holds⟩

/-- The steps that skip blanks first take all blanks before what they take. -/
theorem skipping {f : Unit → ReadM α}
    (sound : ∀ {r : Reader} {a : α} {r' : Reader}, f () r = .ok a r' → r.ending = .endOfInput →
      ∃ w ∈ blanks * L a, ∃ rest, r.rest = w ++ rest ∧ r' = { r with rest })
    (complete : ∀ {a : α} {w : Bytes}, w ∈ L a → Takes follow (skipBlanks >>= f) w a)
    (visible : ∀ a, Visible (L a)) :
    Accepts follow (skipBlanks >>= f) fun a => blanks * L a where
  sound := by
    intro r a r' ran ending
    rw [bind_run, skipBlanks_drops ending] at ran
    obtain ⟨w, mem, rest, split, rfl⟩ := sound ran ending
    refine ⟨r.rest.takeWhile Bytes.isBlank ++ w, ?_, rest, ?_, rfl⟩
    · rw [← blanks_mul_blanks, mul_assoc]
      exact Language.append_mem_mul (takeWhile_mem_blanks r.rest) mem
    · rw [List.append_assoc, ← split, List.takeWhile_append_dropWhile]
  complete := by
    intro a w mem r rest ending follows
    obtain ⟨before, blank, v, inside, rfl⟩ := Language.mem_mul.1 mem
    obtain ⟨b, more, rfl, isVisible⟩ := visible a v inside
    -- with and without the blanks it is the same that is left after skipping
    have skipped : skipBlanks { r with rest := before ++ b :: more ++ rest } =
        skipBlanks { r with rest := b :: more ++ rest } := by
      simp only [skipBlanks, bind_run, modify_run, List.append_assoc,
        List.dropWhile_append_of_pos blank]
    rw [bind_run, skipped, ← bind_run]
    exact complete inside r rest ending follows

/-- The steps that skip blanks and go on with a step that would skip them. -/
theorem again {f : Unit → ReadM α} (h : Accepts follow (f ()) fun a => blanks * L a)
    (visible : ∀ a, Visible (L a)) :
    Accepts follow (skipBlanks >>= f) fun a => blanks * L a := by
  refine skipping h.sound (fun {a w} mem => ?_) visible
  obtain ⟨b, more, rfl, isVisible⟩ := visible a w mem
  exact (h.complete (mem_blanks_mul mem)).skipping isVisible

end Accepts

/-! ## Tokens -/

theorem expect_accepts {c : Char} (byte : c.toNat < 256)
    (visible : Bytes.isBlank (UInt8.ofNat c.toNat) = false) :
    Accepts Anything (expect c) fun _ => mark c := by
  have code : (UInt8.ofNat c.toNat).toNat = c.toNat := UInt8.toNat_ofNat_of_lt' byte
  refine .skipping ?_ (fun {_ w} mem => ?_) fun _ => visible_singleton visible
  · intro r _ r' ran ending
    simp only [bind_run, get_run, next, checkEnding_run ending] at ran
    cases left : r.rest with
    | nil => rw [left] at ran; exact absurd ran (by simp)
    | cons b rest =>
      by_cases same : b.toNat = c.toNat
      · obtain rfl : b = UInt8.ofNat c.toNat := UInt8.toNat_inj.1 (same.trans code.symm)
        simp only [left, bind_run, set_run, pure_run, same, ne_eq, not_true_eq_false, if_false] at ran
        obtain rfl : { r with rest } = r' := by simpa using ran
        exact ⟨_, mem_blanks_mul rfl, rest, rfl, rfl⟩
      · simp [left, same] at ran
  · obtain rfl : w = Bytes.ascii [c] := mem
    exact expect_takes code visible

theorem token_accepts : Accepts Stops token Grammar.token := by
  refine .skipping ?_ ?_ ?_
  · intro r cs r' ran ending
    have left : checkEnding { r with rest := r.rest.dropWhile Bytes.isToken } =
        .ok () { r with rest := r.rest.dropWhile Bytes.isToken } := checkEnding_run ending
    simp only [bind_run, get_run, set_run, left] at ran
    by_cases none : r.rest.takeWhile Bytes.isToken = []
    · rw [if_pos none] at ran
      simp only [bind_run, get_run] at ran
      cases behind : r.rest.dropWhile Bytes.isToken <;>
      · rw [behind] at ran
        exact absurd ran (by simp)
    · rw [if_neg none] at ran
      obtain ⟨rfl, rfl⟩ : Bytes.latin (r.rest.takeWhile Bytes.isToken) = cs ∧
          { r with rest := r.rest.dropWhile Bytes.isToken } = r' := by simpa using ran
      have all : ∀ b ∈ r.rest.takeWhile Bytes.isToken, Bytes.isToken b = true :=
        List.all_eq_true.1 List.all_takeWhile
      exact ⟨_, mem_blanks_mul ⟨none, all, rfl⟩, _, List.takeWhile_append_dropWhile.symm, rfl⟩
  · rintro cs w ⟨some_, all, rfl⟩
    exact token_takes some_ all
  · exact fun _ => visible_run

theorem scalar_accepts {α : Type} (s : Scalar α) :
    Accepts Stops (scalar s) (Grammar.scalar s) := by
  apply Accepts.noting
  intro start
  apply token_accepts.bindStop (M := fun cs a => provided (s.ofChars? cs = some a) 1)
  · intro cs
    cases read : s.ofChars? cs with
    | some a => exact (Accepts.pure a).congr fun c => by simp [eq_comm]
    | none => exact ⟨fun ran _ => absurd ran (by simp), fun mem => absurd mem.1 (by simp)⟩
  · exact fun cs a => breaks_one.provided
  · intro a w
    simp only [mul_provided, mul_one, mem_provided]
    exact Iff.rfl

theorem null_accepts (start : Reader) : Accepts Stops (null start) fun _ => Grammar.null := by
  apply token_accepts.bindStop (M := fun cs _ => provided (cs = ['n', 'u', 'l', 'l']) 1)
  · exact fun cs => .check
  · exact fun cs _ => breaks_one.provided
  · intro _ w
    simp [Grammar.null]

end Reader

/-! ## Texts -/

namespace Quoted

variable {raw content done bytes rest : Bytes}

/-- No letter stands for a character that is given by its number. -/
theorem ne_of_letter? {e b : UInt8} (stands : letter? e = some b) : e ≠ 117 := by
  rintro rfl
  exact absurd (stands.symm.trans (by decide : letter? 117 = none)) (by simp)

/-- Escapes are undone up to the closing quote. -/
theorem scan_of_unescaped (h : Unescaped raw content) :
    scan done (raw ++ 34 :: rest) = .closed (done.reverse ++ content) rest := by
  induction h generalizing done with
  | nil =>
    rw [List.append_nil, List.nil_append, scan.eq_def]
    rfl
  | @plain b raw content quote escape _ ih =>
    have plain : Plain [b] := fun c mem => List.mem_singleton.1 mem ▸ ⟨quote, escape⟩
    exact (scan_plain plain).trans (ih.trans (by simp))
  | letter stands _ ih =>
    exact (scan_letter (ne_of_letter? stands) stands).trans (ih.trans (by simp))
  | unicode stands _ ih =>
    exact (scan_unicode stands).trans (ih.trans (by simp))

/-- What was read up to the closing quote is what the bytes before it stand for. -/
theorem unescaped_of_scan (h : scan done bytes = .closed content rest) :
    ∃ raw own, Unescaped raw own ∧ bytes = raw ++ 34 :: rest ∧ content = done.reverse ++ own := by
  fun_induction scan done bytes with
  | case2 done left =>
    obtain ⟨rfl, rfl⟩ := Scan.closed.inj h
    exact ⟨[], [], .nil, rfl, (List.append_nil _).symm⟩
  | case4 done h₁ h₂ h₃ h₄ left c stands _ ih =>
    obtain ⟨raw, own, unescaped, rfl, rfl⟩ := ih h
    exact ⟨_, _, .unicode stands unescaped, rfl, by simp⟩
  | case7 done e left _ b stands _ ih =>
    obtain ⟨raw, own, unescaped, rfl, rfl⟩ := ih h
    exact ⟨_, _, .letter stands unescaped, rfl, by simp⟩
  | case9 done b left quote escape ih =>
    obtain ⟨raw, own, unescaped, rfl, rfl⟩ := ih h
    exact ⟨_, _, .plain quote escape unescaped, rfl, by simp⟩
  | case1 | case3 | case5 | case6 | case8 => cases h

end Quoted

theorem Key.text_injective {k l : Key} (same : k.text = l.text) : k = l := by
  have back (k : Key) : Key.ofText? k.text = some k := by
    cases k <;> decide +kernel
  exact Option.some.inj ((back k).symm.trans ((congrArg Key.ofText? same).trans (back l)))

namespace Reader

theorem quote_accepts : Accepts Anything (expect '"') fun _ => mark '"' :=
  expect_accepts (by decide) (by decide)

theorem quoted_accepts : Accepts Anything quoted Grammar.text where
  sound := by
    intro r s r' ran ending
    obtain ⟨_, opened, isOpened, ran⟩ := ok_of_bind ran
    obtain ⟨u, isMark, inside, split, rfl⟩ := quote_accepts.sound isOpened ending
    simp only [bind_run, get_run] at ran
    cases scanned : Quoted.scan [] inside with
    | closed content rest =>
      simp only [scanned, bind_run, set_run] at ran
      cases read : Bytes.ofUtf8? content with
      | none => simp [read] at ran
      | some t =>
        obtain ⟨rfl, rfl⟩ : t = s ∧ { r with rest } = r' := by simpa [read] using ran
        obtain ⟨raw, own, unescaped, isInside, same⟩ := Quoted.unescaped_of_scan scanned
        obtain rfl : own = Bytes.utf8 t := same.symm.trans (Bytes.ofUtf8?_eq_some_iff.1 read)
        have mem : u ++ raw ++ [34] ∈ Grammar.text t :=
          Language.append_mem_mul (Language.append_mem_mul isMark unescaped) rfl
        refine ⟨_, mem, rest, ?_, rfl⟩
        rw [split, isInside]
        simp
    | malformed rest => simp [scanned] at ran
    | unfinished =>
      have left : checkEnding { r with rest := [] } = .ok () { r with rest := [] } :=
        checkEnding_run ending
      simp [scanned, left] at ran
  complete := by
    intro s w mem r rest ending _
    obtain ⟨before, isBefore, quote, rfl, rfl⟩ := Language.mem_mul.1 mem
    obtain ⟨u, isMark, raw, unescaped, rfl⟩ := Language.mem_mul.1 isBefore
    have opened := quote_accepts.complete (a := ()) isMark r (raw ++ 34 :: rest) ending trivial
    have split : u ++ raw ++ Bytes.ascii ['"'] ++ rest = u ++ (raw ++ 34 :: rest) := by
      simp [Bytes.ascii]
    rw [split]
    simp only [quoted, bind_run, opened, get_run, Quoted.scan_of_unescaped unescaped,
      List.reverse_nil, List.nil_append, set_run, Bytes.ofUtf8?_utf8]
    rfl

theorem text_eq (s : String) : Grammar.text s =
    blanks * ({Bytes.ascii ['"']} * (content s * {Bytes.ascii ['"']})) := by
  simp only [Grammar.text, mark, mul_assoc]

theorem colon_accepts : Accepts Anything (expect ':') fun _ => mark ':' :=
  expect_accepts (by decide) (by decide)

theorem key_accepts (k : Key) : Accepts Anything (key k) fun _ => Grammar.key k := by
  have whole : Grammar.key k = blanks *
      ({Bytes.ascii ['"']} * (content k.text * {Bytes.ascii ['"']}) * mark ':') := by
    rw [Grammar.key, text_eq, mul_assoc]
  refine (Accepts.again (L := fun _ => _) ?_ fun _ => ?_).congr fun _ => whole
  · apply Accepts.noting
    intro start
    apply quoted_accepts.bind (M := fun found _ => provided (found = k.text) (mark ':'))
    · exact fun found => .onlyIf fun _ => colon_accepts
    · exact fun _ _ _ _ _ _ => trivial
    · intro _ w
      simp [← whole, Grammar.key]
  · exact (visible_singleton (by decide)).mul.mul

theorem keyed_accepts {α : Type} (k : Key) (s : Scalar α) :
    Accepts Stops (keyed k s) (Grammar.keyed k s) :=
  (key_accepts k).seq (scalar_accepts s)

theorem keyedText_accepts (k : Key) : Accepts Anything (keyedText k) (Grammar.keyedText k) :=
  (key_accepts k).seq quoted_accepts

theorem sequenceStart_accepts (k : Key) :
    Accepts Anything (sequenceStart k) fun _ => Grammar.key k * mark '[' :=
  (key_accepts k).seq (expect_accepts (by decide) (by decide))

theorem comma_accepts : Accepts Anything (expect ',') fun _ => mark ',' :=
  expect_accepts (by decide) (by decide)

theorem brace_accepts : Accepts Anything (expect '}') fun _ => mark '}' :=
  expect_accepts (by decide) (by decide)

end Reader
end Retrace
