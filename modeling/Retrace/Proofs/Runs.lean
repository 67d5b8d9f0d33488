import Retrace.Engine.Basic

/-!
# Runs of fallible steps, alone and two at a time

Recording, replaying and reading are all written in one monad: a step starts in a state, and ends
with an answer or an error and *always* with a state. This module has the two tools with which such
programs are taken apart.

`bind_run` and its kin run a program one step at a time. They say nothing that is not in the
definition of the monad; stating them as equations about `m s` is what lets `simp` and `rw` walk
through a `do` block.

`Matched R Q E x y` compares how two runs ended: alike, with answers related by `Q` or errors
related by `E`, and in either case in states related by `R`. `Matched.bind` composes such
comparisons, so that two runs of a long program are compared step by step.
-/

namespace Retrace

/-! ## One run -/

section Run

variable {ε σ α β : Type}

@[simp] theorem bind_run (m : EStateM ε σ α) (f : α → EStateM ε σ β) (s : σ) :
    (m >>= f) s = match m s with
      | .ok a s' => f a s'
      | .error e s' => .error e s' := rfl

@[simp] theorem map_run (f : α → β) (m : EStateM ε σ α) (s : σ) :
    (f <$> m) s = match m s with
      | .ok a s' => .ok (f a) s'
      | .error e s' => .error e s' := rfl

@[simp] theorem pure_run (a : α) (s : σ) : (pure a : EStateM ε σ α) s = .ok a s := rfl

@[simp] theorem get_run (s : σ) : (get : EStateM ε σ σ) s = .ok s s := rfl

@[simp] theorem set_run (s s' : σ) : (set s' : EStateM ε σ Unit) s = .ok () s' := rfl

@[simp] theorem modify_run (f : σ → σ) (s : σ) :
    (modify f : EStateM ε σ Unit) s = .ok () (f s) := rfl

@[simp] theorem throw_run (e : ε) (s : σ) : (throw e : EStateM ε σ α) s = .error e s := rfl

theorem ok_of_bind {m : EStateM ε σ α} {f : α → EStateM ε σ β} {s s' : σ} {b : β}
    (h : (m >>= f) s = .ok b s') : ∃ a t, m s = .ok a t ∧ f a t = .ok b s' := by
  rw [bind_run] at h
  cases hm : m s with
  | ok a t => rw [hm] at h; exact ⟨a, t, rfl, h⟩
  | error e t => rw [hm] at h; exact absurd h (by simp)

/-! A computation without a state is taken apart in the same way. -/

theorem bind_of_ok {x : Except ε α} {f : α → Except ε β} {a : α} (h : x = .ok a) :
    x >>= f = f a := by rw [h]; rfl

theorem ok_of_bind_ok {x : Except ε α} {f : α → Except ε β} {b : β} (h : x >>= f = .ok b) :
    ∃ a, x = .ok a ∧ f a = .ok b := by
  cases x with
  | ok a => exact ⟨a, rfl, h⟩
  | error e => exact absurd h (by simp [bind, Except.bind])

theorem foldlM_cons_ok {f : σ → α → Except ε σ} {a : α} {as : List α} {s s' : σ}
    (h : (a :: as).foldlM f s = .ok s') : ∃ t, f s a = .ok t ∧ as.foldlM f t = .ok s' := by
  rw [List.foldlM_cons] at h
  exact ok_of_bind_ok h

/-- What was done came first, and the rest after it. -/
theorem foldlM_append_ok {f : σ → α → Except ε σ} {done rest : List α} {s mid : σ}
    (first : done.foldlM f s = .ok mid) : (done ++ rest).foldlM f s = rest.foldlM f mid := by
  rw [List.foldlM_append, first]
  rfl

theorem ok_of_pure_ok {a b : α} (h : (pure a : Except ε α) = .ok b) : a = b :=
  Except.ok.inj h

theorem throw_ne_ok (e : ε) (a : α) : (throw e : Except ε α) ≠ .ok a := nofun

end Run

/-! ## Two runs -/

section Pair

variable {ε δ σ τ α β γ κ : Type}

/-- Two runs ended alike: both with an answer or both with an error, these related by `Q` and `E`,
    in states related by `R`. -/
def Matched (R : σ → τ → Prop) (Q : α → β → Prop) (E : ε → δ → Prop) :
    EStateM.Result ε σ α → EStateM.Result δ τ β → Prop
  | .ok a s, .ok b t => Q a b ∧ R s t
  | .error e s, .error f t => E e f ∧ R s t
  | _, _ => False

/-- Runs that ended alike ended in one of two ways. -/
theorem Matched.cases {R : σ → τ → Prop} {Q : α → β → Prop} {E : ε → δ → Prop}
    {x : EStateM.Result ε σ α} {y : EStateM.Result δ τ β} (h : Matched R Q E x y) :
    (∃ a s b t, x = .ok a s ∧ y = .ok b t ∧ Q a b ∧ R s t) ∨
      ∃ e s f t, x = .error e s ∧ y = .error f t ∧ E e f ∧ R s t := by
  cases x with
  | ok a s =>
    cases y with
    | ok b t => exact Or.inl ⟨a, s, b, t, rfl, rfl, h⟩
    | error f t => exact h.elim
  | error e s =>
    cases y with
    | ok b t => exact h.elim
    | error f t => exact Or.inr ⟨e, s, f, t, rfl, rfl, h⟩

/-- Comparisons compose: where two first steps match, and the steps behind them match from related
    answers and states on, the whole runs match. -/
theorem Matched.bind {R : σ → τ → Prop} {Q : α → β → Prop} {P : γ → κ → Prop}
    {E : ε → δ → Prop} {m : EStateM ε σ α} {n : EStateM δ τ β} {f : α → EStateM ε σ γ}
    {g : β → EStateM δ τ κ} {s : σ} {t : τ} (first : Matched R Q E (m s) (n t))
    (rest : ∀ a b s' t', Q a b → R s' t' → Matched R P E (f a s') (g b t')) :
    Matched R P E ((m >>= f) s) ((n >>= g) t) := by
  rw [bind_run, bind_run]
  rcases first.cases with ⟨a, s', b, t', hm, hn, answers, states⟩ | ⟨_, _, _, _, hm, hn, failed⟩
  · rw [hm, hn]
    exact rest a b s' t' answers states
  · rw [hm, hn]
    exact failed

theorem Matched.of_ok {R : σ → τ → Prop} {Q : α → β → Prop} {E : ε → δ → Prop}
    {x : EStateM.Result ε σ α} {b : β} {t : τ} (h : Matched R Q E x (.ok b t)) :
    ∃ a s, x = .ok a s ∧ Q a b ∧ R s t := by
  cases x with
  | ok a s => exact ⟨a, s, rfl, h⟩
  | error e s => exact h.elim

theorem Matched.of_error {R : σ → τ → Prop} {Q : α → β → Prop} {E : ε → δ → Prop}
    {x : EStateM.Result ε σ α} {f : δ} {t : τ} (h : Matched R Q E x (.error f t)) :
    ∃ e s, x = .error e s ∧ E e f ∧ R s t := by
  cases x with
  | ok a s => exact h.elim
  | error e s => exact ⟨e, s, rfl, h⟩

theorem Matched.map {R : σ → τ → Prop} {Q : α → β → Prop} {P : γ → κ → Prop}
    {E : ε → δ → Prop} {m : EStateM ε σ α} {n : EStateM δ τ β} {f : α → γ} {g : β → κ}
    {s : σ} {t : τ} (first : Matched R Q E (m s) (n t)) (answers : ∀ a b, Q a b → P (f a) (g b)) :
    Matched R P E ((f <$> m) s) ((g <$> n) t) := by
  rw [map_eq_pure_bind, map_eq_pure_bind]
  exact first.bind fun a b _ _ hab hst => ⟨answers a b hab, hst⟩

/-- States that are related are still so if less is asked of them. -/
theorem Matched.imp {R R' : σ → τ → Prop} {Q : α → β → Prop} {E : ε → δ → Prop}
    {x : EStateM.Result ε σ α} {y : EStateM.Result δ τ β} (h : Matched R Q E x y)
    (weaker : ∀ s t, R s t → R' s t) : Matched R' Q E x y := by
  rcases h.cases with
    ⟨a, s, b, t, rfl, rfl, answers, states⟩ | ⟨e, s, f, t, rfl, rfl, errors, states⟩
  · exact ⟨answers, weaker s t states⟩
  · exact ⟨errors, weaker s t states⟩

/-- Two computations without a state ended alike. -/
def Paired (Q : α → β → Prop) (E : ε → δ → Prop) : Except ε α → Except δ β → Prop
  | .ok a, .ok b => Q a b
  | .error e, .error f => E e f
  | _, _ => False

theorem Paired.cases {Q : α → β → Prop} {E : ε → δ → Prop} {x : Except ε α} {y : Except δ β}
    (h : Paired Q E x y) :
    (∃ a b, x = .ok a ∧ y = .ok b ∧ Q a b) ∨ ∃ e f, x = .error e ∧ y = .error f ∧ E e f := by
  cases x with
  | ok a =>
    cases y with
    | ok b => exact Or.inl ⟨a, b, rfl, rfl, h⟩
    | error f => exact h.elim
  | error e =>
    cases y with
    | ok b => exact h.elim
    | error f => exact Or.inr ⟨e, f, rfl, rfl, h⟩

theorem Paired.bind {Q : α → β → Prop} {P : γ → κ → Prop} {E : ε → δ → Prop} {x : Except ε α}
    {y : Except δ β} {f : α → Except ε γ} {g : β → Except δ κ} (first : Paired Q E x y)
    (rest : ∀ a b, Q a b → Paired P E (f a) (g b)) : Paired P E (x >>= f) (y >>= g) := by
  rcases first.cases with ⟨a, b, rfl, rfl, answers⟩ | ⟨_, _, rfl, rfl, failed⟩
  · exact rest a b answers
  · exact failed

end Pair

end Retrace
