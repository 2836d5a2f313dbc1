import Mathlib.Logic.Relation
import Mathlib.Order.Defs.Unbundled

/-! # Transactions

A transaction reads and writes a state and may raise; a raised transaction is rolled back.
`Respects R` says what a transaction may do to the state when it commits, as a relation
between the state it saw and the state it left. For a preorder `R` it is closed under every
way of building transactions, so a long transaction is checked part by part.
-/

/-- A transaction over states `σ` that raises an `ε`. -/
abbrev Transaction (σ ε : Type) := StateT σ (Except ε)

namespace Transaction

variable {σ ε α β : Type}

/-- Whatever commits leaves the state `R`-related to the one the transaction began in. -/
structure Respects (R : σ → σ → Prop) (m : Transaction σ ε α) : Prop where
  ok : ∀ s a s', m s = .ok (a, s') → R s s'

/-! ## Building transactions -/

theorem bind_eq_ok {m : Transaction σ ε α} {f : α → Transaction σ ε β} {s s' : σ} {b : β} :
    (m >>= f) s = .ok (b, s') ↔ ∃ a t, m s = .ok (a, t) ∧ f a t = .ok (b, s') := by
  constructor
  · intro h
    cases hm : m s with
    | error e =>
      have he : (m >>= f) s = .error e := by
        change (m s >>= fun p => f p.1 p.2) = _
        rw [hm]
        rfl
      rw [he] at h
      cases h
    | ok p =>
      obtain ⟨a, t⟩ := p
      have hf : (m >>= f) s = f a t := by
        change (m s >>= fun p => f p.1 p.2) = _
        rw [hm]
        rfl
      exact ⟨a, t, rfl, hf ▸ h⟩
  · rintro ⟨a, t, hm, hf⟩
    change (m s >>= fun p => f p.1 p.2) = _
    rw [hm]
    exact hf

@[simp] theorem pure_eq_ok {a b : α} {s s' : σ} : (pure a : Transaction σ ε α) s = .ok (b, s') ↔ a = b ∧ s = s' := by
  change Except.ok (a, s) = Except.ok (b, s') ↔ _
  simp

@[simp] theorem throw_eq_ok {e : ε} {a : α} {s s' : σ} : ¬ (throw e : Transaction σ ε α) s = .ok (a, s') := by
  intro h
  cases h

@[simp] theorem get_eq_ok {t s s' : σ} : (get : Transaction σ ε σ) s = .ok (t, s') ↔ s = t ∧ s = s' := by
  change Except.ok (s, s) = Except.ok (t, s') ↔ _
  simp

@[simp] theorem modify_eq_ok {f : σ → σ} {u : PUnit} {s s' : σ} :
    (modify f : Transaction σ ε PUnit) s = .ok (u, s') ↔ f s = s' := by
  change Except.ok (PUnit.unit, f s) = Except.ok (u, s') ↔ _
  simp

@[simp] theorem modifyGet_eq_ok {f : σ → α × σ} {a : α} {s s' : σ} :
    (modifyGet f : Transaction σ ε α) s = .ok (a, s') ↔ f s = (a, s') := by
  change Except.ok (f s) = Except.ok (a, s') ↔ _
  simp

theorem except_bind_eq_ok {x : Except ε α} {f : α → Except ε β} {b : β} :
    (x >>= f) = .ok b ↔ ∃ a, x = .ok a ∧ f a = .ok b := by
  cases x with
  | error e =>
    constructor
    · intro h
      cases h
    · rintro ⟨a, h, _⟩
      cases h
  | ok a =>
    constructor
    · intro h
      exact ⟨a, rfl, h⟩
    · rintro ⟨a', h, hf⟩
      obtain rfl := Except.ok.inj h
      exact hf

/-! ## What a transaction respects -/

section

variable {R S : σ → σ → Prop} {m : Transaction σ ε α} {f : α → Transaction σ ε β}

theorem Respects.mono (h : Respects R m) (hRS : ∀ s s', R s s' → S s s') : Respects S m :=
  ⟨fun s a s' hm => hRS s s' (h.ok s a s' hm)⟩

@[simp] theorem respects_throw {e : ε} : Respects R (throw e : Transaction σ ε α) :=
  ⟨fun _ _ _ h => absurd h throw_eq_ok⟩

theorem respects_modify {g : σ → σ} (h : ∀ s, R s (g s)) : Respects R (modify g : Transaction σ ε PUnit) := by
  refine ⟨fun s u s' hm => ?_⟩
  obtain rfl := modify_eq_ok.mp hm
  exact h s

theorem respects_modifyGet {g : σ → α × σ} (h : ∀ s, R s (g s).2) : Respects R (modifyGet g : Transaction σ ε α) := by
  refine ⟨fun s a s' hm => ?_⟩
  have hs := h s
  rw [modifyGet_eq_ok.mp hm] at hs
  exact hs

theorem respects_ite {p : Prop} [Decidable p] {m' : Transaction σ ε α} (h : p → Respects R m)
    (h' : ¬ p → Respects R m') : Respects R (if p then m else m') := by
  by_cases hp : p
  · rw [if_pos hp]
    exact h hp
  · rw [if_neg hp]
    exact h' hp

variable [IsPreorder σ R]

@[simp] theorem respects_pure {a : α} : Respects R (pure a : Transaction σ ε α) := by
  refine ⟨fun s b s' h => ?_⟩
  obtain ⟨_, rfl⟩ := pure_eq_ok.mp h
  exact refl_of R s

@[simp] theorem respects_get : Respects R (get : Transaction σ ε σ) := by
  refine ⟨fun s t s' h => ?_⟩
  obtain ⟨_, rfl⟩ := get_eq_ok.mp h
  exact refl_of R s

theorem Respects.bind (hm : Respects R m) (hf : ∀ a, Respects R (f a)) : Respects R (m >>= f) := by
  refine ⟨fun s b s' h => ?_⟩
  obtain ⟨a, t, hma, hfb⟩ := bind_eq_ok.mp h
  exact trans_of R (hm.ok s a t hma) ((hf a).ok t b s' hfb)

/-- `forM` over a list respects what each member does. -/
theorem Respects.forM_mem {g : α → Transaction σ ε PUnit} {l : List α}
    (hg : ∀ a ∈ l, Respects R (g a)) : Respects R (l.forM g) := by
  induction l with
  | nil => exact respects_pure
  | cons a l ih =>
    exact (hg a List.mem_cons_self).bind fun _ => ih fun x hx => hg x (List.mem_cons_of_mem _ hx)

theorem Respects.forM {g : α → Transaction σ ε PUnit} (hg : ∀ a, Respects R (g a)) (l : List α) :
    Respects R (l.forM g) :=
  Respects.forM_mem fun a _ => hg a

/-- `mapM` over a list respects what each member does. -/
theorem Respects.mapM_mem {g : α → Transaction σ ε β} {l : List α}
    (hg : ∀ a ∈ l, Respects R (g a)) : Respects R (l.mapM g) := by
  induction l with
  | nil => exact respects_pure
  | cons a l ih =>
    rw [List.mapM_cons]
    exact (hg a List.mem_cons_self).bind fun _ =>
      (ih fun x hx => hg x (List.mem_cons_of_mem _ hx)).bind fun _ => respects_pure

theorem Respects.mapM {g : α → Transaction σ ε β} (hg : ∀ a, Respects R (g a)) (l : List α) : Respects R (l.mapM g) :=
  Respects.mapM_mem fun a _ => hg a

end

/-- The transaction leaves `f` of the state as it was. -/
abbrev Fixes {γ : Type} (f : σ → γ) (s s' : σ) : Prop := f s' = f s

instance {γ : Type} (f : σ → γ) : IsPreorder σ (Fixes f) where
  refl _ := rfl
  trans _ _ _ h h' := h'.trans h

/-! ## From one state

The part of a transaction behind a read depends on what was read, so it is followed from the
state it runs in. -/

/-- `Respects` from one state only. -/
def RespectsAt (R : σ → σ → Prop) (s : σ) (m : Transaction σ ε α) : Prop :=
  ∀ a s', m s = .ok (a, s') → R s s'

section

variable {R : σ → σ → Prop} {s : σ} {m : Transaction σ ε α} {f : α → Transaction σ ε β}

theorem Respects.at (h : Respects R m) (s : σ) : RespectsAt R s m := h.ok s

theorem Respects.of_at (h : ∀ s, RespectsAt R s m) : Respects R m := ⟨h⟩

theorem respectsAt_throw {e : ε} : RespectsAt R s (throw e : Transaction σ ε α) :=
  fun _ _ h => absurd h throw_eq_ok

theorem respectsAt_throw_bind {e : ε} : RespectsAt R s ((throw e : Transaction σ ε α) >>= f) := by
  intro b s' h
  obtain ⟨a, t, ht, _⟩ := bind_eq_ok.mp h
  exact absurd ht throw_eq_ok

theorem respectsAt_get_bind {g : σ → Transaction σ ε β} (h : RespectsAt R s (g s)) : RespectsAt R s (get >>= g) := by
  intro b s' hb
  obtain ⟨a, t, ht, hg⟩ := bind_eq_ok.mp hb
  obtain ⟨rfl, rfl⟩ := get_eq_ok.mp ht
  exact h b s' hg

theorem liftM_eq_ok {x : Except ε α} {a : α} {s s' : σ} :
    (liftM x : Transaction σ ε α) s = .ok (a, s') ↔ x = .ok a ∧ s = s' := by
  cases x with
  | error e =>
    constructor
    · intro h
      cases h
    · rintro ⟨h, _⟩
      cases h
  | ok b =>
    change Except.ok (b, s) = Except.ok (a, s') ↔ _
    simp

theorem respectsAt_liftM_bind {x : Except ε α} (h : ∀ a, x = .ok a → RespectsAt R s (f a)) :
    RespectsAt R s ((liftM x : Transaction σ ε α) >>= f) := by
  intro b s' hb
  obtain ⟨a, t, ht, hf⟩ := bind_eq_ok.mp hb
  obtain ⟨hx, rfl⟩ := liftM_eq_ok.mp ht
  exact h a hx b s' hf

theorem respectsAt_set {t : σ} (h : R s t) : RespectsAt R s (set t : Transaction σ ε PUnit) := by
  intro u s' hs
  change Except.ok (PUnit.unit, t) = Except.ok (u, s') at hs
  obtain ⟨_, rfl⟩ := Prod.mk.injEq _ _ _ _ ▸ Except.ok.inj hs
  exact h

theorem respectsAt_modify {g : σ → σ} (h : R s (g s)) : RespectsAt R s (modify g : Transaction σ ε PUnit) := by
  intro u s' hm
  obtain rfl := modify_eq_ok.mp hm
  exact h

theorem respectsAt_modifyGet {g : σ → α × σ} (h : R s (g s).2) : RespectsAt R s (modifyGet g : Transaction σ ε α) := by
  intro a s' hm
  rw [modifyGet_eq_ok.mp hm] at h
  exact h

variable [IsPreorder σ R]

theorem respectsAt_pure {a : α} : RespectsAt R s (pure a : Transaction σ ε α) :=
  respects_pure.at s

theorem RespectsAt.bind (hm : RespectsAt R s m)
    (hf : ∀ a t, m s = .ok (a, t) → RespectsAt R t (f a)) : RespectsAt R s (m >>= f) := by
  intro b s' h
  obtain ⟨a, t, hma, hfb⟩ := bind_eq_ok.mp h
  exact trans_of R (hm a t hma) (hf a t hma b s' hfb)

theorem respectsAt_modify_bind {g : σ → σ} {k : PUnit → Transaction σ ε β} (h : R s (g s))
    (hk : RespectsAt R (g s) (k ⟨⟩)) : RespectsAt R s (modify g >>= k) := by
  refine (respectsAt_modify h).bind fun u t ht => ?_
  obtain rfl := modify_eq_ok.mp ht
  exact hk

theorem respectsAt_modifyGet_bind {g : σ → α × σ} (h : R s (g s).2) (hf : RespectsAt R (g s).2 (f (g s).1)) :
    RespectsAt R s ((modifyGet g : Transaction σ ε α) >>= f) := by
  refine (respectsAt_modifyGet h).bind fun a t ht => ?_
  rw [modifyGet_eq_ok.mp ht] at hf
  exact hf

theorem respects_liftM {x : Except ε α} : Respects R (liftM x : Transaction σ ε α) := by
  refine ⟨fun s a s' h => ?_⟩
  obtain ⟨_, rfl⟩ := liftM_eq_ok.mp h
  exact refl_of R s

end

/-! ## Behind a statement

Two statements that stand for one step are followed from the state in front of the first. -/

/-- What commits from `t` leaves a state related to `s`. -/
def RespectsFrom (R : σ → σ → Prop) (s t : σ) (m : Transaction σ ε α) : Prop :=
  ∀ a s', m t = .ok (a, s') → R s s'

section

variable {R : σ → σ → Prop} {s t : σ} {m : Transaction σ ε α} {f : α → Transaction σ ε β}

theorem RespectsFrom.at {g : σ → α × σ} (h : RespectsFrom R s (g s).2 (f (g s).1)) :
    RespectsAt R s ((modifyGet g : Transaction σ ε α) >>= f) := by
  intro b s' hb
  obtain ⟨a, t, ht, hf⟩ := bind_eq_ok.mp hb
  rw [modifyGet_eq_ok.mp ht] at h
  exact h b s' hf

theorem respectsFrom_bind (h : ∀ a t', m t = .ok (a, t') → RespectsFrom R s t' (f a)) :
    RespectsFrom R s t (m >>= f) := by
  intro b s' hb
  obtain ⟨a, t', hm, hf⟩ := bind_eq_ok.mp hb
  exact h a t' hm b s' hf

theorem respectsFrom_liftM_bind {x : Except ε α} (h : ∀ a, x = .ok a → RespectsFrom R s t (f a)) :
    RespectsFrom R s t ((liftM x : Transaction σ ε α) >>= f) := by
  refine respectsFrom_bind fun a t' hm => ?_
  obtain ⟨hx, rfl⟩ := liftM_eq_ok.mp hm
  exact h a hx

theorem respectsFrom_get_bind {g : σ → Transaction σ ε β} (h : RespectsFrom R s t (g t)) :
    RespectsFrom R s t (get >>= g) := by
  refine respectsFrom_bind fun a t' hm => ?_
  obtain ⟨rfl, rfl⟩ := get_eq_ok.mp hm
  exact h

theorem respectsFrom_pure {a : α} (h : R s t) : RespectsFrom R s t (pure a : Transaction σ ε α) := by
  intro b s' hb
  obtain ⟨_, rfl⟩ := pure_eq_ok.mp hb
  exact h

variable [IsPreorder σ R]

/-- The step is complete. -/
theorem RespectsAt.from (hm : RespectsAt R t m) (h : R s t) : RespectsFrom R s t m :=
  fun a s' hs => trans_of R h (hm a s' hs)

theorem respectsFrom_modify_bind {g : σ → σ} {k : PUnit → Transaction σ ε β} (h : R s (g t))
    (hk : RespectsAt R (g t) (k ⟨⟩)) : RespectsFrom R s t (modify g >>= k) := by
  refine respectsFrom_bind fun u t' hm => ?_
  obtain rfl := modify_eq_ok.mp hm
  exact hk.from h

end

/-! ## Runs -/

/-- Rolled back on a raise, committed otherwise. -/
def commit (m : Transaction σ ε α) (s : σ) : σ :=
  match m s with
  | .ok (_, s') => s'
  | .error _ => s

theorem commit_of_ok {m : Transaction σ ε α} {s s' : σ} {a : α} (h : m s = .ok (a, s')) : commit m s = s' := by
  rw [commit, h]

theorem commit_of_error {m : Transaction σ ε α} {s : σ} {e : ε} (h : m s = .error e) : commit m s = s := by
  rw [commit, h]

end Transaction
