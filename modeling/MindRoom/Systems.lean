import Mathlib.Logic.Relation

/-! # Transition systems

A system is a set of starting states and a labelled step relation. What one step keeps, every
run keeps; what holds at the start and every step keeps, holds in every reachable state. A
condition on the steps cuts a system down to the runs that meet it.
-/

/-- The states a system starts in, and what each label does. -/
structure System (σ α : Type*) where
  start : σ → Prop
  step : α → σ → σ → Prop

namespace System

variable {σ α : Type*} {M : System σ α} {P : σ → Prop} {s s' : σ}

abbrev Run (M : System σ α) : σ → σ → Prop := Relation.ReflTransGen fun s s' => ∃ a, M.step a s s'

/-- A run from the start ends here. -/
def Reachable (M : System σ α) (s' : σ) : Prop := ∃ s, M.start s ∧ M.Run s s'

/-- The system whose steps all meet a condition on the label and the state before. -/
def given (M : System σ α) (C : α → σ → Prop) : System σ α where
  start := M.start
  step a s s' := C a s ∧ M.step a s s'

/-- What holds at the start and every step keeps. -/
structure Invariant (M : System σ α) (P : σ → Prop) : Prop where
  start : ∀ s, M.start s → P s
  step : ∀ a s s', P s → M.step a s s' → P s'

theorem Run.single (a : α) (h : M.step a s s') : M.Run s s' := Relation.ReflTransGen.single ⟨a, h⟩

/-- What every step keeps, a run keeps. -/
theorem Run.preserves (hrun : M.Run s s') (hstep : ∀ a t t', P t → M.step a t t' → P t') (h : P s) : P s' := by
  induction hrun with
  | refl => exact h
  | tail _ hlast ih =>
    rcases hlast with ⟨a, hlast⟩
    exact hstep a _ _ ih hlast

/-- The labels a step function follows, one after the other, where a condition on each holds. -/
def follow (C : α → σ → Prop) [∀ a s, Decidable (C a s)] (step : α → σ → Option σ) (labels : List α)
    (s : σ) : Option σ :=
  labels.foldlM (fun s a => if C a s then step a s else none) s

/-- What a step function follows is a run of the steps that meet the condition. -/
theorem Run.of_follow {C : α → σ → Prop} [∀ a s, Decidable (C a s)] {step : α → σ → Option σ}
    (hstep : ∀ a s s', step a s = some s' → M.step a s s') {labels : List α} :
    ∀ {s}, follow C step labels s = some s' → (M.given C).Run s s' := by
  induction labels with
  | nil =>
    rintro s ⟨⟩
    exact Relation.ReflTransGen.refl
  | cons a rest ih =>
    intro s hrun
    rcases Option.bind_eq_some_iff.mp hrun with ⟨s₁, hfirst, hrest⟩
    rw [Option.ite_none_right_eq_some] at hfirst
    exact Relation.ReflTransGen.head ⟨a, hfirst.1, hstep a s s₁ hfirst.2⟩ (ih hrest)

theorem Reachable.start (h : M.start s) : M.Reachable s := ⟨s, h, Relation.ReflTransGen.refl⟩

theorem Reachable.run (h : M.Reachable s) (hrun : M.Run s s') : M.Reachable s' := by
  rcases h with ⟨s₀, hstart, hrun₀⟩
  exact ⟨s₀, hstart, hrun₀.trans hrun⟩

theorem Reachable.next (h : M.Reachable s) (a : α) (hstep : M.step a s s') : M.Reachable s' :=
  h.run (Run.single a hstep)

/-- A run that meets a condition is a run. -/
theorem Reachable.of_given {C : α → σ → Prop} (h : (M.given C).Reachable s) : M.Reachable s := by
  rcases h with ⟨s₀, hstart, hrun⟩
  refine ⟨s₀, hstart, Relation.ReflTransGen.mono (fun t t' hstep => ?_) s₀ s hrun⟩
  rcases hstep with ⟨a, -, hstep⟩
  exact ⟨a, hstep⟩

/-- An invariant holds in every reachable state. -/
theorem Invariant.reachable (hP : M.Invariant P) (h : M.Reachable s) : P s := by
  rcases h with ⟨s₀, hstart, hrun⟩
  exact hrun.preserves hP.step (hP.start s₀ hstart)

/-- A step may use what is already known of every reachable state. -/
theorem Reachable.induct (h : M.Reachable s) (hstart : ∀ s, M.start s → P s)
    (hstep : ∀ a t t', M.Reachable t → P t → M.step a t t' → P t') : P s := by
  rcases h with ⟨s₀, hs₀, hrun⟩
  have hboth : M.Reachable s ∧ P s := by
    refine hrun.preserves (P := fun t => M.Reachable t ∧ P t) ?_ ⟨.start hs₀, hstart s₀ hs₀⟩
    intro a t t' ht hlast
    exact ⟨ht.1.next a hlast, hstep a t t' ht.1 ht.2 hlast⟩
  exact hboth.2

end System
