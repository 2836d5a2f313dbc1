import Mathlib

/-! # Loops

A loop goes round by round: a round either gives the state of the next one or leaves the loop with a
result. The fuel bounds the number of rounds. A loop inside a round has a fuel of its own, so a round may
give nothing. Two rules are enough: what an invariant gives on leaving, and that a measure that falls in
each round bounds the fuel.
-/

namespace WhileLoop

inductive Round (σ α : Type*)
  | again (s : σ)
  | leave (a : α)

/-- Round after round, until the loop is left or the fuel runs out. -/
def run {σ α : Type*} (round : σ → Option (Round σ α)) : Nat → σ → Option α
  | 0, _ => none
  | fuel + 1, s =>
    match round s with
    | none => none
    | some (.again s') => run round fuel s'
    | some (.leave a) => some a

section

variable {σ α : Type*} {round : σ → Option (Round σ α)} {s s' : σ} {a : α} {fuel : Nat}

theorem run_again (h : round s = some (.again s')) : run round (fuel + 1) s = run round fuel s' := by
  rw [run, h]

theorem run_leave (h : round s = some (.leave a)) : run round (fuel + 1) s = some a := by
  rw [run, h]

/-- A loop is left from a state that its invariant describes. -/
theorem run_rule (Inv : σ → Prop) (Post : α → Prop) (hagain : ∀ s s', Inv s → round s = some (.again s') → Inv s')
    (hleave : ∀ s a, Inv s → round s = some (.leave a) → Post a)
    (hs : Inv s) (h : run round fuel s = some a) : Post a := by
  induction fuel generalizing s with
  | zero => cases h
  | succ fuel ih =>
    cases hround : round s with
    | none =>
      rw [run, hround] at h
      cases h
    | some result =>
      cases result with
      | again s' =>
        rw [run_again hround] at h
        exact ih (hagain s s' hs hround) h
      | leave a' =>
        rw [run_leave hround] at h
        cases h
        exact hleave s a hs hround

/-- A loop whose rounds lower a measure is left before the fuel runs out. -/
theorem run_terminates (Inv : σ → Prop) (measure : σ → Nat) (hround : ∀ s, Inv s → (∃ a, round s = some (.leave a)) ∨
      ∃ s', round s = some (.again s') ∧ Inv s' ∧ measure s' < measure s)
    (hs : Inv s) (hfuel : measure s < fuel) : ∃ a, run round fuel s = some a := by
  induction fuel generalizing s with
  | zero => omega
  | succ fuel ih =>
    rcases hround s hs with ⟨a, hleave⟩ | ⟨s', hagain, hs', hlt⟩
    · exact ⟨a, run_leave hleave⟩
    · rw [run_again hagain]
      exact ih hs' (by omega)

/-- A loop whose rounds keep an invariant and lower a measure is left with what its last round promises. -/
theorem run_total (Inv : σ → Prop) (Post : α → Prop) (measure : σ → Nat)
    (hround : ∀ s, Inv s → (∃ a, round s = some (.leave a) ∧ Post a) ∨
      ∃ s', round s = some (.again s') ∧ Inv s' ∧ measure s' < measure s)
    (hs : Inv s) (hfuel : measure s < fuel) : ∃ a, run round fuel s = some a ∧ Post a := by
  have hleaves : ∀ s, Inv s → (∃ a, round s = some (.leave a)) ∨
      ∃ s', round s = some (.again s') ∧ Inv s' ∧ measure s' < measure s := by
    intro s hs
    rcases hround s hs with ⟨a, hleave, _⟩ | hagain
    · exact .inl ⟨a, hleave⟩
    · exact .inr hagain
  obtain ⟨a, hrun⟩ := run_terminates Inv measure hleaves hs hfuel
  refine ⟨a, hrun, run_rule Inv Post ?_ ?_ hs hrun⟩
  · intro s s' hs hstep
    rcases hround s hs with ⟨a', hleave, _⟩ | ⟨s'', hagain, hs', _⟩
    · rw [hleave] at hstep
      cases hstep
    · rw [hagain] at hstep
      cases hstep
      exact hs'
  · intro s a hs hstep
    rcases hround s hs with ⟨a', hleave, hpost⟩ | ⟨s', hagain, _⟩
    · rw [hleave] at hstep
      cases hstep
      exact hpost
    · rw [hagain] at hstep
      cases hstep

def Steps (round : σ → Option (Round σ α)) (s s' : σ) : Prop := round s = some (.again s')

/-- A loop goes on from each state that it reaches. -/
theorem run_of_reached (hreached : Relation.ReflTransGen (Steps round) s s') (h : run round fuel s = some a) :
    ∃ fuel', run round fuel' s' = some a := by
  induction hreached using Relation.ReflTransGen.head_induction_on generalizing fuel with
  | refl => exact ⟨fuel, h⟩
  | head hstep _ ih =>
    cases fuel with
    | zero => cases h
    | succ fuel =>
      rw [run_again hstep] at h
      exact ih h

end

end WhileLoop
