import Mathlib

/-! # Overlapping spans

A walk over the positions of a text cuts it into spans. Each span starts within its predecessor or right
behind it, a minimum step after the start of the predecessor, and repeats no more than a fixed number of its
positions. What the spans weigh together is bounded in two ways: by what is repeated, and by the number of
spans that one position can lie in.
-/

namespace Spans

/-- The positions from `start` up to `stop`. -/
structure Span where
  start : Nat
  stop : Nat
deriving DecidableEq

/-- The position lies in the span. -/
def Covers (p : Nat) (a : Span) : Prop := a.start ≤ p ∧ p < a.stop

instance (p : Nat) (a : Span) : Decidable (Covers p a) := inferInstanceAs (Decidable (_ ∧ _))

/-- What the positions of a span weigh. -/
def weight (w : Nat → Nat) (a : Span) : Nat := ∑ p ∈ Finset.Ico a.start a.stop, w p

/-- The spans of a walk from one start to the next. -/
inductive Walk (size overlap step : Nat) : Nat → List Span → Nat → Prop
  | nil (start : Nat) : Walk size overlap step start [] start
  | snoc {start s stop s' : Nat} {spans : List Span} (h : Walk size overlap step start spans s)
      (hstop : stop ≤ s + size) (hless : s < s') (hstep : s + step ≤ s') (hjoin : s' ≤ stop)
      (hrepeat : stop ≤ s' + overlap) : Walk size overlap step start (spans ++ [⟨s, stop⟩]) s'

section

variable {size overlap step start s p : Nat} {spans : List Span} {w : Nat → Nat}

theorem Walk.le (h : Walk size overlap step start spans s) : start ≤ s := by
  induction h with
  | nil => exact le_rfl
  | snoc _ _ hless _ _ _ ih => omega

/-- A walk leaves no position out. -/
theorem Walk.covers (h : Walk size overlap step start spans s) (hstart : start ≤ p) (hp : p < s) :
    ∃ a ∈ spans, Covers p a := by
  induction h with
  | nil => omega
  | @snoc s stop s' spans _ _ _ _ hjoin _ ih =>
    by_cases hbefore : p < s
    · rcases ih hbefore with ⟨a, ha, hcovers⟩
      exact ⟨a, List.mem_append_left _ ha, hcovers⟩
    · refine ⟨⟨s, stop⟩, List.mem_append_right _ List.mem_cons_self, ?_, ?_⟩
      · exact not_lt.mp hbefore
      · exact hp.trans_le hjoin

/-- The steps of a walk fit into the distance it has gone. -/
theorem Walk.length_mul_le (h : Walk size overlap step start spans s) : spans.length * step ≤ s - start := by
  induction h with
  | nil => simp
  | @snoc s stop s' spans h _ _ hstep _ _ ih =>
    have hle := h.le
    rw [List.length_append, List.length_singleton, Nat.add_mul, Nat.one_mul]
    omega

/-- The starts of a walk are a step apart, and so is the next one. -/
theorem Walk.spaced (h : Walk size overlap step start spans s) :
    spans.Pairwise (fun a b => a.start + step ≤ b.start) ∧ ∀ a ∈ spans, a.start + step ≤ s := by
  induction h with
  | nil => exact ⟨List.Pairwise.nil, fun a ha => absurd ha List.not_mem_nil⟩
  | @snoc s stop s' spans _ _ hless hstep _ _ ih =>
    constructor
    · rw [List.pairwise_append]
      refine ⟨ih.1, List.pairwise_singleton _ _, ?_⟩
      intro a ha b hb
      rw [List.mem_singleton] at hb
      rw [hb]
      exact ih.2 a ha
    · intro a ha
      rcases List.mem_append.mp ha with ha | ha
      · exact (ih.2 a ha).trans hless.le
      · rw [List.mem_singleton] at ha
        rw [ha]
        exact hstep

theorem Walk.stop_le (h : Walk size overlap step start spans s) : ∀ a ∈ spans, a.stop ≤ a.start + size := by
  induction h with
  | nil => exact fun a ha => absurd ha List.not_mem_nil
  | snoc _ hstop _ _ _ _ ih =>
    intro a ha
    rcases List.mem_append.mp ha with ha | ha
    · exact ih a ha
    · rw [List.mem_singleton] at ha
      rw [ha]
      exact hstop

/-- The span starts behind the start of its predecessor, leaves no gap and repeats little. -/
def Linked (overlap : Nat) (a b : Span) : Prop :=
  a.start < b.start ∧ b.start ≤ a.stop ∧ a.stop ≤ b.start + overlap

theorem Walk.linked (h : Walk size overlap step start spans s) (stop : Nat) :
    (spans ++ [(⟨s, stop⟩ : Span)]).IsChain (Linked overlap) := by
  induction h generalizing stop with
  | nil => exact List.isChain_singleton _
  | @snoc s stop' s' spans _ _ hless _ hjoin hrepeat ih =>
    rw [List.isChain_append]
    refine ⟨ih stop', List.isChain_singleton _, ?_⟩
    intro a ha b hb
    rw [List.getLast?_concat, Option.mem_some_iff] at ha
    rw [List.head?_singleton, Option.mem_some_iff] at hb
    rw [← ha, ← hb]
    exact ⟨hless, hjoin, hrepeat⟩

/-! ## What is repeated -/

theorem weight_le_of_bound {m : Nat} (hw : ∀ p, w p ≤ m) {a b : Nat} : ∑ p ∈ Finset.Ico a b, w p ≤ (b - a) * m := by
  calc ∑ p ∈ Finset.Ico a b, w p ≤ ∑ _p ∈ Finset.Ico a b, m := Finset.sum_le_sum fun p _ => hw p
    _ = (b - a) * m := by rw [Finset.sum_const, Nat.card_Ico, smul_eq_mul]

/-- Each step adds what it has gone and what it repeats. -/
theorem Walk.weight_le {m : Nat} (h : Walk size overlap step start spans s) (hw : ∀ p, w p ≤ m) :
    (spans.map (weight w)).sum ≤ ∑ p ∈ Finset.Ico start s, w p + spans.length * (overlap * m) := by
  induction h with
  | nil => simp
  | @snoc s stop s' spans h _ hless _ hjoin hrepeat ih =>
    have hsplit : weight w ⟨s, stop⟩ = ∑ p ∈ Finset.Ico s s', w p + ∑ p ∈ Finset.Ico s' stop, w p :=
      (Finset.sum_Ico_consecutive w hless.le hjoin).symm
    have hrest : ∑ p ∈ Finset.Ico s' stop, w p ≤ overlap * m :=
      (weight_le_of_bound hw).trans (Nat.mul_le_mul_right m (by omega))
    have hgone := Finset.sum_Ico_consecutive w h.le hless.le
    rw [List.map_append, List.sum_append, List.map_singleton, List.sum_singleton, List.length_append,
      List.length_singleton, Nat.add_mul, Nat.one_mul, hsplit, ← hgone]
    omega

end

/-! ## What one position lies in -/

section

variable {size step len p : Nat} {spans : List Span} {w : Nat → Nat}

/-- Numbers that are a step apart and below a bound are few. -/
theorem spaced_length {x n : Nat} {l : List Nat} (h : (x :: l).Pairwise fun a b => a + step ≤ b)
    (hn : ∀ y ∈ x :: l, y < n) : x + l.length * step < n := by
  induction l generalizing x with
  | nil => simpa using hn x List.mem_cons_self
  | cons y l ih =>
    rcases List.pairwise_cons.mp h with ⟨hx, hrest⟩
    have hxy := hx y List.mem_cons_self
    have hbound := ih hrest fun z hz => hn z (List.mem_cons_of_mem _ hz)
    rw [List.length_cons, Nat.add_mul, Nat.one_mul]
    omega

/-- Spans of a bounded size whose starts are a step apart overlap in few places. -/
theorem countP_covers_le (hstep : 0 < step) (hspaced : spans.Pairwise fun a b => a.start + step ≤ b.start)
    (hsize : ∀ a ∈ spans, a.stop ≤ a.start + size) : spans.countP (Covers p ·) ≤ (size - 1) / step + 1 := by
  have hstarts : ((spans.filter (Covers p ·)).map Span.start).Pairwise fun a b => a + step ≤ b := by
    rw [List.pairwise_map]
    exact hspaced.sublist List.filter_sublist
  have hwindow : ∀ y ∈ (spans.filter (Covers p ·)).map Span.start, y ≤ p ∧ p < y + size := by
    intro y hy
    rcases List.mem_map.mp hy with ⟨a, ha, rfl⟩
    rcases List.mem_filter.mp ha with ⟨ha, hcovers⟩
    rw [decide_eq_true_eq] at hcovers
    have hstop := hsize a ha
    exact ⟨hcovers.1, hcovers.2.trans_le hstop⟩
  rw [List.countP_eq_length_filter, ← List.length_map Span.start]
  cases hlist : (spans.filter (Covers p ·)).map Span.start with
  | nil => simp
  | cons x l =>
    rw [hlist] at hstarts hwindow
    have hx := hwindow x List.mem_cons_self
    have hbound := spaced_length hstarts (n := p + 1) fun y hy => Nat.lt_succ_of_le (hwindow y hy).1
    rw [List.length_cons]
    apply Nat.succ_le_succ
    rw [Nat.le_div_iff_mul_le hstep]
    omega

/-- What spans weigh together, counted by position. -/
theorem sum_weight (hlen : ∀ a ∈ spans, a.stop ≤ len) :
    (spans.map (weight w)).sum = ∑ p ∈ Finset.range len, w p * spans.countP (Covers p ·) := by
  induction spans with
  | nil => simp
  | cons a spans ih =>
    have hstop := hlen a List.mem_cons_self
    have hone : weight w a = ∑ p ∈ Finset.range len, if Covers p a then w p else 0 := by
      unfold weight
      rw [← Finset.sum_filter]
      apply Finset.sum_congr _ fun _ _ => rfl
      ext p
      rw [Finset.mem_Ico, Finset.mem_filter, Finset.mem_range]
      unfold Covers
      constructor
      · exact fun h => ⟨h.2.trans_le hstop, h⟩
      · exact fun h => h.2
    rw [List.map_cons, List.sum_cons, ih fun b hb => hlen b (List.mem_cons_of_mem _ hb), hone, ← Finset.sum_add_distrib]
    apply Finset.sum_congr rfl
    intro p _
    rw [List.countP_cons]
    by_cases hcovers : Covers p a
    · rw [if_pos hcovers, if_pos (decide_eq_true hcovers)]
      ring
    · rw [if_neg hcovers, if_neg (by simpa using hcovers)]
      ring

/-- No position counts more often than the spans that it may lie in. -/
theorem sum_weight_le {k : Nat} (hlen : ∀ a ∈ spans, a.stop ≤ len) (hk : ∀ p, spans.countP (Covers p ·) ≤ k) :
    (spans.map (weight w)).sum ≤ k * ∑ p ∈ Finset.range len, w p := by
  rw [sum_weight hlen, Finset.mul_sum]
  apply Finset.sum_le_sum
  intro p _
  rw [Nat.mul_comm]
  exact Nat.mul_le_mul_right _ (hk p)

end

end Spans
