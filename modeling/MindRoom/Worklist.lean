import Mathlib

/-! # Worklists

A search keeps what it has seen and a frontier of what it has still to expand. Two loops are
here: one takes a single element off the frontier and queues its unseen neighbours, the other
expands the whole frontier at once. With enough fuel both end with exactly what the roots
reach.
-/

namespace Worklist

def Reached {α : Type*} (R : α → α → Prop) (roots : List α) (b : α) : Prop :=
  ∃ a ∈ roots, Relation.ReflTransGen R a b

/-- What is seen is reached, and what is seen and not queued is expanded. -/
structure Inv {α : Type*} (R : α → α → Prop) (roots frontier seen : List α) : Prop where
  rooted : ∀ a ∈ roots, a ∈ seen
  sound : ∀ b ∈ seen, Reached R roots b
  queued : ∀ a ∈ frontier, a ∈ seen
  expanded : ∀ a ∈ seen, a ∉ frontier → ∀ b, R a b → b ∈ seen

variable {α : Type*} [DecidableEq α] {R : α → α → Prop} {next : α → List α} {nextAll : List α → List α}
  {roots frontier seen pool children : List α} {fuel : Nat} {a b : α}

/-- A neighbour that is not seen yet is marked and queued. -/
def visit (state : List α × List α) (b : α) : List α × List α :=
  if b ∈ state.2 then state else (b :: state.1, b :: state.2)

/-- Take one element off the frontier, visit its neighbours, go on. -/
def explore (next : α → List α) : Nat → List α → List α → List α
  | 0, _, seen => seen
  | _ + 1, [], seen => seen
  | fuel + 1, a :: frontier, seen =>
    let visited := (next a).foldl visit (frontier, seen)
    explore next fuel visited.1 visited.2

/-- Expand the whole frontier; what it leads to and is not seen yet is the next frontier. -/
def sweep (nextAll : List α → List α) : Nat → List α → List α → List α
  | 0, _, seen => seen
  | _ + 1, [], seen => seen
  | fuel + 1, a :: frontier, seen =>
    let fresh := (nextAll (a :: frontier)).filter (· ∉ seen)
    sweep nextAll fuel fresh (fresh ++ seen)

/-! ## The invariant of the search -/

section
omit [DecidableEq α]

theorem Reached.tail (h : Reached R roots a) (hab : R a b) : Reached R roots b := by
  rcases h with ⟨r, hr, hra⟩
  exact ⟨r, hr, hra.tail hab⟩

theorem Inv.start : Inv R roots roots roots where
  rooted _ ha := ha
  sound b hb := ⟨b, hb, Relation.ReflTransGen.refl⟩
  queued _ ha := ha
  expanded _ ha hnot := absurd ha hnot

/-- With nothing left to expand, the seen elements are the reached ones. -/
theorem Inv.mem_iff (h : Inv R roots [] seen) : b ∈ seen ↔ Reached R roots b := by
  constructor
  · exact h.sound b
  · rintro ⟨a, ha, hab⟩
    induction hab with
    | refl => exact h.rooted a ha
    | tail _ hlast ih => exact h.expanded _ ih List.not_mem_nil _ hlast

end

/-! ## One element at a time -/

theorem mem_foldl_visit : (b ∈ (children.foldl visit (frontier, seen)).2 ↔ b ∈ seen ∨ b ∈ children) ∧
      (b ∈ (children.foldl visit (frontier, seen)).1 ↔ b ∈ frontier ∨ b ∈ children ∧ b ∉ seen) := by
  induction children generalizing frontier seen with
  | nil => simp
  | cons c children ih =>
    rw [List.foldl_cons, visit]
    by_cases hc : c ∈ seen
    · rw [if_pos hc, ih.1, ih.2, List.mem_cons]
      constructor
      · constructor
        · rintro (h | h)
          · exact .inl h
          · exact .inr (.inr h)
        · rintro (h | rfl | h)
          · exact .inl h
          · exact .inl hc
          · exact .inr h
      · constructor
        · rintro (h | ⟨h, hb⟩)
          · exact .inl h
          · exact .inr ⟨.inr h, hb⟩
        · rintro (h | ⟨rfl | h, hb⟩)
          · exact .inl h
          · exact absurd hc hb
          · exact .inr ⟨h, hb⟩
    · rw [if_neg hc, ih.1, ih.2, List.mem_cons, List.mem_cons, List.mem_cons]
      by_cases hbc : b = c
      · subst hbc
        simp [hc]
      · simp [hbc]

theorem Inv.visited (h : Inv R roots (a :: frontier) seen) (hnext : ∀ b, b ∈ next a ↔ R a b) :
    Inv R roots ((next a).foldl visit (frontier, seen)).1 ((next a).foldl visit (frontier, seen)).2 where
  rooted r hr := mem_foldl_visit.1.mpr (.inl (h.rooted r hr))
  sound b hb := by
    rcases mem_foldl_visit.1.mp hb with hseen | hchild
    · exact h.sound b hseen
    · exact (h.sound a (h.queued a List.mem_cons_self)).tail ((hnext b).mp hchild)
  queued b hb := by
    rw [mem_foldl_visit.1]
    rcases mem_foldl_visit.2.mp hb with hq | ⟨hchild, -⟩
    · exact .inl (h.queued b (List.mem_cons_of_mem _ hq))
    · exact .inr hchild
  expanded x hx hnot b hxb := by
    rw [mem_foldl_visit.2, not_or, not_and_not_right] at hnot
    have hseen : x ∈ seen := by
      rcases mem_foldl_visit.1.mp hx with hseen | hchild
      · exact hseen
      · exact hnot.2 hchild
    rw [mem_foldl_visit.1]
    by_cases hxa : x = a
    · rw [hxa] at hxb
      exact .inr ((hnext b).mpr hxb)
    · refine .inl (h.expanded x hseen ?_ b hxb)
      rw [List.mem_cons, not_or]
      exact ⟨hxa, hnot.1⟩

/-! ## Fuel

Every element enters the frontier at most once after the start, so what is unseen of a list
that holds all neighbours bounds the rounds that are left.
-/

/-- How much of the pool is not seen. -/
def unseen (pool seen : List α) : Nat := (pool.filter (· ∉ seen)).length

theorem unseen_le : unseen pool seen ≤ pool.length := List.length_filter_le _ _

theorem unseen_lt {seen' : List α} (h : ∀ b ∈ seen, b ∈ seen') (hb : b ∈ pool) (hnew : b ∈ seen')
    (hold : b ∉ seen) : unseen pool seen' < unseen pool seen := by
  have hsub : pool.filter (· ∉ seen') = (pool.filter (· ∉ seen)).filter (· ∉ seen') := by
    rw [List.filter_filter]
    refine List.filter_congr fun c _ => ?_
    by_cases hc : c ∈ seen
    · simp [hc, h c hc]
    · simp [hc]
  unfold unseen
  rw [hsub, List.length_filter_lt_length_iff_exists]
  exact ⟨b, by simp [hb, hold], by simp [hnew]⟩

theorem unseen_foldl_visit (hsub : ∀ c ∈ children, c ∈ pool) :
    (children.foldl visit (frontier, seen)).1.length + unseen pool (children.foldl visit (frontier, seen)).2 ≤
      frontier.length + unseen pool seen := by
  induction children generalizing frontier seen with
  | nil => exact le_rfl
  | cons c children ih =>
    have hrest : ∀ d ∈ children, d ∈ pool := fun d hd => hsub d (List.mem_cons_of_mem _ hd)
    rw [List.foldl_cons, visit]
    by_cases hc : c ∈ seen
    · rw [if_pos hc]
      exact ih hrest
    · have hlt : unseen pool (c :: seen) < unseen pool seen :=
        unseen_lt (fun b hb => List.mem_cons_of_mem _ hb) (hsub c List.mem_cons_self) List.mem_cons_self hc
      have hih := @ih (c :: frontier) (c :: seen) hrest
      rw [if_neg hc]
      rw [List.length_cons] at hih
      change (children.foldl visit (c :: frontier, c :: seen)).1.length +
        unseen pool (children.foldl visit (c :: frontier, c :: seen)).2 ≤ _
      omega

theorem explore_inv (hnext : ∀ a b, b ∈ next a ↔ R a b) (hsub : ∀ a b, R a b → b ∈ pool)
    (hfuel : frontier.length + unseen pool seen ≤ fuel) (h : Inv R roots frontier seen) :
    Inv R roots [] (explore next fuel frontier seen) := by
  induction fuel generalizing frontier seen with
  | zero =>
    have hnil : frontier = [] := List.eq_nil_of_length_eq_zero (by omega)
    subst hnil
    exact h
  | succ fuel ih =>
    cases frontier with
    | nil => exact h
    | cons a frontier =>
      have hdec := @unseen_foldl_visit α _ frontier seen pool (next a)
        fun c hc => hsub a c ((hnext a c).mp hc)
      rw [List.length_cons] at hfuel
      exact ih (by omega) (h.visited (hnext a))

/-- The search one element at a time ends with what the roots reach. -/
theorem mem_explore (hnext : ∀ a b, b ∈ next a ↔ R a b) (hsub : ∀ a b, R a b → b ∈ pool)
    (hfuel : roots.length + pool.length ≤ fuel) : b ∈ explore next fuel roots roots ↔ Reached R roots b := by
  have hle := @unseen_le α _ roots pool
  exact (explore_inv hnext hsub (by omega) .start).mem_iff

/-! ## The whole frontier at once -/

theorem Inv.swept (h : Inv R roots frontier seen) (hnext : ∀ b, b ∈ nextAll frontier ↔ ∃ a ∈ frontier, R a b) :
    Inv R roots ((nextAll frontier).filter (· ∉ seen)) ((nextAll frontier).filter (· ∉ seen) ++ seen) where
  rooted r hr := List.mem_append_right _ (h.rooted r hr)
  sound b hb := by
    rcases List.mem_append.mp hb with hfresh | hseen
    · rcases (hnext b).mp (List.mem_of_mem_filter hfresh) with ⟨a, ha, hab⟩
      exact (h.sound a (h.queued a ha)).tail hab
    · exact h.sound b hseen
  queued b hb := List.mem_append_left _ hb
  expanded x hx hnot b hxb := by
    have hseen : x ∈ seen := (List.mem_append.mp hx).resolve_left hnot
    rw [List.mem_append]
    by_cases hb : b ∈ seen
    · exact .inr hb
    · left
      by_cases hxf : x ∈ frontier
      · rw [List.mem_filter, decide_eq_true_eq]
        exact ⟨(hnext b).mpr ⟨x, hxf, hxb⟩, hb⟩
      · exact absurd (h.expanded x hseen hxf b hxb) hb

theorem sweep_inv (hnext : ∀ frontier b, b ∈ nextAll frontier ↔ ∃ a ∈ frontier, R a b)
    (hsub : ∀ a b, R a b → b ∈ pool) (hfuel : frontier = [] ∨ unseen pool seen < fuel)
    (h : Inv R roots frontier seen) : Inv R roots [] (sweep nextAll fuel frontier seen) := by
  induction fuel generalizing frontier seen with
  | zero =>
    have hnil : frontier = [] := hfuel.resolve_right (Nat.not_lt_zero _)
    subst hnil
    exact h
  | succ fuel ih =>
    cases frontier with
    | nil => exact h
    | cons a frontier =>
      refine ih ?_ (h.swept (hnext _))
      -- either nothing fresh is left, or something unseen is seen now
      cases hfresh : (nextAll (a :: frontier)).filter (· ∉ seen) with
      | nil => exact .inl rfl
      | cons c fresh =>
        right
        have hc : c ∈ (nextAll (a :: frontier)).filter (· ∉ seen) := by
          rw [hfresh]
          exact List.mem_cons_self
        rw [List.mem_filter, decide_eq_true_eq] at hc
        rcases (hnext _ c).mp hc.1 with ⟨x, -, hxc⟩
        have hlt : unseen pool (c :: fresh ++ seen) < unseen pool seen :=
          unseen_lt (fun b hb => List.mem_append_right _ hb) (hsub x c hxc) List.mem_cons_self hc.2
        rcases hfuel with hnil | hfuel
        · cases hnil
        · omega

/-- The search level by level ends with what the roots reach. -/
theorem mem_sweep (hnext : ∀ frontier b, b ∈ nextAll frontier ↔ ∃ a ∈ frontier, R a b)
    (hsub : ∀ a b, R a b → b ∈ pool) (hfuel : pool.length < fuel) :
    b ∈ sweep nextAll fuel roots roots ↔ Reached R roots b := by
  have hle := @unseen_le α _ roots pool
  exact (sweep_inv hnext hsub (.inr (by omega)) .start).mem_iff

end Worklist
