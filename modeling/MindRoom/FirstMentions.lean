import Mathlib.Data.List.Basic
import Mathlib.Data.List.Nodup

/-! # First mentions

A fold that keeps each element of a list once, in the order of first mention, and skips some.
-/

namespace FirstMentions

variable {α : Type*} {skip : α → Prop} {add : List α → α → List α} {as kept : List α} {b : α}

/-- What is skipped or already kept adds nothing, and everything else is put behind. -/
structure Adds (skip : α → Prop) (add : List α → α → List α) : Prop where
  old : ∀ kept a, skip a ∨ a ∈ kept → add kept a = kept
  new : ∀ kept a, ¬ (skip a ∨ a ∈ kept) → add kept a = kept ++ [a]

theorem adds_ite [DecidableEq α] (skip : α → Prop) [DecidablePred skip] :
    Adds skip fun kept a => if skip a ∨ a ∈ kept then kept else kept ++ [a] where
  old _ _ h := if_pos h
  new _ _ h := if_neg h

theorem adds_unless_mem [DecidableEq α] :
    Adds (fun _ : α => False) fun kept a => if a ∈ kept then kept else kept ++ [a] where
  old _ _ h := if_pos (h.resolve_left id)
  new _ _ h := if_neg fun hmem => h (.inr hmem)

theorem Adds.mem_foldl (h : Adds skip add) : b ∈ as.foldl add kept ↔ b ∈ kept ∨ b ∈ as ∧ ¬ skip b := by
  induction as generalizing kept with
  | nil => simp
  | cons a as ih =>
    rw [List.foldl_cons, ih]
    by_cases ha : skip a ∨ a ∈ kept
    · rw [h.old kept a ha]
      grind
    · rw [h.new kept a ha]
      grind

theorem Adds.nodup_foldl (h : Adds skip add) (hkept : kept.Nodup) : (as.foldl add kept).Nodup := by
  induction as generalizing kept with
  | nil => exact hkept
  | cons a as ih =>
    rw [List.foldl_cons]
    by_cases ha : skip a ∨ a ∈ kept
    · rw [h.old kept a ha]
      exact ih hkept
    · rw [h.new kept a ha]
      refine ih (List.nodup_append_comm.mp (List.nodup_cons.mpr ⟨?_, hkept⟩))
      exact fun hmem => ha (.inr hmem)

/-- Nothing is left out of a list that mentions each element once. -/
theorem Adds.foldl_of_nodup (h : Adds skip add) (hnodup : (kept ++ as).Nodup) (hskip : ∀ a ∈ as, ¬ skip a) :
    as.foldl add kept = kept ++ as := by
  induction as generalizing kept with
  | nil => exact (List.append_nil kept).symm
  | cons a as ih =>
    rw [List.forall_mem_cons] at hskip
    have ha : ¬ (skip a ∨ a ∈ kept) := by
      rintro (ha | ha)
      · exact hskip.1 ha
      · exact (List.nodup_append.mp hnodup).2.2 a ha a List.mem_cons_self rfl
    rw [List.append_cons] at hnodup ⊢
    rw [List.foldl_cons, h.new kept a ha, ih hnodup hskip.2]

end FirstMentions
