import Mathlib

/-! # Lines of a text

A position in a text lies in one of its lines and cuts that line in two. What is before the position ends
with the first part, and what is behind it starts with the second.
-/

namespace TextLines

/-- The length of lines with the break that ends each. -/
def width (lines : List (List Char)) : Nat := (lines.map (·.length + 1)).sum

@[simp] theorem width_nil : width [] = 0 := rfl

@[simp] theorem width_cons (line : List Char) (lines : List (List Char)) :
    width (line :: lines) = line.length + 1 + width lines := by
  unfold width
  rw [List.map_cons, List.sum_cons]

@[simp] theorem width_append (lines lines' : List (List Char)) :
    width (lines ++ lines') = width lines + width lines' := by
  unfold width
  rw [List.map_append, List.sum_append]

theorem splitOn_cons_break (text : List Char) : ('\n' :: text).splitOn '\n' = [] :: text.splitOn '\n' := by
  rw [List.splitOn_cons_eq_if_modifyHead]
  rfl

/-- A character that is no break belongs to the first line. -/
theorem splitOn_cons_other {c : Char} (hc : c ≠ '\n') {text line : List Char} {lines : List (List Char)}
    (h : text.splitOn '\n' = line :: lines) : (c :: text).splitOn '\n' = (c :: line) :: lines := by
  rw [List.splitOn_cons_eq_if_modifyHead, if_neg (by simpa using hc), h]
  rfl

/-- The last break is missing. -/
theorem width_splitOn (text : List Char) : width (text.splitOn '\n') = text.length + 1 := by
  induction text with
  | nil => rfl
  | cons c text ih =>
    by_cases hc : c = '\n'
    · rw [hc, splitOn_cons_break, width_cons, ih, List.length_nil, List.length_cons]
      omega
    · obtain ⟨line, lines, hlines⟩ := List.exists_cons_of_ne_nil (List.splitOn_ne_nil '\n' text)
      rw [splitOn_cons_other hc hlines, width_cons, List.length_cons, List.length_cons]
      rw [hlines, width_cons] at ih
      omega

/-- A position cuts one line. -/
theorem splitOn_at (text : List Char) {n : Nat} (hn : n ≤ text.length) :
    ∃ before here there after, text.splitOn '\n' = before ++ (here ++ there) :: after ∧
      (text.take n).splitOn '\n' = before ++ [here] ∧ (text.drop n).splitOn '\n' = there :: after ∧
      n = width before + here.length := by
  induction text generalizing n with
  | nil =>
    have hzero : n = 0 := Nat.le_zero.mp hn
    subst hzero
    exact ⟨[], [], [], [], rfl, rfl, rfl, rfl⟩
  | cons c text ih =>
    cases n with
    | zero =>
      obtain ⟨line, lines, hlines⟩ := List.exists_cons_of_ne_nil (List.splitOn_ne_nil '\n' (c :: text))
      exact ⟨[], [], line, lines, hlines, rfl, hlines, rfl⟩
    | succ n =>
      obtain ⟨before, here, there, after, hall, htake, hdrop, hwidth⟩ := ih (Nat.le_of_succ_le_succ hn)
      rw [List.take_succ_cons, List.drop_succ_cons]
      by_cases hc : c = '\n'
      · subst hc
        refine ⟨[] :: before, here, there, after, ?_, ?_, hdrop, ?_⟩
        · rw [splitOn_cons_break, hall]
          rfl
        · rw [splitOn_cons_break, htake]
          rfl
        · rw [width_cons, List.length_nil]
          omega
      · cases before with
        | nil =>
          refine ⟨[], c :: here, there, after, ?_, ?_, hdrop, ?_⟩
          · exact splitOn_cons_other hc hall
          · exact splitOn_cons_other hc htake
          · rw [width_nil] at hwidth ⊢
            rw [List.length_cons]
            omega
        | cons line before =>
          refine ⟨(c :: line) :: before, here, there, after, ?_, ?_, hdrop, ?_⟩
          · exact splitOn_cons_other hc hall
          · exact splitOn_cons_other hc htake
          · rw [width_cons] at hwidth ⊢
            rw [List.length_cons]
            omega

/-- Behind some of the lines are the others. -/
theorem splitOn_drop_width {text : List Char} {lines lines' : List (List Char)}
    (h : text.splitOn '\n' = lines ++ lines') (hne : lines' ≠ []) :
    (text.drop (width lines)).splitOn '\n' = lines' := by
  induction text generalizing lines with
  | nil =>
    cases lines with
    | nil => exact h
    | cons line lines =>
      have hnil : lines ++ lines' = [] := (List.cons.inj h).2.symm
      exact absurd (List.append_eq_nil_iff.mp hnil).2 hne
  | cons c text ih =>
    cases lines with
    | nil => exact h
    | cons line lines =>
      by_cases hc : c = '\n'
      · rw [hc, splitOn_cons_break] at h
        have hline : [] = line := (List.cons.inj h).1
        have hdrop : width (line :: lines) = width lines + 1 := by
          rw [width_cons, ← hline, List.length_nil]
          omega
        rw [hdrop, List.drop_succ_cons]
        exact ih (List.cons.inj h).2
      · obtain ⟨first, rest, hrest⟩ := List.exists_cons_of_ne_nil (List.splitOn_ne_nil '\n' text)
        rw [splitOn_cons_other hc hrest] at h
        have hline : c :: first = line := (List.cons.inj h).1
        have hdrop : width (line :: lines) = width (first :: lines) + 1 := by
          rw [width_cons, width_cons, ← hline, List.length_cons]
          omega
        rw [hdrop, List.drop_succ_cons]
        apply ih
        rw [hrest, (List.cons.inj h).2]
        rfl

end TextLines
