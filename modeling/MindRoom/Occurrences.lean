import Mathlib.Data.List.Basic

/-! # Occurrences of a piece in a text

Searching a text from the left. A search that goes on behind each occurrence it finds counts the occurrences that do
not overlap: it finds a single one exactly if there is an occurrence and none lies wholly behind another.
-/

namespace MindRoom.Occurrences

variable {α : Type} [DecidableEq α]

def OccursAt (piece text : List α) (p : Nat) : Prop := p ≤ text.length ∧ piece <+: text.drop p

instance (piece text : List α) (p : Nat) : Decidable (OccursAt piece text p) :=
  inferInstanceAs (Decidable (p ≤ text.length ∧ piece <+: text.drop p))

/-- The first position from `pos` on at which the piece stands. -/
def find (piece text : List α) (pos : Nat) : Option Nat :=
  (List.range' pos (text.length + 1 - pos)).find? fun p => piece.isPrefixOf (text.drop p)

/-- The positions found from `pos` on, each search going on behind the piece found last. -/
def scan (piece text : List α) : Nat → Nat → List Nat
  | 0, _ => []
  | fuel + 1, pos => match find piece text pos with
      | none => []
      | some p => p :: scan piece text fuel (p + piece.length)

/-- Two occurrences that do not overlap. -/
def Separated (piece text : List α) : Prop :=
  ∃ p q, p + piece.length ≤ q ∧ OccursAt piece text p ∧ OccursAt piece text q

def Unique (piece text : List α) : Prop := ∃ p, OccursAt piece text p ∧ ∀ q, OccursAt piece text q → q = p

/-- Of several occurrences, two do not overlap. -/
def Apart (piece text : List α) : Prop :=
  ∀ p q, p < q → OccursAt piece text p → OccursAt piece text q → Separated piece text

variable {piece text : List α} {p q pos fuel : Nat}

omit [DecidableEq α] in
theorem OccursAt.fits (h : OccursAt piece text p) : p + piece.length ≤ text.length := by
  obtain ⟨hp, hpiece⟩ := h
  have hle := hpiece.length_le
  rw [List.length_drop] at hle
  omega

theorem find_eq_some : find piece text pos = some p ↔
    pos ≤ p ∧ OccursAt piece text p ∧ ∀ q, pos ≤ q → q < p → ¬OccursAt piece text q := by
  rw [find, List.find?_range'_eq_some, List.mem_range'_1]
  constructor
  · rintro ⟨hpiece, ⟨hpos, hlt⟩, hfirst⟩
    refine ⟨hpos, ⟨by omega, List.isPrefixOf_iff_prefix.mp hpiece⟩, fun q hq hqp hoccurs => ?_⟩
    have hnot := hfirst q hq hqp
    rw [List.isPrefixOf_iff_prefix.mpr hoccurs.2] at hnot
    cases hnot
  · rintro ⟨hpos, ⟨hp, hpiece⟩, hfirst⟩
    refine ⟨List.isPrefixOf_iff_prefix.mpr hpiece, ⟨hpos, by omega⟩, fun q hq hqp => ?_⟩
    rw [Bool.not_eq_true', ← Bool.not_eq_true, List.isPrefixOf_iff_prefix]
    exact fun hpiece => hfirst q hq hqp ⟨by omega, hpiece⟩

theorem find_eq_none : find piece text pos = none ↔ ∀ q, pos ≤ q → ¬OccursAt piece text q := by
  constructor
  · intro hnone q hq hoccurs
    rw [find, List.find?_range'_eq_none] at hnone
    have hnot := hnone q hq (by have hle := hoccurs.1; omega)
    rw [List.isPrefixOf_iff_prefix.mpr hoccurs.2] at hnot
    cases hnot
  · intro hnone
    cases hfind : find piece text pos with
    | none => rfl
    | some p =>
      obtain ⟨hpos, hoccurs, -⟩ := find_eq_some.mp hfind
      exact absurd hoccurs (hnone p hpos)

/-- Nothing is found exactly if there is nothing. -/
theorem scan_eq_nil (hfuel : text.length < pos + fuel) :
    scan piece text fuel pos = [] ↔ ∀ q, pos ≤ q → ¬OccursAt piece text q := by
  cases fuel with
  | zero =>
    refine ⟨fun _ q hq hoccurs => ?_, fun _ => rfl⟩
    have hle := hoccurs.1
    omega
  | succ fuel =>
    rw [scan, ← find_eq_none]
    cases find piece text pos with
    | none => exact ⟨fun _ => rfl, fun _ => rfl⟩
    | some p => exact ⟨fun h => (List.cons_ne_nil _ _ h).elim, fun h => (Option.some_ne_none _ h).elim⟩

/-- One position is found exactly if it is the first one and none lies behind the piece there. -/
theorem scan_eq_singleton (hpiece : piece ≠ []) (hfuel : text.length < pos + fuel) : scan piece text fuel pos = [p] ↔
      find piece text pos = some p ∧ ∀ q, p + piece.length ≤ q → ¬OccursAt piece text q := by
  have hlength := List.length_pos_iff.mpr hpiece
  cases fuel with
  | zero =>
    refine ⟨fun h => (List.cons_ne_nil _ _ h.symm).elim, fun hone => ?_⟩
    obtain ⟨hpos, hoccurs, -⟩ := find_eq_some.mp hone.1
    have hfits := hoccurs.fits
    omega
  | succ fuel =>
    rw [scan]
    cases hfind : find piece text pos with
    | none => exact ⟨fun h => (List.cons_ne_nil _ _ h.symm).elim, fun h => (Option.some_ne_none _ h.1.symm).elim⟩
    | some first =>
      have hpos := (find_eq_some.mp hfind).1
      have hrest : scan piece text fuel (first + piece.length) = [] ↔ _ := scan_eq_nil (by omega)
      dsimp only
      rw [List.cons.injEq, Option.some.injEq, hrest]
      constructor
      · rintro ⟨rfl, hnone⟩
        exact ⟨rfl, hnone⟩
      · rintro ⟨rfl, hnone⟩
        exact ⟨rfl, hnone⟩

/-- Behind the first occurrence there is one exactly if two do not overlap. -/
theorem separated_iff (hfind : find piece text 0 = some p) :
    Separated piece text ↔ ∃ q, p + piece.length ≤ q ∧ OccursAt piece text q := by
  obtain ⟨-, hoccurs, hfirst⟩ := find_eq_some.mp hfind
  constructor
  · rintro ⟨p', q, hle, hp', hq⟩
    have hpp' : p ≤ p' := by
      by_contra hlt
      exact hfirst p' (Nat.zero_le _) (by omega) hp'
    exact ⟨q, by omega, hq⟩
  · rintro ⟨q, hle, hq⟩
    exact ⟨p, q, hle, hoccurs, hq⟩

/-- A single position is found exactly if there is an occurrence and no two are separated. -/
theorem exists_scan_eq_singleton (hpiece : piece ≠ []) :
    (∃ p, scan piece text (text.length + 1) 0 = [p]) ↔ (∃ p, OccursAt piece text p) ∧ ¬Separated piece text := by
  have hscan : ∀ p, scan piece text (text.length + 1) 0 = [p] ↔ _ :=
    fun p => scan_eq_singleton hpiece (by omega)
  constructor
  · rintro ⟨p, hp⟩
    obtain ⟨hfind, hnone⟩ := (hscan p).mp hp
    refine ⟨⟨p, (find_eq_some.mp hfind).2.1⟩, ?_⟩
    rw [separated_iff hfind]
    rintro ⟨q, hle, hq⟩
    exact hnone q hle hq
  · rintro ⟨⟨q, hq⟩, hnot⟩
    cases hfind : find piece text 0 with
    | none => exact absurd hq (find_eq_none.mp hfind q (Nat.zero_le _))
    | some p =>
      rw [separated_iff hfind] at hnot
      exact ⟨p, (hscan p).mpr ⟨hfind, fun q hle hq => hnot ⟨q, hle, hq⟩⟩⟩

/-- What is found once occurs once, exactly if occurrences that overlap never stand alone. -/
theorem unique_iff_apart (hpiece : piece ≠ []) :
    ((∃ p, scan piece text (text.length + 1) 0 = [p]) → Unique piece text) ↔ Apart piece text := by
  rw [exists_scan_eq_singleton hpiece]
  constructor
  · intro hunique p q hlt hp hq
    by_contra hnot
    obtain ⟨first, -, hall⟩ := hunique ⟨⟨p, hp⟩, hnot⟩
    have hpfirst := hall p hp
    have hqfirst := hall q hq
    omega
  · rintro hapart ⟨⟨p, hp⟩, hnot⟩
    refine ⟨p, hp, fun q hq => ?_⟩
    rcases Nat.lt_trichotomy p q with hlt | heq | hgt
    · exact absurd (hapart p q hlt hp hq) hnot
    · exact heq.symm
    · exact absurd (hapart q p hgt hq hp) hnot

end MindRoom.Occurrences
