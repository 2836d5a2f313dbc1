import Mathlib.Data.Finset.Card
import Mathlib.Data.Finset.Erase
import Mathlib.Logic.Relation

/-! # Acyclic relations

A relation without cycles stays so when edges are added in front of it, and when the edges out of one element are
replaced by edges to elements that do not lead back to it. In a finite set every element leads to one without successors.
-/

namespace Precedence

open Relation

variable {α : Type*} {r : α → α → Prop} {a b t : α}

/-- No element leads back to itself. -/
def Acyclic (r : α → α → Prop) : Prop := ∀ a, ¬ TransGen r a a

theorem Acyclic.swap (h : Acyclic r) : Acyclic (Function.swap r) := fun a hcycle => h a (transGen_swap.mp hcycle)

/-- A set that is closed under the relation splits the cycles into those inside and those outside. -/
theorem acyclic_of_closed {p : α → Prop} (hclosed : ∀ a b, p a → r a b → p b)
    (hin : Acyclic fun a b => p a ∧ r a b) (hout : Acyclic fun a b => ¬ p b ∧ r a b) : Acyclic r := by
  intro a hcycle
  by_cases ha : p a
  · refine hin a ?_
    have hpath : ∀ b, TransGen r a b → p b ∧ TransGen (fun a b => p a ∧ r a b) a b := by
      intro b hab
      induction hab with
      | single hab => exact ⟨hclosed _ _ ha hab, .single ⟨ha, hab⟩⟩
      | tail _ hbc ih => exact ⟨hclosed _ _ ih.1 hbc, ih.2.tail ⟨ih.1, hbc⟩⟩
    exact (hpath a hcycle).2
  · refine hout a ?_
    have hpath : ∀ b, TransGen r b a → ¬ p b ∧ TransGen (fun a b => ¬ p b ∧ r a b) b a := by
      intro b hba
      induction hba using TransGen.head_induction_on with
      | single hba => exact ⟨fun hb => ha (hclosed _ _ hb hba), .single ⟨ha, hba⟩⟩
      | head hbc _ ih => exact ⟨fun hb => ih.1 (hclosed _ _ hb hbc), ih.2.head ⟨ih.1, hbc⟩⟩
    exact (hpath a hcycle).2

/-- The edges out of one element may be replaced by edges to elements that do not lead to it. -/
theorem Acyclic.redirect (h : Acyclic r) {r' : α → α → Prop} {s : α → Prop} (hkeep : ∀ a b, a ≠ t → r' a b → r a b)
    (hnew : ∀ b, r' t b → s b) (hs : ∀ b, s b → ¬ ReflTransGen r b t) : Acyclic r' := by
  have hback : ∀ b, ReflTransGen r' b t → ReflTransGen r b t := by
    intro b hpath
    induction hpath using ReflTransGen.head_induction_on with
    | refl => exact .refl
    | @head b c hbc _ ih =>
      by_cases hb : b = t
      · rw [hb]
      · exact ih.head (hkeep b c hb hbc)
  have hthrough : ∀ a b, TransGen r' a b → TransGen r a b ∨ ReflTransGen r' a t ∧ TransGen r' t b := by
    intro a b hpath
    induction hpath using TransGen.head_induction_on with
    | @single a hab =>
      by_cases ha : a = t
      · rw [ha] at hab ⊢
        exact .inr ⟨.refl, .single hab⟩
      · exact .inl (.single (hkeep a b ha hab))
    | @head a c hac hcb ih =>
      by_cases ha : a = t
      · rw [ha] at hac ⊢
        exact .inr ⟨.refl, .head hac hcb⟩
      · rcases ih with hpath | hpath
        · exact .inl (.head (hkeep a c ha hac) hpath)
        · exact .inr ⟨.head hac hpath.1, hpath.2⟩
  intro a hcycle
  rcases hthrough a a hcycle with hcycle | ⟨hat, hta⟩
  · exact h a hcycle
  · rcases TransGen.head'_iff.mp (hta.trans_left hat) with ⟨b, htb, hbt⟩
    exact hs b (hnew b htb) (hback b hbt)

/-- In a finite set every element leads to one that has no successor in the set. -/
theorem Acyclic.exists_sink [DecidableEq α] (h : Acyclic r) (s : Finset α) :
    ∀ a ∈ s, ∃ m ∈ s, ReflTransGen r a m ∧ ∀ b ∈ s, ¬ r m b := by
  induction s using Finset.strongInduction with
  | H s ih =>
    intro a ha
    by_cases hnext : ∃ b ∈ s, r a b
    · rcases hnext with ⟨b, hb, hab⟩
      have hne : b ≠ a := by
        rintro rfl
        exact h b (.single hab)
      rcases ih (s.erase a) (Finset.erase_ssubset ha) b (Finset.mem_erase.mpr ⟨hne, hb⟩) with ⟨m, hm, hbm, hsink⟩
      refine ⟨m, Finset.mem_of_mem_erase hm, hbm.head hab, fun c hc hmc => ?_⟩
      by_cases hca : c = a
      · rw [hca] at hmc
        exact h a ((TransGen.head' hab hbm).tail hmc)
      · exact hsink c (Finset.mem_erase.mpr ⟨hca, hc⟩) hmc
    · exact ⟨a, ha, .refl, fun b hb hab => hnext ⟨b, hb, hab⟩⟩

/-- A list in the order in which a search finishes: what follows an element is finished before it. -/
def Finished (next : α → List α) : List α → Prop
  | [] => True
  | a :: rest => a ∉ rest ∧ (∀ b ∈ next a, b ∈ rest) ∧ Finished next rest

/-- A list of finished elements leads to nothing else, and to no element twice. -/
theorem Finished.acyclic {next : α → List α} {finished : List α} (h : Finished next finished) :
    ∀ a ∈ finished, ∀ b, TransGen (fun a b => b ∈ next a) a b → b ∈ finished ∧ b ≠ a := by
  induction finished with
  | nil => exact fun a ha => absurd ha List.not_mem_nil
  | cons c rest ih =>
    intro a ha b hab
    rcases List.mem_cons.mp ha with rfl | hrest
    · rcases TransGen.head'_iff.mp hab with ⟨d, hd, hdb⟩
      have hb : b ∈ rest := by
        rcases reflTransGen_iff_eq_or_transGen.mp hdb with rfl | hdb
        · exact h.2.1 _ hd
        · exact (ih h.2.2 d (h.2.1 d hd) b hdb).1
      exact ⟨List.mem_cons_of_mem _ hb, fun heq => h.1 (heq ▸ hb)⟩
    · have hboth := ih h.2.2 a hrest b hab
      exact ⟨List.mem_cons_of_mem _ hboth.1, hboth.2⟩

end Precedence
