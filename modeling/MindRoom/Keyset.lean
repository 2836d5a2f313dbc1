import Mathlib

/-! # Keyset paging

Rows of distinct keys are read newest first in pages of a fixed size. A cursor is the key of the
last row of a full page, and the next page holds what is older than it. Following the cursors reads
every row once.
-/

namespace Keyset

section

variable {α κ : Type*} [LinearOrder κ] {key : α → κ} {l l' : List α} {a b : α}

/-- The order of a page: newest first. -/
def Newer (key : α → κ) (a b : α) : Prop := key b ≤ key a

instance : DecidableRel (Newer key) := fun _ _ => inferInstanceAs (Decidable (_ ≤ _))

instance : Std.Total (Newer key) := ⟨fun a b => le_total (key b) (key a)⟩

instance : IsTrans α (Newer key) := ⟨fun _ _ _ hab hbc => le_trans hbc hab⟩

/-- Newest first, no two rows of one key. -/
def Descending (key : α → κ) (l : List α) : Prop := l.Pairwise fun a b => key b < key a

def newest (key : α → κ) (l : List α) : List α := l.insertionSort (Newer key)

@[simp] theorem mem_newest : a ∈ newest key l ↔ a ∈ l := (List.perm_insertionSort (Newer key) l).mem_iff

theorem Descending.nodup (h : Descending key l) : l.Nodup := by
  refine List.Pairwise.imp ?_ h
  rintro a b hlt rfl
  exact lt_irrefl _ hlt

theorem Descending.map_nodup (h : Descending key l) : (l.map key).Nodup := by
  rw [List.Nodup, List.pairwise_map]
  exact List.Pairwise.imp (fun hlt => hlt.ne') h

theorem Descending.sublist (h : Descending key l) (hsub : l'.Sublist l) : Descending key l' :=
  List.Pairwise.sublist hsub h

/-- Two descending lists of the same rows are the same list. -/
theorem Descending.eq_of_mem (h : Descending key l) (h' : Descending key l') (hmem : ∀ a, a ∈ l ↔ a ∈ l') : l = l' := by
  have hperm : l.Perm l' := (List.perm_ext_iff_of_nodup h.nodup h'.nodup).mpr hmem
  apply hperm.eq_of_pairwise _ h h'
  intro a b _ _ hab hba
  exact absurd hab hba.asymm

theorem descending_newest (h : (l.map key).Nodup) : Descending key (newest key l) := by
  have hperm := List.perm_insertionSort (Newer key) l
  have hnodup : ((newest key l).map key).Nodup := (hperm.map key).nodup_iff.mpr h
  have hsorted : (newest key l).Pairwise (Newer key) := List.pairwise_insertionSort (Newer key) l
  rw [List.Nodup, List.pairwise_map] at hnodup
  exact (hsorted.and hnodup).imp fun h => lt_of_le_of_ne h.1 (Ne.symm h.2)

/-! ## One row more -/

variable [DecidableEq α]

/-- A row among others, if it is not there yet. -/
def merged (key : α → κ) (x : α) (l : List α) : List α :=
  if x ∈ l then l else l.orderedInsert (Newer key) x

theorem mem_merged {x : α} : a ∈ merged key x l ↔ a = x ∨ a ∈ l := by
  unfold merged
  split
  · next hx =>
    constructor
    · exact .inr
    · rintro (rfl | h)
      · exact hx
      · exact h
  · rw [(List.perm_orderedInsert (Newer key) x l).mem_iff, List.mem_cons]

/-- The keys of a list stay distinct when a row is merged whose key no other row has. -/
theorem descending_merged {x : α} (h : Descending key l) (hx : ∀ a ∈ l, key a = key x → a = x) :
    Descending key (merged key x l) := by
  unfold merged
  split
  · exact h
  · next hnew =>
    have hperm := List.perm_orderedInsert (Newer key) x l
    have hnodup : ((l.orderedInsert (Newer key) x).map key).Nodup := by
      rw [(hperm.map key).nodup_iff, List.map_cons, List.nodup_cons, List.mem_map]
      refine ⟨?_, h.map_nodup⟩
      rintro ⟨a, ha, heq⟩
      exact hnew (hx a ha heq ▸ ha)
    have hsorted : (l.orderedInsert (Newer key) x).Pairwise (Newer key) :=
      List.Pairwise.orderedInsert x l (h.imp le_of_lt)
    rw [List.Nodup, List.pairwise_map] at hnodup
    exact (hsorted.and hnodup).imp fun h => lt_of_le_of_ne h.1 (Ne.symm h.2)

/-- The first rows with one more are known from the first rows without it. -/
theorem take_merged {x : α} {n : Nat} (h : Descending key l) (hx : ∀ a ∈ l, key a = key x → a = x) :
    (merged key x l).take n =
      if x ∈ l.take n then l.take n else ((l.take n).orderedInsert (Newer key) x).take n := by
  induction l generalizing n with
  | nil => simp [merged]
  | cons y l ih =>
    cases n with
    | zero => simp
    | succ n =>
      rcases List.pairwise_cons.mp h with ⟨hy, hl⟩
      have hx' : ∀ a ∈ l, key a = key x → a = x := fun a ha => hx a (List.mem_cons_of_mem _ ha)
      rw [List.take_succ_cons]
      by_cases hxy : x = y
      · subst hxy
        rw [merged, if_pos List.mem_cons_self, if_pos List.mem_cons_self, List.take_succ_cons]
      · by_cases hnewer : Newer key x y
        · -- the row comes first, and is not among the older ones
          have hlt : key y < key x :=
            lt_of_le_of_ne hnewer fun heq => hxy (hx y List.mem_cons_self heq).symm
          have hnot : x ∉ y :: l := by
            rw [List.mem_cons, not_or]
            exact ⟨hxy, fun hmem => lt_asymm hlt (hy x hmem)⟩
          have hnot' : x ∉ y :: l.take n := fun hmem =>
            hnot (by
              rcases List.mem_cons.mp hmem with rfl | hmem
              · exact List.mem_cons_self
              · exact List.mem_cons_of_mem _ (List.mem_of_mem_take hmem))
          rw [merged, if_neg hnot, if_neg hnot', List.orderedInsert_cons, if_pos hnewer,
            List.orderedInsert_cons, if_pos hnewer, List.take_succ_cons, List.take_succ_cons]
          cases n with
          | zero => simp
          | succ n => rw [List.take_succ_cons, List.take_succ_cons, List.take_take, min_eq_left (by omega)]
        · have hstep : merged key x (y :: l) = y :: merged key x l := by
            unfold merged
            by_cases hmem : x ∈ l
            · rw [if_pos hmem, if_pos (List.mem_cons_of_mem _ hmem)]
            · have hnot : x ∉ y :: l := by
                rw [List.mem_cons, not_or]
                exact ⟨hxy, hmem⟩
              rw [if_neg hmem, if_neg hnot, List.orderedInsert_cons, if_neg hnewer]
          have hmem_iff : x ∈ y :: l.take n ↔ x ∈ l.take n := by
            rw [List.mem_cons]
            exact or_iff_right hxy
          rw [hstep, List.take_succ_cons, ih hl hx']
          by_cases hmem : x ∈ l.take n
          · rw [if_pos hmem, if_pos (hmem_iff.mpr hmem)]
          · rw [if_neg hmem, if_neg fun h => hmem (hmem_iff.mp h), List.orderedInsert_cons,
              if_neg hnewer, List.take_succ_cons]

end

/-! ## Pages -/

variable {α γ κ ε β : Type*} [LinearOrder κ] {position : γ → κ} {cursor : α → γ} {limit fuel : Nat}
  {l : List α} {a : α} {before : Option γ}

def older (position : γ → κ) (cursor : α → γ) (before : Option γ) (l : List α) : List α :=
  l.filter fun a => ∀ c ∈ before, position (cursor a) < position c

/-- One page: the newest rows older than the cursor. -/
def page (position : γ → κ) (cursor : α → γ) (limit : Nat) (before : Option γ) (l : List α) : List α :=
  (older position cursor before l).take limit

/-- The cursor of a full page is its last row's. -/
def next (cursor : α → γ) (limit : Nat) (rows : List α) : Option γ :=
  if rows.length = limit then rows.getLast?.map cursor else none

/-- The pages read by following the cursors, as long as there is fuel. -/
def follow (read : Option γ → Except ε β) (nextCursor : β → Option γ) : Nat → Option γ → Except ε (Option (List β))
  | 0, _ => pure none
  | fuel + 1, before => do
      let page ← read before
      match nextCursor page with
      | none => return some [page]
      | some c =>
        let rest ← follow read nextCursor fuel (some c)
        return rest.map (page :: ·)

section

variable {read : Option γ → Except ε β} {nextCursor : β → Option γ} {p : β} {ps : List β} {c : γ}

theorem follow_last (hpage : read before = .ok p) (hnone : nextCursor p = none) :
    follow read nextCursor (fuel + 1) before = .ok (some [p]) := by
  unfold follow
  rw [hpage]
  change (match nextCursor p with | none => _ | some c => _) = _
  rw [hnone]
  rfl

theorem follow_more (hpage : read before = .ok p) (hnext : nextCursor p = some c)
    (hrest : follow read nextCursor fuel (some c) = .ok (some ps)) :
    follow read nextCursor (fuel + 1) before = .ok (some (p :: ps)) := by
  unfold follow
  rw [hpage]
  change (match nextCursor p with | none => _ | some c => _) = _
  rw [hnext]
  change (follow read nextCursor fuel (some c) >>= _) = _
  rw [hrest]
  rfl

end

theorem mem_older : a ∈ older position cursor before l ↔ a ∈ l ∧ ∀ c ∈ before, position (cursor a) < position c := by
  unfold older
  rw [List.mem_filter, decide_eq_true_eq]

@[simp] theorem older_none : older position cursor none l = l := by
  unfold older
  rw [List.filter_eq_self]
  simp

theorem Descending.older (h : Descending (fun a => position (cursor a)) l) :
    Descending (fun a => position (cursor a)) (older position cursor before l) :=
  h.sublist List.filter_sublist

/-- What is older than the last row of a full page is what the page left over. -/
theorem older_last (h : Descending (fun a => position (cursor a)) l)
    (hlast : (page position cursor limit before l).getLast? = some a) :
    older position cursor (some (cursor a)) l = (older position cursor before l).drop limit := by
  have hX : Descending (fun a => position (cursor a)) (older position cursor before l) := h.older
  have hsplit := List.take_append_drop limit (older position cursor before l)
  rw [← hsplit] at hX
  rcases List.pairwise_append.mp hX with ⟨hpage, hrest, hcross⟩
  have hmem : a ∈ (older position cursor before l).take limit := List.mem_of_getLast? hlast
  apply h.older.eq_of_mem hrest
  intro b
  constructor
  · intro hb
    rcases mem_older.mp hb with ⟨hbl, hlt⟩
    have hlt : position (cursor b) < position (cursor a) := hlt (cursor a) rfl
    have hbX : b ∈ older position cursor before l := by
      refine mem_older.mpr ⟨hbl, fun c hc => hlt.trans ?_⟩
      exact (mem_older.mp (List.mem_of_mem_take hmem)).2 c hc
    rw [← hsplit, List.mem_append] at hbX
    refine hbX.resolve_left fun hbpage => ?_
    -- no row of the page is older than its last one
    rcases List.getLast?_eq_some_iff.mp hlast with ⟨front, hfront⟩
    unfold page at hfront
    rw [hfront] at hbpage hpage
    rcases List.mem_append.mp hbpage with hbfront | hbfront
    · exact lt_asymm hlt ((List.pairwise_append.mp hpage).2.2 b hbfront a List.mem_cons_self)
    · rw [List.mem_singleton] at hbfront
      exact lt_irrefl _ (hbfront ▸ hlt)
  · intro hb
    refine mem_older.mpr ⟨(mem_older.mp (List.mem_of_mem_drop hb)).1, ?_⟩
    rintro c hc
    obtain rfl := Option.some.inj hc
    exact hcross a hmem b hb

/-- Following the cursors reads every row that is older than the first one, page by page. -/
theorem follow_pages {read : Option γ → Except ε β} {nextCursor : β → Option γ} {build : List α → β}
    (h : Descending (fun a => position (cursor a)) l) (hlimit : 0 < limit)
    (hread : ∀ before, read before = .ok (build (page position cursor limit before l)))
    (hnext : ∀ rows, nextCursor (build rows) = next cursor limit rows)
    (hfuel : (older position cursor before l).length < fuel) :
    ∃ pages : List (List α), follow read nextCursor fuel before = .ok (some (pages.map build)) ∧
      pages.flatten = older position cursor before l := by
  induction fuel generalizing before with
  | zero => omega
  | succ fuel ih =>
    cases hc : next cursor limit (page position cursor limit before l) with
    | none =>
      refine ⟨[page position cursor limit before l], follow_last (hread before) ((hnext _).trans hc), ?_⟩
      unfold next at hc
      have hshort : (page position cursor limit before l).length ≠ limit := by
        intro hfull
        rw [if_pos hfull, Option.map_eq_none_iff, List.getLast?_eq_none_iff] at hc
        rw [hc] at hfull
        exact hlimit.ne hfull
      unfold page at hshort ⊢
      rw [List.length_take] at hshort
      rw [List.flatten_singleton, List.take_of_length_le (by omega)]
    | some c =>
      have hfound := hc
      unfold next at hfound
      split at hfound
      · next hfull =>
        rcases Option.map_eq_some_iff.mp hfound with ⟨a, hlast, rfl⟩
        have hrest := older_last h hlast
        have hlength : (older position cursor (some (cursor a)) l).length < fuel := by
          rw [hrest, List.length_drop]
          unfold page at hfull
          rw [List.length_take] at hfull
          omega
        rcases ih hlength with ⟨pages, hpages, hflatten⟩
        refine ⟨page position cursor limit before l :: pages, ?_, ?_⟩
        · exact follow_more (hread before) ((hnext _).trans hc) hpages
        · rw [List.flatten_cons, hflatten, hrest]
          exact List.take_append_drop limit _
      · cases hfound

end Keyset
