import MindRoom.Mapping

/-! # Parts of a mapping

A part of a mapping is one whose items are some of its items, in the same order. A comprehension
over the keys of a mapping gives back every part of it.
-/

namespace Mapping

variable {κ α : Type*} [DecidableEq κ]

omit [DecidableEq κ] in
theorem ext_rows {m m' : Mapping κ α} (h : m.rows = m'.rows) : m = m' := by
  cases m
  cases m'
  cases h
  rfl

/-- The items of `m` are some of those of `m'`, in the same order. -/
def Part (m m' : Mapping κ α) : Prop := m.rows.Sublist m'.rows

omit [DecidableEq κ] in
theorem Part.refl (m : Mapping κ α) : Part m m := List.Sublist.refl _

omit [DecidableEq κ] in
theorem Part.trans {a b c : Mapping κ α} (h : Part a b) (h' : Part b c) : Part a c :=
  List.Sublist.trans h h'

omit [DecidableEq κ] in
theorem Part.keys {m m' : Mapping κ α} (h : Part m m') : m.keys.Sublist m'.keys :=
  List.Sublist.map _ h

theorem Part.value? {m m' : Mapping κ α} (h : Part m m') {k : κ} {v : α}
    (hk : m.value? k = some v) : m'.value? k = some v := by
  rw [value?_eq_some] at hk ⊢
  exact List.Sublist.mem hk h

omit [DecidableEq κ] in
theorem rows_keep (m : Mapping κ α) (p : κ → Prop) [DecidablePred p] :
    (m.keep p).rows = m.rows.filter fun item => decide (p item.key) := by
  unfold keep Table.delete
  simp only [not_not]

omit [DecidableEq κ] in
theorem keep_part (m : Mapping κ α) (p : κ → Prop) [DecidablePred p] : Part (m.keep p) m := by
  unfold Part
  rw [rows_keep]
  exact List.filter_sublist

theorem pop_part (m : Mapping κ α) (k : κ) : Part (m.pop k) m := by
  unfold Part pop Table.delete
  exact List.filter_sublist

/-- A part without one of the keys is not changed by taking it out. -/
theorem pop_eq_self {m : Mapping κ α} {k : κ} (h : m.value? k = none) : m.pop k = m := by
  apply ext_rows
  unfold pop Table.delete
  apply List.filter_eq_self.mpr
  intro item hitem
  have hne : item.key ≠ k := by
    intro hkey
    have hsome : m.value? k = some item.value := by
      rw [value?_eq_some, ← hkey]
      exact hitem
    rw [h] at hsome
    cases hsome
  simpa using hne

omit [DecidableEq κ] in
/-- A part all of whose keys are kept is not changed. -/
theorem keep_eq_self {m : Mapping κ α} {p : κ → Prop} [DecidablePred p]
    (h : ∀ item ∈ m.rows, p item.key) : m.keep p = m := by
  apply ext_rows
  rw [rows_keep]
  apply List.filter_eq_self.mpr
  intro item hitem
  exact decide_eq_true (h item hitem)

/-- A comprehension passes over the keys it computes nothing for. -/
theorem collect_filter (keys : List κ) (f : κ → Option α) :
    collect keys f = collect (keys.filter fun k => (f k).isSome) f := by
  unfold collect
  generalize (∅ : Mapping κ α) = m
  induction keys generalizing m with
  | nil => rfl
  | cons k keys ih =>
    rw [List.foldl_cons, List.filter_cons]
    cases hk : f k with
    | none => exact ih m
    | some v =>
      simp only [Option.isSome_some, if_true, List.foldl_cons, hk]
      exact ih _

/-- The keys of a comprehension are some of its list of keys. -/
theorem keys_collect {keys : List κ} (f : κ → Option α) (h : keys.Nodup) : (collect keys f).keys.Sublist keys := by
  let item : κ → List (Item κ α) := fun k => (f k).toList.map (Item.mk k)
  have hitems : (keys.flatMap item).map (·.key) = keys.filter fun k => (f k).isSome := by
    clear h
    induction keys with
    | nil => rfl
    | cons k keys ih =>
      rw [List.flatMap_cons, List.map_append, ih, List.filter_cons]
      cases hk : f k <;> simp [item, hk]
  have hvalue : ∀ i ∈ keys.flatMap item, f i.key = some i.value := by
    intro i hi
    obtain ⟨k, _, hi⟩ := List.mem_flatMap.mp hi
    obtain ⟨v, hv, rfl⟩ := List.mem_map.mp hi
    exact Option.mem_toList.mp hv
  have hrows : (collect keys f).rows = keys.flatMap item := by
    rw [collect_filter, ← hitems]
    unfold collect
    rw [rows_foldl_collect _ hvalue fun _ _ => rfl]
    · rfl
    · rw [hitems]
      exact h.filter _
  unfold Mapping.keys
  rw [hrows, hitems]
  exact List.filter_sublist

theorem filter_mem_of_sublist {l keys : List κ} (h : l.Sublist keys) (hkeys : keys.Nodup) :
    keys.filter (· ∈ l) = l := by
  induction h with
  | slnil => rfl
  | @cons l keys a h ih =>
    rw [List.nodup_cons] at hkeys
    rw [List.filter_cons, if_neg, ih hkeys.2]
    simpa using fun ha => hkeys.1 (h.mem ha)
  | @cons_cons l keys a h ih =>
    rw [List.nodup_cons] at hkeys
    rw [List.filter_cons, if_pos (by simp), List.cons.injEq]
    refine ⟨rfl, ?_⟩
    refine Eq.trans (List.filter_congr fun b hb => ?_) (ih hkeys.2)
    have hne : b ≠ a := fun hba => hkeys.1 (hba ▸ hb)
    simp [hne]

/-- A part of a comprehension is the comprehension over its own values. -/
theorem collect_part {keys : List κ} {f : κ → Option α} {m : Mapping κ α} (hkeys : keys.Nodup)
    (h : Part m (collect keys f)) : collect keys m.value? = m := by
  have hsub : m.keys.Sublist keys := h.keys.trans (keys_collect f hkeys)
  have hfilter : keys.filter (fun k => (m.value? k).isSome) = m.keys := by
    refine Eq.trans (List.filter_congr fun k _ => ?_) (filter_mem_of_sublist hsub hkeys)
    rw [Bool.eq_iff_iff, decide_eq_true_iff, mem_keys, Option.isSome_iff_exists]
  rw [collect_filter, hfilter]
  apply collect_keys
  intro item hitem
  rw [value?_eq_some]
  exact hitem

/-! ## A join that changes nothing -/

/-- Setting a key to what it already is changes nothing. -/
theorem set_eq_self {m : Mapping κ α} {k : κ} {v : α} (h : m.value? k = some v) : m.set k v = m := by
  have hmem : (⟨k, v⟩ : Item κ α) ∈ m.rows := value?_eq_some.mp h
  have hthere : key (⟨k, v⟩ : Item κ α) ∈ m.rows.map key := List.mem_map_of_mem hmem
  apply ext_rows
  unfold set Table.upsert
  rw [if_pos hthere]
  unfold Table.update
  refine (List.map_congr_left fun item hitem => ?_).trans (List.map_id _)
  split
  · next hkey =>
    have hitem' : item = ⟨k, v⟩ := List.inj_on_of_nodup_map m.primaryKey hitem hmem hkey.1
    rw [hitem']
    rfl
  · rfl

/-- A join in which every key is already what it would be joined to changes nothing. -/
theorem joinWith_eq_self {m m' : Mapping κ α} {f : α → Option α → α}
    (h : ∀ item ∈ m'.rows, m.value? item.key = some (f item.value (m.value? item.key))) : m.joinWith f m' = m := by
  unfold joinWith
  generalize m'.rows = l at h
  induction l with
  | nil => rfl
  | cons item l ih =>
    rw [List.foldl_cons, set_eq_self (h item List.mem_cons_self)]
    exact ih fun item' hitem' => h item' (List.mem_cons_of_mem _ hitem')

theorem setdefault_eq_self {m : Mapping κ α} {k : κ} {v v' : α} (h : m.value? k = some v') : m.setdefault k v = m := by
  have hthere : key (⟨k, v⟩ : Item κ α) ∈ m.rows.map key :=
    List.mem_map.mpr ⟨⟨k, v'⟩, value?_eq_some.mp h, rfl⟩
  unfold setdefault Table.insertOrIgnore
  rw [dif_pos hthere]

end Mapping
