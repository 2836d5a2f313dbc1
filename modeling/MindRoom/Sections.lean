import MindRoom.Mapping

/-! # Mappings of mappings

A section keeps its records under two keys, an outer one and an inner one, and holds no empty
inner mapping for long: dropping the last record of an outer key drops the outer key. It is
known by the record it looks up.
-/

/-- The items whose value satisfies `p`. -/
def Mapping.keepValues {κ α : Type*} (m : Mapping κ α) (p : α → Prop) [DecidablePred p] :
    Mapping κ α :=
  m.delete fun item => ¬ p item.value

@[simp] theorem Mapping.value?_keepValues {κ α : Type*} [DecidableEq κ] {m : Mapping κ α}
    {p : α → Prop} [DecidablePred p] {k : κ} : (m.keepValues p).value? k = (m.value? k).filter (p ·) := by
  unfold Mapping.value? Mapping.keepValues
  rw [Table.get?_delete]
  cases m.get? k with
  | none => rfl
  | some item =>
    rw [Option.filter_some, Option.map_some, Option.filter_some]
    by_cases hp : p item.value <;> simp [hp]

theorem Mapping.value?_of_rows_nil {κ α : Type*} [DecidableEq κ] {m : Mapping κ α}
    (h : m.rows = []) {k : κ} : m.value? k = none := by
  have hm : m = ∅ := Table.eq_empty_iff.mpr fun item hitem => by
    rw [Table.mem_def, h] at hitem
    exact absurd hitem List.not_mem_nil
  rw [hm, value?_empty]

/-- Records under an outer and an inner key. -/
abbrev Mapping.Section (κ κ' α : Type*) := Mapping κ (Mapping κ' α)

namespace Mapping.Section

variable {κ κ' α : Type*} [DecidableEq κ] [DecidableEq κ']

/-- `s[k][k']`, if there is such a record. -/
def record? (s : Mapping.Section κ κ' α) (k : κ) (k' : κ') : Option α :=
  (s.value? k).bind (·.value? k')

/-- `s.setdefault(k, {})[k'] = v`. -/
def put (s : Mapping.Section κ κ' α) (k : κ) (k' : κ') (v : α) : Mapping.Section κ κ' α :=
  s.set k (((s.value? k).getD ∅).set k' v)

/-- `s[k].pop(k')`, and `s.pop(k)` when nothing is left of it. -/
def drop (s : Mapping.Section κ κ' α) (k : κ) (k' : κ') : Mapping.Section κ κ' α :=
  match s.value? k with
  | none => s
  | some records =>
    if (records.pop k').rows = [] then s.pop k else s.set k (records.pop k')

/-- The records that satisfy `p`, and the outer keys that still have one. -/
def prune (s : Mapping.Section κ κ' α) (p : α → Prop) [DecidablePred p] : Mapping.Section κ κ' α :=
  Mapping.keepValues (s.mapValues fun _ records => records.keepValues p) (·.rows ≠ [])

@[simp] theorem record?_empty {k : κ} {k' : κ'} : (∅ : Mapping.Section κ κ' α).record? k k' = none := rfl

theorem record?_put {s : Mapping.Section κ κ' α} {k l : κ} {k' l' : κ'} {v : α} :
    (s.put k k' v).record? l l' = if k = l ∧ k' = l' then some v else s.record? l l' := by
  unfold record? put
  rw [value?_set]
  by_cases hk : k = l
  · subst hk
    rw [if_pos rfl, Option.bind_some, value?_set]
    by_cases hk' : k' = l'
    · rw [if_pos hk', if_pos ⟨rfl, hk'⟩]
    · rw [if_neg hk', if_neg (fun h => hk' h.2)]
      cases s.value? k with
      | none => rfl
      | some records => rfl
  · rw [if_neg hk, if_neg (fun h => hk h.1)]

@[simp] theorem record?_put_self {s : Mapping.Section κ κ' α} {k : κ} {k' : κ'} {v : α} :
    (s.put k k' v).record? k k' = some v := by
  rw [record?_put, if_pos ⟨rfl, rfl⟩]

theorem record?_drop {s : Mapping.Section κ κ' α} {k l : κ} {k' l' : κ'} :
    (s.drop k k').record? l l' = if k = l ∧ k' = l' then none else s.record? l l' := by
  unfold drop
  cases hs : s.value? k with
  | none =>
    by_cases h : k = l ∧ k' = l'
    · rcases h with ⟨rfl, rfl⟩
      simp [record?, hs]
    · rw [if_neg h]
  | some records =>
    have hinner : ((some (records.pop k')).bind (·.value? l')) =
        if k' = l' then none else records.value? l' := by
      rw [Option.bind_some, value?_pop]
      by_cases hk' : k' = l'
      · rw [if_pos hk', if_pos hk'.symm]
      · rw [if_neg hk', if_neg (Ne.symm hk')]
    dsimp only
    by_cases hk : k = l
    · subst hk
      have hpopped : record? (if (records.pop k').rows = [] then s.pop k
          else s.set k (records.pop k')) k l' = (some (records.pop k')).bind (·.value? l') := by
        by_cases hempty : (records.pop k').rows = []
        · rw [if_pos hempty, Option.bind_some, value?_of_rows_nil hempty]
          simp [record?]
        · rw [if_neg hempty]
          simp [record?]
      rw [hpopped, hinner]
      by_cases hk' : k' = l'
      · rw [if_pos hk', if_pos ⟨rfl, hk'⟩]
      · rw [if_neg hk', if_neg (fun h => hk' h.2)]
        simp [record?, hs]
    · have hne : ¬ (k = l ∧ k' = l') := fun h => hk h.1
      rw [if_neg hne]
      by_cases hempty : (records.pop k').rows = []
      · rw [if_pos hempty]
        unfold record?
        rw [value?_pop, if_neg (Ne.symm hk)]
      · rw [if_neg hempty]
        unfold record?
        rw [value?_set, if_neg hk]

/-- A pruned section looks up the records that satisfy the predicate. -/
@[simp] theorem record?_prune {s : Mapping.Section κ κ' α} {p : α → Prop} [DecidablePred p]
    {k : κ} {k' : κ'} : (s.prune p).record? k k' = (s.record? k k').filter (p ·) := by
  unfold record? prune
  rw [value?_keepValues, value?_mapValues]
  cases s.value? k with
  | none => rfl
  | some records =>
    rw [Option.bind_some, ← value?_keepValues, Option.map_some, Option.filter_some]
    by_cases hrows : (records.keepValues p).rows = []
    · rw [value?_of_rows_nil hrows]
      simp [hrows]
    · simp [hrows]

end Mapping.Section
