import MindRoom.Table

/-! # Ordered mappings

A mapping that keeps the order its keys were first set in, as the dictionaries of the host
language do: a table of items whose primary key is the item's key. Setting a key that is
there keeps its place, and a new key goes to the end. An operation is known by what it looks
up.
-/

structure Mapping.Item (κ α : Type*) where
  key : κ
  value : α
deriving DecidableEq

instance {κ α : Type*} : Keyed (Mapping.Item κ α) κ := ⟨Mapping.Item.key⟩

/-- The items of a mapping in insertion order, no two with one key. -/
abbrev Mapping (κ α : Type*) := Table (Mapping.Item κ α)

namespace Mapping

variable {κ α : Type*} [DecidableEq κ]

instance [DecidableEq α] : DecidableEq (Mapping κ α) := fun m m' =>
  decidable_of_iff (m.rows = m'.rows) ⟨fun h => by cases m; cases m'; cases h; rfl, fun h => h ▸ rfl⟩

/-- `m.get(k)`. -/
def value? (m : Mapping κ α) (k : κ) : Option α := (m.get? k).map (·.value)

/-- `m[k] = v`. -/
def set (m : Mapping κ α) (k : κ) (v : α) : Mapping κ α :=
  m.upsert ⟨k, v⟩ (fun _ => True) (fun item => { item with value := v })

def setdefault (m : Mapping κ α) (k : κ) (v : α) : Mapping κ α := m.insertOrIgnore ⟨k, v⟩

def pop (m : Mapping κ α) (k : κ) : Mapping κ α := m.delete (·.key = k)

/-- The items whose key satisfies `p`. -/
def keep (m : Mapping κ α) (p : κ → Prop) [DecidablePred p] : Mapping κ α :=
  m.delete (fun item => ¬ p item.key)

omit [DecidableEq κ] in
/-- Every value changed in place. -/
def mapValues (m : Mapping κ α) (f : κ → α → α) : Mapping κ α :=
  m.update (fun _ => True) (fun item => { item with value := f item.key item.value })

/-- `m.update(m')`. -/
def merge (m m' : Mapping κ α) : Mapping κ α :=
  m'.rows.foldl (fun m item => m.set item.key item.value) m

/-- `m[k] = f(v, m.get(k))`, for the items of `m'` in order. -/
def joinWith (m : Mapping κ α) (f : α → Option α → α) (m' : Mapping κ α) : Mapping κ α :=
  m'.rows.foldl (fun m item => m.set item.key (f item.value (m.value? item.key))) m

/-- `{k: v for k in keys if (v := f k) is not None}`. -/
def collect (keys : List κ) (f : κ → Option α) : Mapping κ α :=
  keys.foldl (fun m k => match f k with
    | some v => m.set k v
    | none => m) ∅

omit [DecidableEq κ] in
/-- `list(m)`. -/
def keys (m : Mapping κ α) : List κ := m.rows.map (·.key)

omit [DecidableEq κ] in
/-- `list(m.values())`. -/
def values (m : Mapping κ α) : List α := m.rows.map (·.value)

/-! ## Looking up -/

@[simp] theorem value?_empty {k : κ} : (∅ : Mapping κ α).value? k = none := rfl

variable {m : Mapping κ α} {f : κ → Option α}

theorem value?_eq_some {k : κ} {v : α} : m.value? k = some v ↔ ⟨k, v⟩ ∈ m := by
  constructor
  · intro h
    obtain ⟨item, hitem, rfl⟩ := Option.map_eq_some_iff.mp h
    obtain ⟨hmem, rfl⟩ := Table.get?_eq_some.mp hitem
    exact hmem
  · intro h
    have hitem : m.get? k = some ⟨k, v⟩ := Table.get?_eq_some.mpr ⟨h, rfl⟩
    rw [value?, hitem]
    rfl

theorem mem_keys {k : κ} : k ∈ m.keys ↔ ∃ v, m.value? k = some v := by
  simp only [keys, List.mem_map, value?_eq_some]
  constructor
  · rintro ⟨⟨k', v⟩, hitem, rfl⟩
    exact ⟨v, hitem⟩
  · rintro ⟨v, hitem⟩
    exact ⟨⟨k, v⟩, hitem, rfl⟩

theorem mem_values {v : α} : v ∈ m.values ↔ ∃ k, m.value? k = some v := by
  simp only [values, List.mem_map, value?_eq_some]
  constructor
  · rintro ⟨⟨k, v'⟩, hitem, rfl⟩
    exact ⟨k, hitem⟩
  · rintro ⟨k, hitem⟩
    exact ⟨⟨k, v⟩, hitem, rfl⟩

@[simp] theorem value?_set {m : Mapping κ α} {k k' : κ} {v : α} :
    (m.set k v).value? k' = if k = k' then some v else m.value? k' := by
  unfold value? set
  rw [Table.get?_upsert]
  change Option.map _ (if k = k' then _ else _) = _
  by_cases hk : k = k'
  · rw [if_pos hk, if_pos hk]
    cases m.get? k' <;> simp
  · rw [if_neg hk, if_neg hk]

@[simp] theorem value?_setdefault {m : Mapping κ α} {k k' : κ} {v : α} :
    (m.setdefault k v).value? k' = if k = k' then some ((m.value? k').getD v) else m.value? k' := by
  unfold value? setdefault
  rw [Table.get?_insertOrIgnore]
  change Option.map _ (if k = k' then _ else _) = _
  by_cases hk : k = k'
  · rw [if_pos hk, if_pos hk]
    cases m.get? k' <;> simp
  · rw [if_neg hk, if_neg hk]

@[simp] theorem value?_keep {m : Mapping κ α} {p : κ → Prop} [DecidablePred p] {k : κ} :
    (m.keep p).value? k = if p k then m.value? k else none := by
  unfold value? keep
  rw [Table.get?_delete]
  cases hitem : m.get? k with
  | none => simp
  | some item =>
    obtain ⟨_, rfl⟩ := Table.get?_eq_some.mp hitem
    change Option.map _ (Option.filter _ _) = if p item.key then _ else _
    by_cases hp : p item.key <;> simp [hp]

@[simp] theorem value?_pop {m : Mapping κ α} {k k' : κ} :
    (m.pop k).value? k' = if k' = k then none else m.value? k' := by
  unfold value? pop
  rw [Table.get?_delete]
  cases hitem : m.get? k' with
  | none => simp
  | some item =>
    obtain ⟨_, rfl⟩ := Table.get?_eq_some.mp hitem
    change Option.map _ (Option.filter _ _) = if item.key = k then _ else _
    by_cases hk : item.key = k <;> simp [hk]

@[simp] theorem value?_mapValues {m : Mapping κ α} {f : κ → α → α} {k : κ} :
    (m.mapValues f).value? k = (m.value? k).map (f k) := by
  unfold value? mapValues
  rw [Table.get?_update]
  cases hitem : m.get? k with
  | none => rfl
  | some item =>
    obtain ⟨_, rfl⟩ := Table.get?_eq_some.mp hitem
    simp [Keyed.key]

/-- A run of `set`s looks up what the last one for the key set. -/
theorem value?_foldl_set {l : List (Item κ α)} {k : κ} (hl : (l.map (·.key)).Nodup) :
    (l.foldl (fun m item => m.set item.key item.value) m).value? k =
      ((l.find? (·.key = k)).map (·.value)).or (m.value? k) := by
  induction l generalizing m with
  | nil => rfl
  | cons item l ih =>
    rw [List.map_cons, List.nodup_cons] at hl
    rw [List.foldl_cons, ih hl.2, value?_set, List.find?_cons]
    by_cases hk : item.key = k
    · have hnone : l.find? (·.key = k) = none := by
        rw [List.find?_eq_none]
        intro item' hitem' hkey
        have hkey : item'.key = k := by simpa using hkey
        exact hl.1 (List.mem_map.mpr ⟨item', hitem', hkey.trans hk.symm⟩)
      simp [hk, hnone]
    · simp [hk]

/-- The mapping of a list of items with distinct keys. -/
theorem value?_foldl_set_empty {l : List (Item κ α)} {k : κ} {v : α} (hl : (l.map (·.key)).Nodup) :
    (l.foldl (fun m item => m.set item.key item.value) (∅ : Mapping κ α)).value? k = some v ↔ ⟨k, v⟩ ∈ l := by
  rw [value?_foldl_set hl, value?_empty, Option.or_none, Option.map_eq_some_iff]
  constructor
  · rintro ⟨item, hitem, rfl⟩
    have hkey : item.key = k := by simpa using List.find?_some hitem
    rw [← hkey]
    exact List.mem_of_find?_eq_some hitem
  · intro hmem
    cases hfind : l.find? (·.key = k) with
    | none =>
      rw [List.find?_eq_none] at hfind
      exact absurd (decide_eq_true rfl) (hfind ⟨k, v⟩ hmem)
    | some item =>
      have hkey : item.key = k := by simpa using List.find?_some hfind
      refine ⟨item, rfl, ?_⟩
      rw [List.inj_on_of_nodup_map hl (List.mem_of_find?_eq_some hfind) hmem hkey]

/-- The later mapping wins. -/
@[simp] theorem value?_merge {m m' : Mapping κ α} {k : κ} : (m.merge m').value? k = (m'.value? k).or (m.value? k) := by
  unfold merge
  rw [value?_foldl_set m'.primaryKey]
  rfl

/-- A joined mapping looks up what each key of the other one was joined with. -/
@[simp] theorem value?_joinWith {m m' : Mapping κ α} {f : α → Option α → α} {k : κ} : (m.joinWith f m').value? k =
      ((m'.value? k).map fun v => f v (m.value? k)).or (m.value? k) := by
  have hfold : ∀ (l : List (Item κ α)) (m : Mapping κ α), (l.map (·.key)).Nodup →
      (l.foldl (fun m item => m.set item.key (f item.value (m.value? item.key))) m).value? k =
        ((l.find? (·.key = k)).map fun item => f item.value (m.value? k)).or (m.value? k) := by
    intro l
    induction l with
    | nil => exact fun _ _ => rfl
    | cons item l ih =>
      intro m hl
      rw [List.map_cons, List.nodup_cons] at hl
      rw [List.foldl_cons, ih _ hl.2, value?_set, List.find?_cons]
      by_cases hk : item.key = k
      · have hnone : l.find? (·.key = k) = none := by
          rw [List.find?_eq_none]
          intro item' hitem' hkey
          have hkey : item'.key = k := by simpa using hkey
          exact hl.1 (List.mem_map.mpr ⟨item', hitem', hkey.trans hk.symm⟩)
        simp [hk, hnone]
      · simp [hk]
  unfold joinWith
  rw [hfold m'.rows m m'.primaryKey]
  unfold value?
  rw [Option.map_map]
  rfl

theorem value?_collect_aux {keys : List κ} {k : κ} : (keys.foldl (fun m k => match f k with
      | some v => m.set k v
      | none => m) m).value? k =
      if k ∈ keys then (f k).or (m.value? k) else m.value? k := by
  induction keys generalizing m with
  | nil => simp
  | cons k₀ keys ih =>
    rw [List.foldl_cons, ih]
    by_cases hk : k₀ = k
    · subst hk
      cases hf : f k₀ <;> simp
    · have hne : k ≠ k₀ := Ne.symm hk
      cases hf : f k₀ <;> simp [hk, hne]

/-- A comprehension looks up what it computes for its keys. -/
@[simp] theorem value?_collect {keys : List κ} {f : κ → Option α} {k : κ} :
    (collect keys f).value? k = if k ∈ keys then f k else none := by
  unfold collect
  rw [value?_collect_aux]
  simp

/-- A comprehension depends only on what it computes for its keys. -/
theorem collect_congr {keys : List κ} {f g : κ → Option α} (h : ∀ k ∈ keys, f k = g k) :
    collect keys f = collect keys g := by
  unfold collect
  apply List.foldl_ext
  intro m k hk
  rw [h k hk]

/-- A comprehension over its own result changes nothing. -/
theorem collect_collect {keys : List κ} : collect keys (collect keys f).value? = collect keys f := by
  apply collect_congr
  intro k hk
  rw [value?_collect, if_pos hk]

/-! ## Age

A mapping that is bounded forgets its oldest keys. -/

/-- `m[k] = v; m.move_to_end(k)`. -/
def setLast (m : Mapping κ α) (k : κ) (v : α) : Mapping κ α := (m.pop k).set k v

omit [DecidableEq κ] in
/-- The first keys, all but the last `n`. -/
def oldest (m : Mapping κ α) (n : Nat) : List κ := (m.rows.take (m.rows.length - n)).map (·.key)

omit [DecidableEq κ] in
/-- `while len(m) > n: m.popitem(last=False)`. -/
def keepLast (m : Mapping κ α) (n : Nat) : Mapping κ α where
  rows := m.rows.drop (m.rows.length - n)
  primaryKey := by
    rw [List.map_drop]
    exact m.primaryKey.sublist (List.drop_sublist _ _)

@[simp] theorem value?_setLast {m : Mapping κ α} {k k' : κ} {v : α} :
    (m.setLast k v).value? k' = if k = k' then some v else m.value? k' := by
  unfold setLast
  rw [value?_set, value?_pop]
  by_cases hk : k = k'
  · rw [if_pos hk, if_pos hk]
  · rw [if_neg hk, if_neg hk, if_neg (Ne.symm hk)]

theorem value?_of_keepLast {n : Nat} {k : κ} {v : α} (h : (m.keepLast n).value? k = some v) : m.value? k = some v := by
  rw [value?_eq_some] at h ⊢
  exact List.mem_of_mem_drop h

/-- What is not among the oldest is kept. -/
theorem value?_keepLast {n : Nat} {k : κ} (h : k ∉ m.oldest n) : (m.keepLast n).value? k = m.value? k := by
  apply Option.ext
  intro v
  constructor
  · exact value?_of_keepLast
  · intro hv
    rw [value?_eq_some, Table.mem_def, ← List.take_append_drop (m.rows.length - n) m.rows, List.mem_append] at hv
    rw [value?_eq_some]
    rcases hv with hold | hkept
    · exact absurd (List.mem_map.mpr ⟨_, hold, rfl⟩) h
    · exact hkept

omit [DecidableEq κ] in
/-- A mapping within its bound keeps everything. -/
theorem keepLast_of_le {n : Nat} (h : m.rows.length ≤ n) : m.keepLast n = m := by
  unfold keepLast
  simp only [Nat.sub_eq_zero_of_le h, List.drop_zero]

/-- A new key goes to the end. -/
theorem rows_set_of_absent {k : κ} {v : α} (h : m.value? k = none) : (m.set k v).rows = m.rows ++ [⟨k, v⟩] := by
  have habsent : key (⟨k, v⟩ : Item κ α) ∉ m.rows.map key := by
    intro (hmem : k ∈ m.keys)
    rcases mem_keys.mp hmem with ⟨v', hv'⟩
    rw [h] at hv'
    cases hv'
  unfold set Table.upsert Table.insertOrIgnore
  rw [if_neg habsent, dif_neg habsent]

/-- A comprehension over its own result changes nothing, when it filters what it computes. -/
theorem collect_filter_collect {keys : List κ} {p : α → Bool} :
    collect keys (fun k => ((collect keys fun k => (f k).filter p).value? k).filter p) =
      collect keys fun k => (f k).filter p := by
  apply collect_congr
  intro k hk
  rw [value?_collect, if_pos hk, Option.filter_filter]
  simp only [Bool.and_self]

theorem rows_foldl_collect {items : List (Item κ α)} (hnodup : (items.map (·.key)).Nodup)
    (hf : ∀ item ∈ items, f item.key = some item.value) (hnew : ∀ item ∈ items, m.value? item.key = none) :
    ((items.map (·.key)).foldl (fun m k => match f k with
      | some v => m.set k v
      | none => m) m).rows = m.rows ++ items := by
  induction items generalizing m with
  | nil => simp
  | cons item items ih =>
    rw [List.map_cons, List.nodup_cons] at hnodup
    rw [List.map_cons, List.foldl_cons, hf item List.mem_cons_self]
    dsimp only
    rw [ih hnodup.2 (fun item' h => hf item' (List.mem_cons_of_mem _ h)),
      rows_set_of_absent (hnew item List.mem_cons_self), List.append_assoc]
    · rfl
    · intro item' hitem'
      have hne : item'.key ≠ item.key := fun h => hnodup.1 (h ▸ List.mem_map_of_mem hitem')
      rw [value?_set, if_neg hne.symm]
      exact hnew item' (List.mem_cons_of_mem _ hitem')

/-- A mapping is the comprehension over its own keys. -/
theorem collect_keys (h : ∀ item ∈ m.rows, f item.key = some item.value) : collect m.keys f = m := by
  have hrows : (collect m.keys f).rows = m.rows := by
    unfold collect keys
    rw [rows_foldl_collect m.primaryKey h (fun _ _ => rfl)]
    rfl
  cases m
  cases hc : collect _ f
  rw [hc] at hrows
  simpa using hrows

theorem perm_rows {m m' : Mapping κ α} (h : ∀ k, m.value? k = m'.value? k) : m.rows.Perm m'.rows := by
  rw [List.perm_ext_iff_of_nodup (List.Nodup.of_map _ m.primaryKey) (List.Nodup.of_map _ m'.primaryKey)]
  intro item
  have hiff := h item.key
  constructor
  · intro hitem
    exact value?_eq_some.mp (hiff.symm.trans (value?_eq_some.mpr hitem))
  · intro hitem
    exact value?_eq_some.mp (hiff.trans (value?_eq_some.mpr hitem))

end Mapping
