import Mathlib.Data.List.Nodup
import Mathlib.Data.List.Perm.Basic

/-! # Keyed tables

A relational table as a list of rows with a primary key, and the five statements a store
issues against one: `SELECT`, `INSERT` (plain, `ON CONFLICT DO NOTHING`, `ON CONFLICT DO
UPDATE`), `UPDATE` and `DELETE`. The primary key constraint is a field of the type, so a
table with two rows of one key cannot be built. Everything a user needs is a membership
lemma for each statement.
-/

/-- Rows that carry their own primary key. -/
class Keyed (ρ : Type*) (κ : outParam Type*) where
  key : ρ → κ

export Keyed (key)

/-- A table: its rows, no two of which share a primary key. -/
structure Table (ρ : Type*) {κ : Type*} [Keyed ρ κ] where
  rows : List ρ
  primaryKey : (rows.map key).Nodup

namespace Table

variable {ρ κ : Type*} [Keyed ρ κ]

instance : Membership ρ (Table ρ) := ⟨fun t r => r ∈ t.rows⟩

variable {t : Table ρ} {p : ρ → Prop} {f : ρ → ρ} {r : ρ} {hf : ∀ r, key (f r) = key r}

theorem mem_def : r ∈ t ↔ r ∈ t.rows := Iff.rfl

protected def empty : Table ρ := ⟨[], List.nodup_nil⟩

instance : EmptyCollection (Table ρ) := ⟨Table.empty⟩

instance : Inhabited (Table ρ) := ⟨∅⟩

@[simp] theorem not_mem_empty {r : ρ} : r ∉ (∅ : Table ρ) := List.not_mem_nil

theorem eq_empty_iff : t = ∅ ↔ ∀ r, r ∉ t := by
  constructor
  · rintro rfl r
    exact not_mem_empty
  · intro h
    obtain ⟨rows, hk⟩ := t
    have hrows : rows = [] := List.eq_nil_iff_forall_not_mem.mpr h
    subst hrows
    rfl

/-- The primary key: two rows of one table with one key are one row. -/
theorem eq_of_key_eq {r r' : ρ} (h : r ∈ t) (h' : r' ∈ t) (hk : key r = key r') : r = r' :=
  List.inj_on_of_nodup_map t.primaryKey h h' hk

/-! ## Queries -/

/-- `SELECT … WHERE p`, first row only. -/
def find? (t : Table ρ) (p : ρ → Prop) [DecidablePred p] : Option ρ :=
  t.rows.find? (fun r => p r)

/-- `SELECT … WHERE p`. -/
def select (t : Table ρ) (p : ρ → Prop) [DecidablePred p] : List ρ :=
  t.rows.filter (fun r => p r)

/-- `EXISTS (SELECT 1 … WHERE p)`. -/
def Any (t : Table ρ) (p : ρ → Prop) : Prop := ∃ r ∈ t.rows, p r

instance (t : Table ρ) (p : ρ → Prop) [DecidablePred p] : Decidable (t.Any p) :=
  inferInstanceAs (Decidable (∃ r ∈ t.rows, p r))

@[simp] theorem any_iff {t : Table ρ} {p : ρ → Prop} : t.Any p ↔ ∃ r ∈ t, p r := Iff.rfl

theorem mem_of_find? [DecidablePred p] (h : t.find? p = some r) : r ∈ t ∧ p r :=
  ⟨List.mem_of_find?_eq_some h, by simpa using List.find?_some h⟩

theorem find?_eq_none [DecidablePred p] : t.find? p = none ↔ ∀ r ∈ t, ¬ p r := by
  simp [find?, mem_def]

@[simp] theorem mem_select {t : Table ρ} {p : ρ → Prop} [DecidablePred p] {r : ρ} : r ∈ t.select p ↔ r ∈ t ∧ p r := by
  simp [select, mem_def]

/-- A query that determines the key finds exactly the row it describes. -/
theorem find?_eq_some_of_key [DecidablePred p]
    (hp : ∀ r', p r' → key r' = key r) (hr : p r) : t.find? p = some r ↔ r ∈ t := by
  constructor
  · intro h
    exact (mem_of_find? h).1
  · intro h
    cases hf : t.find? p with
    | none => exact absurd hr (find?_eq_none.mp hf r h)
    | some r' =>
      obtain ⟨hm, hpr⟩ := mem_of_find? hf
      rw [eq_of_key_eq hm h (hp r' hpr)]

/-- The row with one primary key. -/
def get? [DecidableEq κ] (t : Table ρ) (k : κ) : Option ρ := t.find? (fun r => key r = k)

variable [DecidableEq κ]

theorem get?_eq_some {k : κ} : t.get? k = some r ↔ r ∈ t ∧ key r = k := by
  constructor
  · exact mem_of_find?
  · rintro ⟨h, rfl⟩
    exact (find?_eq_some_of_key (fun _ hr' => hr') rfl).mpr h

theorem get?_eq_none {k : κ} : t.get? k = none ↔ ∀ r ∈ t, key r ≠ k :=
  find?_eq_none

@[simp] theorem get?_empty {k : κ} : (∅ : Table ρ).get? k = none := rfl

/-! ## Statements -/

/-- `DELETE … WHERE p`. -/
def delete (t : Table ρ) (p : ρ → Prop) [DecidablePred p] : Table ρ where
  rows := t.rows.filter (fun r => ¬ p r)
  primaryKey := t.primaryKey.sublist (List.filter_sublist.map key)

/-- `UPDATE … SET f WHERE p`, for an `f` that leaves the key columns alone. -/
def update (t : Table ρ) (p : ρ → Prop) [DecidablePred p] (f : ρ → ρ)
    (hf : ∀ r, key (f r) = key r := by intro _; rfl) : Table ρ where
  rows := t.rows.map (fun r => if p r then f r else r)
  primaryKey := by
    have hkeys : (t.rows.map (fun r => if p r then f r else r)).map key = t.rows.map key := by
      rw [List.map_map]
      refine List.map_congr_left fun r _ => ?_
      by_cases h : p r
      · simp [h, hf]
      · simp [h]
    rw [hkeys]
    exact t.primaryKey

omit [DecidableEq κ] in
@[simp] theorem mem_delete {t : Table ρ} {p : ρ → Prop} [DecidablePred p] {r : ρ} : r ∈ t.delete p ↔ r ∈ t ∧ ¬ p r := by
  simp [delete, mem_def]

omit [DecidableEq κ] in
theorem mem_update [DecidablePred p] : r ∈ t.update p f hf ↔ (∃ r₀ ∈ t, p r₀ ∧ f r₀ = r) ∨ (r ∈ t ∧ ¬ p r) := by
  simp only [update, mem_def, List.mem_map]
  constructor
  · rintro ⟨r₀, h₀, rfl⟩
    by_cases hp : p r₀
    · exact .inl ⟨r₀, h₀, hp, by simp [hp]⟩
    · exact .inr ⟨by simpa [hp] using h₀, by simp [hp]⟩
  · rintro (⟨r₀, h₀, hp, rfl⟩ | ⟨h, hp⟩)
    · exact ⟨r₀, h₀, by simp [hp]⟩
    · exact ⟨r, h, by simp [hp]⟩

omit [DecidableEq κ] in
theorem of_mem_update [DecidablePred p] (hf : ∀ r, key (f r) = key r) (h : r ∈ t.update p f hf) :
    (∃ r₀ ∈ t, p r₀ ∧ f r₀ = r) ∨ (r ∈ t ∧ ¬ p r) :=
  mem_update.mp h

omit [DecidableEq κ] in
theorem mem_update_of [DecidablePred p] (hf : ∀ r, key (f r) = key r) (h : r ∈ t) (hp : p r) : f r ∈ t.update p f hf :=
  mem_update.mpr (.inl ⟨r, h, hp, rfl⟩)

omit [DecidableEq κ] in
theorem mem_update_of_not [DecidablePred p]
    (hf : ∀ r, key (f r) = key r) (h : r ∈ t) (hp : ¬ p r) : r ∈ t.update p f hf :=
  mem_update.mpr (.inr ⟨h, hp⟩)

omit [DecidableEq κ] in
/-- What every row has and the assignment keeps, every updated row has. -/
theorem forall_mem_update {P : ρ → Prop} [DecidablePred p] (hf : ∀ r, key (f r) = key r) (h : ∀ r ∈ t, P r)
    (hP : ∀ r ∈ t, p r → P r → P (f r)) : ∀ r ∈ t.update p f hf, P r := by
  intro r hr
  rcases mem_update.mp hr with ⟨r₀, hr₀, hp, rfl⟩ | ⟨hr, _⟩
  · exact hP r₀ hr₀ hp (h r₀ hr₀)
  · exact h r hr

omit [DecidableEq κ] in
theorem mem_keys : key r ∈ t.rows.map key ↔ ∃ r' ∈ t, key r' = key r := by
  simp [mem_def]

/-- `INSERT … ON CONFLICT DO NOTHING`. -/
def insertOrIgnore (t : Table ρ) (r : ρ) : Table ρ :=
  if h : key r ∈ t.rows.map key then t
  else
    { rows := t.rows ++ [r]
      primaryKey := by
        rw [List.map_append, List.map_singleton]
        exact List.nodup_append_comm.mp (List.nodup_cons.mpr ⟨h, t.primaryKey⟩) }

/-- `INSERT … ON CONFLICT (key) DO UPDATE SET f WHERE p`. -/
def upsert (t : Table ρ) (r : ρ) (p : ρ → Prop) [DecidablePred p] (f : ρ → ρ)
    (hf : ∀ r, key (f r) = key r := by intro _; rfl) : Table ρ :=
  if key r ∈ t.rows.map key then t.update (fun r' => key r' = key r ∧ p r') f hf
  else t.insertOrIgnore r

/-- Plain `INSERT`: nothing when the key is taken, which the database reports as an error. -/
def insert? (t : Table ρ) (r : ρ) : Option (Table ρ) :=
  if key r ∈ t.rows.map key then none else some (t.insertOrIgnore r)

/-- Plain `INSERT` of one row after the other. -/
def insertAll? (t : Table ρ) (rows : List ρ) : Option (Table ρ) :=
  rows.foldlM (fun t r => t.insert? r) t

/-- Every key of the table survives an update. -/
theorem get?_update [DecidablePred p] {k : κ} :
    (t.update p f hf).get? k = (t.get? k).map (fun r => if p r then f r else r) := by
  cases h : t.get? k with
  | none =>
    rw [get?_eq_none] at h
    rw [Option.map_none, get?_eq_none]
    intro r hr
    rcases mem_update.mp hr with ⟨r₀, h₀, _, rfl⟩ | ⟨hr', _⟩
    · rw [hf]
      exact h r₀ h₀
    · exact h r hr'
  | some r =>
    obtain ⟨hr, rfl⟩ := get?_eq_some.mp h
    rw [Option.map_some, get?_eq_some]
    by_cases hp : p r
    · simp only [hp, if_true, hf, and_true]
      exact mem_update.mpr (.inl ⟨r, hr, hp, rfl⟩)
    · simp only [hp, if_false, and_true]
      exact mem_update.mpr (.inr ⟨hr, hp⟩)

theorem mem_insertOrIgnore {r₀ r : ρ} : r ∈ t.insertOrIgnore r₀ ↔ r ∈ t ∨ (r = r₀ ∧ ∀ r' ∈ t, key r' ≠ key r₀) := by
  unfold insertOrIgnore
  split
  · next h =>
    obtain ⟨r', hr', hk⟩ := mem_keys.mp h
    constructor
    · exact .inl
    · rintro (h | ⟨rfl, hno⟩)
      · exact h
      · exact absurd hk (hno r' hr')
  · next h =>
    have hno : ∀ r' ∈ t, key r' ≠ key r₀ := fun r' hr' hk => h (mem_keys.mpr ⟨r', hr', hk⟩)
    simp only [mem_def, List.mem_append, List.mem_singleton]
    constructor
    · rintro (h | rfl)
      · exact .inl h
      · exact .inr ⟨rfl, hno⟩
    · rintro (h | ⟨rfl, _⟩)
      · exact .inl h
      · exact .inr rfl

theorem mem_upsert {r₀ : ρ} [DecidablePred p] : r ∈ t.upsert r₀ p f hf ↔ (∃ r₁ ∈ t, key r₁ = key r₀ ∧ p r₁ ∧ f r₁ = r) ∨
      (r ∈ t ∧ ¬ (key r = key r₀ ∧ p r)) ∨
      (r = r₀ ∧ ∀ r' ∈ t, key r' ≠ key r₀) := by
  unfold upsert
  split
  · next h =>
    obtain ⟨r', hr', hk⟩ := mem_keys.mp h
    rw [mem_update]
    constructor
    · rintro (⟨r₁, h₁, ⟨hk₁, hp₁⟩, rfl⟩ | h)
      · exact .inl ⟨r₁, h₁, hk₁, hp₁, rfl⟩
      · exact .inr (.inl h)
    · rintro (⟨r₁, h₁, hk₁, hp₁, rfl⟩ | h | ⟨rfl, hno⟩)
      · exact .inl ⟨r₁, h₁, ⟨hk₁, hp₁⟩, rfl⟩
      · exact .inr h
      · exact absurd hk (hno r' hr')
  · next h =>
    have hno : ∀ r' ∈ t, key r' ≠ key r₀ := fun r' hr' hk => h (mem_keys.mpr ⟨r', hr', hk⟩)
    rw [mem_insertOrIgnore]
    constructor
    · rintro (h | h)
      · exact .inr (.inl ⟨h, fun hk => hno r h hk.1⟩)
      · exact .inr (.inr h)
    · rintro (⟨r₁, h₁, hk₁, _⟩ | h | h)
      · exact absurd hk₁ (hno r₁ h₁)
      · exact .inl h.1
      · exact .inr h

theorem key_ne_of_insert? {t t' : Table ρ} {r₀ : ρ} (h : t.insert? r₀ = some t') : ∀ r ∈ t, key r ≠ key r₀ := by
  unfold insert? at h
  split at h
  · cases h
  · next hk => exact fun r hr hkey => hk (mem_keys.mpr ⟨r, hr, hkey⟩)

/-- A row with a new key can be inserted. -/
theorem exists_insert? {r₀ : ρ} (h : ∀ r ∈ t, key r ≠ key r₀) : ∃ t', t.insert? r₀ = some t' := by
  refine ⟨t.insertOrIgnore r₀, ?_⟩
  unfold insert?
  rw [if_neg]
  intro hmem
  rcases mem_keys.mp hmem with ⟨r, hr, hkey⟩
  exact h r hr hkey

theorem mem_insert? {t t' : Table ρ} {r₀ r : ρ} (h : t.insert? r₀ = some t') : r ∈ t' ↔ r ∈ t ∨ r = r₀ := by
  have hno : ∀ r' ∈ t, key r' ≠ key r₀ := key_ne_of_insert? h
  unfold insert? at h
  split at h
  · cases h
  · rw [Option.some.injEq] at h
    rw [← h, mem_insertOrIgnore]
    exact or_congr_right ⟨And.left, fun hr => ⟨hr, hno⟩⟩

theorem mem_insertAll? {t t' : Table ρ} {rows : List ρ} (h : t.insertAll? rows = some t') (r : ρ) :
    r ∈ t' ↔ r ∈ t ∨ r ∈ rows := by
  induction rows generalizing t with
  | nil =>
    obtain rfl : t = t' := Option.some.inj h
    simp
  | cons r₀ rows ih =>
    change (t.insert? r₀ >>= fun t₁ => t₁.insertAll? rows) = some t' at h
    obtain ⟨t₁, h₁, hrest⟩ := Option.bind_eq_some_iff.mp h
    rw [ih hrest, mem_insert? h₁, List.mem_cons, or_assoc]

/-! ## Statements, seen by key -/

theorem get?_delete [DecidablePred p] {k : κ} : (t.delete p).get? k = (t.get? k).filter (fun r => ¬ p r) := by
  cases h : t.get? k with
  | none =>
    rw [get?_eq_none] at h
    rw [Option.filter_none, get?_eq_none]
    exact fun r hr => h r (mem_delete.mp hr).1
  | some r =>
    obtain ⟨hr, rfl⟩ := get?_eq_some.mp h
    by_cases hp : p r
    · simp only [Option.filter_some, hp, not_true, decide_false, Bool.false_eq_true, if_false, get?_eq_none]
      intro r' hr' hk
      obtain ⟨hm, hnp⟩ := mem_delete.mp hr'
      exact hnp (eq_of_key_eq hm hr hk ▸ hp)
    · simp only [Option.filter_some, hp, not_false_eq_true, decide_true, if_true, get?_eq_some, and_true]
      exact mem_delete.mpr ⟨hr, hp⟩

theorem get?_insertOrIgnore {k : κ} :
    (t.insertOrIgnore r).get? k = if key r = k then some ((t.get? k).getD r) else t.get? k := by
  cases h : t.get? k with
  | some r' =>
    obtain ⟨hr', hk⟩ := get?_eq_some.mp h
    have hin : (t.insertOrIgnore r).get? k = some r' :=
      get?_eq_some.mpr ⟨mem_insertOrIgnore.mpr (.inl hr'), hk⟩
    rw [hin]
    simp
  | none =>
    rw [get?_eq_none] at h
    by_cases hk : key r = k
    · rw [if_pos hk, get?_eq_some]
      exact ⟨mem_insertOrIgnore.mpr (.inr ⟨rfl, hk.symm ▸ h⟩), hk⟩
    · rw [if_neg hk, get?_eq_none]
      intro r' hr'
      rcases mem_insertOrIgnore.mp hr' with hold | ⟨rfl, _⟩
      · exact h r' hold
      · exact hk

theorem get?_upsert [DecidablePred p] {k : κ} : (t.upsert r p f hf).get? k =
      if key r = k then some ((t.get? k).elim r (fun r' => if p r' then f r' else r'))
      else t.get? k := by
  unfold upsert
  split
  · next h =>
    rw [get?_update]
    obtain ⟨r₀, hr₀, hk₀⟩ := mem_keys.mp h
    by_cases hk : key r = k
    · have h₀ : t.get? k = some r₀ := get?_eq_some.mpr ⟨hr₀, hk₀.trans hk⟩
      simp [hk, h₀, hk₀]
    · rw [if_neg hk]
      cases hg : t.get? k with
      | none => rfl
      | some r' =>
        have hne : key r' ≠ key r := (get?_eq_some.mp hg).2 ▸ Ne.symm hk
        simp [hne]
  · next h =>
    rw [get?_insertOrIgnore]
    by_cases hk : key r = k
    · have hnone : t.get? k = none := by
        rw [get?_eq_none]
        exact fun r' hr' hk' => h (mem_keys.mpr ⟨r', hr', hk'.trans hk.symm⟩)
      simp [hk, hnone]
    · rw [if_neg hk, if_neg hk]

/-- Two tables with the same row under every key have the same rows. -/
theorem mem_iff_of_get? {t t' : Table ρ} (h : ∀ k, t.get? k = t'.get? k) (r : ρ) : r ∈ t ↔ r ∈ t' := by
  have hrow : ∀ u : Table ρ, r ∈ u ↔ u.get? (key r) = some r := fun u => by
    rw [get?_eq_some]
    exact ⟨fun hr => ⟨hr, rfl⟩, And.left⟩
  rw [hrow, hrow, h]

end Table
