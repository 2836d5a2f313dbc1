import MindRoom.JsonCuts

/-! # Merging metadata

`mindroom.metadata_merge`: one metadata object over another, object by object. A list is one
value here: the merge keeps the newer list and does not join the two.
-/

namespace MindRoom

open JsonText (Proper ProperMembers properMembers_iff)

/-! ## Objects after an update -/

namespace Dict

variable {d : Dict} {k k' : String} {v : Json}

@[simp] theorem get?_nil : Dict.get? [] k = none := rfl

theorem get?_cons (entry : String × Json) :
    Dict.get? (entry :: d) k = if k = entry.1 then some entry.2 else Dict.get? d k := by
  unfold Dict.get?
  rw [List.lookup_cons]
  by_cases h : k = entry.1
  · rw [if_pos h, beq_iff_eq.mpr h]
  · rw [if_neg h, beq_eq_false_iff_ne.mpr h]

theorem get?_append (d d' : Dict) : Dict.get? (d ++ d') k = (Dict.get? d k).or (Dict.get? d' k) := by
  unfold Dict.get?
  exact List.lookup_append

theorem get?_eq_none : Dict.get? d k = none ↔ k ∉ d.map (·.1) := by
  induction d with
  | nil => simp [Dict.get?]
  | cons entry d ih =>
    rw [get?_cons, List.map_cons, List.mem_cons, not_or]
    by_cases h : k = entry.1
    · simp [h]
    · simp [h, ih]

theorem mem_of_get? (h : Dict.get? d k = some v) : (k, v) ∈ d := by
  induction d with
  | nil => cases h
  | cons entry d ih =>
    rw [get?_cons] at h
    by_cases hk : k = entry.1
    · rw [if_pos hk, Option.some.injEq] at h
      rw [hk, ← h]
      exact List.mem_cons_self
    · rw [if_neg hk] at h
      exact List.mem_cons_of_mem _ (ih h)

@[simp] theorem get?_set : Dict.get? (Dict.set d k v) k' = if k' = k then some v else Dict.get? d k' := by
  unfold Dict.set
  split
  · rename_i hpresent
    induction d with
    | nil => cases hpresent
    | cons entry d ih =>
      rw [List.map_cons, get?_cons, get?_cons]
      by_cases hentry : entry.1 = k
      · by_cases hk : k' = k
        · simp [hentry, hk]
        · -- the rest is mapped as well, and only changes entries of `k`
          have hrest : Dict.get? (d.map fun kv => if kv.1 = k then (k, v) else kv) k' = Dict.get? d k' := by
            clear ih hpresent
            induction d with
            | nil => rfl
            | cons entry' d ih =>
              rw [List.map_cons, get?_cons, get?_cons, ih]
              by_cases h' : entry'.1 = k
              · simp [h', hk]
              · simp [h']
          simp [hentry, hk, hrest]
      · have hlook : (d.lookup k).isSome := by
          rw [List.lookup_cons, beq_eq_false_iff_ne.mpr (Ne.symm hentry)] at hpresent
          exact hpresent
        rw [if_neg hentry, ih hlook]
        by_cases hk : k' = entry.1
        · rw [if_pos hk, if_pos hk, if_neg (by rw [hk]; exact hentry)]
        · rw [if_neg hk, if_neg hk]
  · rename_i habsent
    have hnone : Dict.get? d k = none := Option.not_isSome_iff_eq_none.mp habsent
    rw [get?_append]
    by_cases hk : k' = k
    · subst hk
      simp [hnone, get?_cons]
    · rw [get?_cons, if_neg hk, if_neg hk]
      cases Dict.get? d k' <;> rfl

@[simp] theorem get?_pop : Dict.get? (Dict.pop d k) k' = if k' = k then none else Dict.get? d k' := by
  unfold Dict.pop
  induction d with
  | nil => simp [Dict.get?]
  | cons entry d ih =>
    by_cases hentry : entry.1 = k
    · rw [List.filter_cons_of_neg (by simp [hentry]), ih, get?_cons, hentry]
      by_cases hk : k' = k
      · rw [if_pos hk, if_pos hk]
      · rw [if_neg hk, if_neg hk, if_neg hk]
    · rw [List.filter_cons_of_pos (by simp [hentry]), get?_cons, get?_cons, ih]
      by_cases hk : k' = entry.1
      · rw [if_pos hk, if_pos hk, if_neg (by rw [hk]; exact hentry)]
      · rw [if_neg hk, if_neg hk]

theorem obj?_eq_some {o : Dict} : Dict.obj? d k = some o ↔ Dict.get? d k = some (.obj o) := by
  unfold Dict.obj?
  cases Dict.get? d k with
  | none => simp
  | some v => cases v <;> simp

end Dict

/-! ## Distinct keys -/

variable {d extra : Dict} {k : String} {v : Json} {existing : Option Json}

theorem proper_obj : Proper (.obj d) ↔ (d.map (·.1)).Nodup ∧ ∀ member ∈ d, Proper member.2 := by
  rw [Proper, properMembers_iff]

theorem proper_get? (h : Proper (.obj d)) (hk : Dict.get? d k = some v) : Proper v :=
  (proper_obj.mp h).2 _ (Dict.mem_of_get? hk)

theorem proper_pop (h : Proper (.obj d)) : Proper (.obj (Dict.pop d k)) := by
  rw [proper_obj] at h ⊢
  constructor
  · exact h.1.sublist (List.filter_sublist.map _)
  · intro member hmember
    exact h.2 member (List.mem_of_mem_filter hmember)

theorem proper_set (h : Proper (.obj d)) (hv : Proper v) : Proper (.obj (Dict.set d k v)) := by
  rw [proper_obj] at h ⊢
  unfold Dict.set
  split
  · have hkeys : (d.map fun kv => if kv.1 = k then (k, v) else kv).map (·.1) = d.map (·.1) := by
      rw [List.map_map]
      refine List.map_congr_left fun entry _ => ?_
      by_cases hk : entry.1 = k
      · simp [hk]
      · simp [hk]
    constructor
    · rw [hkeys]
      exact h.1
    · intro member hmember
      rcases List.mem_map.mp hmember with ⟨entry, hentry, rfl⟩
      by_cases hk : entry.1 = k
      · rw [if_pos hk]
        exact hv
      · rw [if_neg hk]
        exact h.2 entry hentry
  · rename_i habsent
    have hnot : k ∉ d.map (·.1) := Dict.get?_eq_none.mp (Option.not_isSome_iff_eq_none.mp habsent)
    constructor
    · rw [List.map_append, List.nodup_append]
      refine ⟨h.1, List.nodup_singleton k, ?_⟩
      rintro a ha b hb rfl
      rw [List.map_cons, List.map_nil, List.mem_singleton] at hb
      rw [hb] at ha
      exact hnot ha
    · intro member hmember
      rcases List.mem_append.mp hmember with hold | hnew
      · exact h.2 member hold
      · rw [List.mem_singleton] at hnew
        rw [hnew]
        exact hv

/-! ## The merge -/

mutual

/-- What a key holds after `value` is merged over what it held: two objects are merged, anything
else is replaced. -/
def mergeValue (existing : Option Json) : Json → Json
  | .obj extra =>
    match existing with
    | some (.obj base) => .obj (mergeItems base extra)
    | _ => .obj extra
  | value => value

/-- The loop over `extra.items()`. -/
def mergeItems (merged : Dict) : List (String × Json) → Dict
  | [] => merged
  | (key, value) :: items => mergeItems (Dict.set merged key (mergeValue (Dict.get? merged key) value)) items

end

def deepMergeMetadata (base extra : Option Dict) : Option Dict :=
  match base, extra with
  | none, extra => extra
  | base, none => base
  | some base, some extra => some (mergeItems base extra)

/-- A key of the merge: what the newer object says is merged over what the older one says. -/
theorem get?_mergeItems (hextra : (extra.map (·.1)).Nodup) : Dict.get? (mergeItems d extra) k =
      match Dict.get? extra k with
      | none => Dict.get? d k
      | some value => some (mergeValue (Dict.get? d k) value) := by
  induction extra generalizing d with
  | nil => rfl
  | cons entry extra ih =>
    rcases entry with ⟨key, value⟩
    rw [List.map_cons, List.nodup_cons] at hextra
    rw [mergeItems, ih hextra.2, Dict.get?_set, Dict.get?_cons]
    by_cases hk : k = key
    · -- the key does not come again among the remaining items
      have hnone : Dict.get? extra k = none := Dict.get?_eq_none.mpr (hk ▸ hextra.1)
      rw [hnone, if_pos hk, if_pos hk, hk]
    · rw [if_neg hk, if_neg hk]

mutual

theorem proper_mergeValue (v : Json) (hv : Proper v) (existing : Option Json)
    (hold : ∀ e, existing = some e → Proper e) : Proper (mergeValue existing v) := by
  cases v with
  | obj extra =>
    unfold mergeValue
    split
    · exact proper_mergeItems extra hv _ (hold _ rfl)
    · exact hv
  | _ => exact hv

/-- The keys of a merge are distinct. -/
theorem proper_mergeItems (extra : List (String × Json)) (hextra : Proper (.obj extra)) (d : Dict)
    (h : Proper (.obj d)) : Proper (.obj (mergeItems d extra)) := by
  cases extra with
  | nil => exact h
  | cons entry extra =>
    rw [mergeItems]
    rw [proper_obj] at hextra
    have hrest : Proper (.obj extra) := by
      rw [proper_obj]
      exact ⟨(List.nodup_cons.mp hextra.1).2, fun member hmember => hextra.2 member (List.mem_cons_of_mem _ hmember)⟩
    refine proper_mergeItems extra hrest _ (proper_set h ?_)
    exact proper_mergeValue entry.2 (hextra.2 entry List.mem_cons_self) _ fun e he => proper_get? h he

end

end MindRoom
