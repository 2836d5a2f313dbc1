import MindRoom.LedgerMirror

/-! # What a cleanup of the ledger keeps

`_cleaned_responses` works on turn groups: the entries whose records are indexed by the same events. A
group that owns unfinished work stays, whatever its age and however many there are. Of the others the
stale ones go, and of the rest the oldest where there are too many.
-/

namespace MindRoom.HandledTurnLedger

/-- `ordinary_groups[-max_events:] if max_events else []`. A negative limit cuts from the front. -/
def keptOrdinary (maxEvents : Int) (ordinary : List ResponseGroup) : List ResponseGroup :=
  if maxEvents = 0 then []
  else if 0 < maxEvents then ordinary.drop (ordinary.length - maxEvents.toNat)
  else ordinary.drop (-maxEvents).toNat

def Recent (maxAgeDays now : Int) (group : ResponseGroup) : Prop :=
  now - group.timestamp < maxAgeDays * 24 * 60 * 60

instance (maxAgeDays now : Int) (group : ResponseGroup) : Decidable (Recent maxAgeDays now group) :=
  inferInstanceAs (Decidable (_ < _))

/-- The groups that stay under any size limit. -/
def keptGroups (responses : Mapping String TurnRecord) (maxEvents maxAgeDays now : Int)
    (unsettledSourceEventIds : List String) : List ResponseGroup :=
  let fresh := (responseGroups responses).filter fun group =>
    ResponseGroupRequiresRetention unsettledSourceEventIds group ∨ Recent maxAgeDays now group
  if maxEvents < fresh.length then
    let retained := fresh.filter (ResponseGroupRequiresRetention unsettledSourceEventIds ·)
    let ordinary := fresh.filter (¬ ResponseGroupRequiresRetention unsettledSourceEventIds ·)
    (retained ++ keptOrdinary maxEvents ordinary).insertionSort (·.timestamp ≤ ·.timestamp)
  else fresh

/-- `_cleaned_responses`, for any size limit. -/
def cleanedWithin (responses : Mapping String TurnRecord) (maxEvents maxAgeDays now : Int)
    (unsettledSourceEventIds : List String) : Mapping String TurnRecord :=
  (keptGroups responses maxEvents maxAgeDays now unsettledSourceEventIds).foldl
    (fun cleaned group => cleaned.merge group.records) ∅

section

variable {responses : Mapping String TurnRecord} {maxEvents maxAgeDays now : Int} {unsettled : List String}
  {group group' : ResponseGroup} {ids : List String} {k : String} {record : TurnRecord}

/-- The ledger's own size limits are not negative. -/
theorem keptOrdinary_natCast (n : Nat) (ordinary : List ResponseGroup) :
    keptOrdinary n ordinary = ordinary.drop (ordinary.length - n) := by
  unfold keptOrdinary
  cases n with
  | zero => rw [if_pos (by omega), Nat.sub_zero, List.drop_length]
  | succ n => rw [if_neg (by omega), if_pos (by omega), Int.toNat_natCast]

theorem cleanedWithin_natCast (n : Nat) :
    cleanedWithin responses n maxAgeDays now unsettled = cleanedResponses responses n maxAgeDays now unsettled := by
  unfold cleanedWithin cleanedResponses keptGroups freshGroups
  simp only [keptOrdinary_natCast, Int.ofNat_lt]
  rfl

theorem exists_drop_of_keptOrdinary (maxEvents : Int) (ordinary : List ResponseGroup) :
    ∃ n, keptOrdinary maxEvents ordinary = ordinary.drop n := by
  unfold keptOrdinary
  split
  · exact ⟨ordinary.length, List.drop_length.symm⟩
  · split
    · exact ⟨_, rfl⟩
    · exact ⟨_, rfl⟩

/-! ## Groups -/

theorem mem_responseGroups : group ∈ responseGroups responses ↔
    ∃ ids, (groupResponses responses).value? ids = some group := by
  unfold responseGroups
  rw [List.mem_insertionSort, Mapping.mem_values]

theorem value?_of_groupAt (h : (groupResponses responses).value? ids = some group) :
    group.records.value? k = some record ↔ responses.value? k = some record ∧ record.indexedEventIds = ids := by
  have hgroup : (responses.rows.foldl addToGroup ∅).value? ids = some group := h
  have hspec : group.records.value? k = some record ↔
      ⟨k, record⟩ ∈ responses.rows ∧ record.indexedEventIds = ids := by
    rw [← value?_groups responses.primaryKey, hgroup, Option.getD_some]
  rw [hspec, Mapping.value?_eq_some]
  rfl

/-- Every entry is in the group of its indexed events. -/
theorem exists_groupAt (h : responses.value? k = some record) :
    ∃ group, (groupResponses responses).value? record.indexedEventIds = some group := by
  have hmem : ⟨k, record⟩ ∈ responses.rows := Mapping.value?_eq_some.mp h
  have hentry := (value?_groups responses.primaryKey).mpr ⟨hmem, rfl⟩
  change (((groupResponses responses).value? record.indexedEventIds).getD {}).records.value? k = some record at hentry
  cases hgroup : (groupResponses responses).value? record.indexedEventIds with
  | none =>
    rw [hgroup] at hentry
    cases hentry
  | some group => exact ⟨group, rfl⟩

theorem sorted_responseGroups : (responseGroups responses).Pairwise (·.timestamp ≤ ·.timestamp) :=
  List.pairwise_insertionSort _ _

theorem exists_entry (h : (groupResponses responses).value? ids = some group) :
    ∃ k record, group.records.value? k = some record := by
  have hall : ∀ items : List (Mapping.Item String TurnRecord), ∀ ids group,
      (items.foldl addToGroup ∅).value? ids = some group → ∃ k record, group.records.value? k = some record := by
    intro items
    induction items using List.reverseRecOn with
    | nil =>
      intro ids group hnone
      cases hnone
    | append_singleton items item ih =>
      intro ids group hgroup
      rw [List.foldl_append, List.foldl_cons, List.foldl_nil] at hgroup
      unfold addToGroup at hgroup
      rw [Mapping.value?_set] at hgroup
      split at hgroup
      · cases hgroup
        refine ⟨item.key, item.value, ?_⟩
        rw [Mapping.value?_set, if_pos rfl]
      · exact ih ids group hgroup
  exact hall responses.rows ids group h

/-! ## What stays -/

theorem mem_keptGroups (h : group ∈ keptGroups responses maxEvents maxAgeDays now unsettled) :
    group ∈ responseGroups responses := by
  unfold keptGroups at h
  dsimp only at h
  split at h
  · rw [List.mem_insertionSort, List.mem_append] at h
    rcases h with h | h
    · exact (List.mem_filter.mp (List.mem_filter.mp h).1).1
    · rcases exists_drop_of_keptOrdinary maxEvents _ with ⟨n, hdrop⟩
      rw [hdrop] at h
      exact (List.mem_filter.mp (List.mem_filter.mp (List.mem_of_mem_drop h)).1).1
  · exact (List.mem_filter.mp h).1

theorem retained_mem_keptGroups (hgroup : group ∈ responseGroups responses)
    (h : ResponseGroupRequiresRetention unsettled group) :
    group ∈ keptGroups responses maxEvents maxAgeDays now unsettled := by
  have hfresh : group ∈ (responseGroups responses).filter fun group =>
      ResponseGroupRequiresRetention unsettled group ∨ Recent maxAgeDays now group :=
    List.mem_filter.mpr ⟨hgroup, decide_eq_true (.inl h)⟩
  unfold keptGroups
  dsimp only
  split
  · rw [List.mem_insertionSort, List.mem_append]
    exact .inl (List.mem_filter.mpr ⟨hfresh, decide_eq_true h⟩)
  · exact hfresh

/-- A recent ordinary group that goes is no newer than an ordinary group that stays. -/
theorem timestamp_le_of_dropped (hgroup : group ∈ responseGroups responses)
    (hordinary : ¬ ResponseGroupRequiresRetention unsettled group) (hrecent : Recent maxAgeDays now group)
    (hdropped : group ∉ keptGroups responses maxEvents maxAgeDays now unsettled)
    (hordinary' : ¬ ResponseGroupRequiresRetention unsettled group')
    (hkept : group' ∈ keptGroups responses maxEvents maxAgeDays now unsettled) :
    group.timestamp ≤ group'.timestamp := by
  have hfresh : group ∈ (responseGroups responses).filter fun group =>
      ResponseGroupRequiresRetention unsettled group ∨ Recent maxAgeDays now group :=
    List.mem_filter.mpr ⟨hgroup, decide_eq_true (.inr hrecent)⟩
  have hsorted : ((responseGroups responses).filter fun group =>
      ResponseGroupRequiresRetention unsettled group ∨ Recent maxAgeDays now group).Pairwise
        (·.timestamp ≤ ·.timestamp) := sorted_responseGroups.sublist List.filter_sublist
  unfold keptGroups at hdropped hkept
  dsimp only at hdropped hkept
  generalize ((responseGroups responses).filter fun group =>
    ResponseGroupRequiresRetention unsettled group ∨ Recent maxAgeDays now group) = fresh at *
  split at hdropped
  · next hmany =>
    rw [if_pos hmany, List.mem_insertionSort, List.mem_append] at hkept
    rw [List.mem_insertionSort, List.mem_append, not_or] at hdropped
    rcases exists_drop_of_keptOrdinary maxEvents
      (fresh.filter (¬ ResponseGroupRequiresRetention unsettled ·)) with ⟨n, hdrop⟩
    rw [hdrop] at hkept hdropped
    have hmem : group ∈ fresh.filter (¬ ResponseGroupRequiresRetention unsettled ·) :=
      List.mem_filter.mpr ⟨hfresh, decide_eq_true hordinary⟩
    have hsplit := hsorted.sublist
      (List.filter_sublist : (fresh.filter (¬ ResponseGroupRequiresRetention unsettled ·)).Sublist fresh)
    rw [← List.take_append_drop n (fresh.filter _)] at hmem hsplit
    have htake := (List.mem_append.mp hmem).resolve_right hdropped.2
    have hlast := hkept.resolve_left fun hin => hordinary' (of_decide_eq_true (List.mem_filter.mp hin).2)
    exact (List.pairwise_append.mp hsplit).2.2 group htake group' hlast
  · exact absurd hfresh hdropped

/-- What stays are the entries of the groups that stay. -/
theorem value?_cleanedWithin : (cleanedWithin responses maxEvents maxAgeDays now unsettled).value? k = some record ↔
    ∃ group ∈ keptGroups responses maxEvents maxAgeDays now unsettled, group.records.value? k = some record := by
  unfold cleanedWithin
  rw [value?_foldl_merge (m := responses)]
  · simp
  · intro group hgroup k record h
    rcases mem_responseGroups.mp (mem_keptGroups hgroup) with ⟨ids, hids⟩
    exact ((value?_of_groupAt hids).mp h).1
  · intro k record h
    cases h

/-! ## The cleanup as a whole -/

def Kept (cleaned : Mapping String TurnRecord) (group : ResponseGroup) : Prop :=
  ∀ k record, group.records.value? k = some record → cleaned.value? k = some record

def Dropped (cleaned : Mapping String TurnRecord) (group : ResponseGroup) : Prop :=
  ∀ k record, group.records.value? k = some record → cleaned.value? k = none

theorem kept_of_mem (h : group ∈ keptGroups responses maxEvents maxAgeDays now unsettled) :
    Kept (cleanedWithin responses maxEvents maxAgeDays now unsettled) group := fun _ _ hentry =>
  value?_cleanedWithin.mpr ⟨group, h, hentry⟩

theorem dropped_of_not_mem (hgroup : (groupResponses responses).value? ids = some group)
    (h : group ∉ keptGroups responses maxEvents maxAgeDays now unsettled) :
    Dropped (cleanedWithin responses maxEvents maxAgeDays now unsettled) group := by
  intro k record hentry
  rw [Option.eq_none_iff_forall_ne_some]
  intro record' hkept
  -- an entry is in one group only
  rcases value?_cleanedWithin.mp hkept with ⟨group', hgroup', hentry'⟩
  rcases mem_responseGroups.mp (mem_keptGroups hgroup') with ⟨ids', hids'⟩
  rcases (value?_of_groupAt hgroup).mp hentry with ⟨hvalue, hindexed⟩
  rcases (value?_of_groupAt hids').mp hentry' with ⟨hvalue', hindexed'⟩
  have hsame : record = record' := Option.mem_unique hvalue hvalue'
  have hids : ids = ids' := by rw [← hindexed, ← hindexed', hsame]
  rw [hids, hids'] at hgroup
  exact h (Option.some.inj hgroup ▸ hgroup')

theorem not_kept_of_dropped (hgroup : (groupResponses responses).value? ids = some group)
    (hdropped : Dropped (cleanedWithin responses maxEvents maxAgeDays now unsettled) group) :
    group ∉ keptGroups responses maxEvents maxAgeDays now unsettled := by
  intro hmem
  rcases exists_entry hgroup with ⟨k, record, hentry⟩
  have hkept := kept_of_mem hmem k record hentry
  rw [hdropped k record hentry] at hkept
  cases hkept

/-- What a cleanup promises of each turn group. The groups are those of the entries' own indexed events. -/
structure CleansUp (responses : Mapping String TurnRecord) (maxAgeDays now : Int) (unsettled : List String)
    (cleaned : Mapping String TurnRecord) : Prop where
  sound : ∀ k record, cleaned.value? k = some record → responses.value? k = some record
  grouped : ∀ k record, responses.value? k = some record → ∃ group,
    (groupResponses responses).value? record.indexedEventIds = some group ∧
      ∀ k' record', group.records.value? k' = some record' ↔
        responses.value? k' = some record' ∧ record'.indexedEventIds = record.indexedEventIds
  together : ∀ ids group, (groupResponses responses).value? ids = some group →
    Kept cleaned group ∨ Dropped cleaned group
  retained : ∀ ids group, (groupResponses responses).value? ids = some group →
    ResponseGroupRequiresRetention unsettled group → Kept cleaned group
  oldestFirst : ∀ ids group ids' group', (groupResponses responses).value? ids = some group →
    (groupResponses responses).value? ids' = some group' →
    ¬ ResponseGroupRequiresRetention unsettled group → ¬ ResponseGroupRequiresRetention unsettled group' →
    Recent maxAgeDays now group → Dropped cleaned group → group'.timestamp < group.timestamp →
    Dropped cleaned group'

/-- A cleanup keeps or drops whole turn groups, never one that must be retained, and for size only the oldest
ordinary ones. -/
theorem cleanedWithin_cleansUp (responses : Mapping String TurnRecord) (maxEvents maxAgeDays now : Int)
    (unsettled : List String) : CleansUp responses maxAgeDays now unsettled
      (cleanedWithin responses maxEvents maxAgeDays now unsettled) := by
  refine ⟨?_, ?_, ?_, ?_, ?_⟩
  · intro k record h
    rcases value?_cleanedWithin.mp h with ⟨group, hgroup, hentry⟩
    rcases mem_responseGroups.mp (mem_keptGroups hgroup) with ⟨ids, hids⟩
    exact ((value?_of_groupAt hids).mp hentry).1
  · intro k record h
    rcases exists_groupAt h with ⟨group, hgroup⟩
    exact ⟨group, hgroup, fun _ _ => value?_of_groupAt hgroup⟩
  · intro ids group hgroup
    by_cases hmem : group ∈ keptGroups responses maxEvents maxAgeDays now unsettled
    · exact .inl (kept_of_mem hmem)
    · exact .inr (dropped_of_not_mem hgroup hmem)
  · intro ids group hgroup hretention
    exact kept_of_mem (retained_mem_keptGroups (mem_responseGroups.mpr ⟨ids, hgroup⟩) hretention)
  · intro ids group ids' group' hgroup hgroup' hordinary hordinary' hrecent hdropped hlt
    apply dropped_of_not_mem hgroup'
    intro hmem'
    have hle := timestamp_le_of_dropped (mem_responseGroups.mpr ⟨ids, hgroup⟩) hordinary hrecent
      (not_kept_of_dropped hgroup hdropped) hordinary' hmem'
    exact absurd hlt (not_lt.mpr hle)

end

end MindRoom.HandledTurnLedger
