import MindRoom.CompactionRecord

/-! # Concurrent updates of a session that is compacted

Between the moment a pass loads its working copy and the moment it records a chunk the stored
session may change: runs are added or edited, the states of scopes change, event ids are
consumed. What the chunk leaves of these changes depends on three versions of the session: the
one that was loaded, the one that is stored, and the working copy.
-/

namespace MindRoom

open JsonText (Proper)
open Newest (Extends)

variable {σ : Type} {promptRoles : List String} {base stored working : Session σ} {scope : CompactionScope}
  {ids : List String} {sync : Bool} {metadata : Option Dict} {key id : String}

/-- The metadata that `mindroom.history.storage` writes. -/
structure CurrentMetadata (metadata : Option Dict) : Prop extends StoredMetadata metadata where
  seen : SeenCurrent metadata

/-! ## What an update that is kept is -/

/-- A value that changed in the store and not in the working copy is the stored one afterwards. -/
def ValueKept {α : Type} (base stored working after : α) : Prop := stored ≠ base → working = base → after = stored

/-- No value of a scope's state that is newer in the store is reverted. -/
structure StateKept (base stored working after : HistoryScopeState) : Prop where
  compactedAt : ValueKept base.lastCompactedAt stored.lastCompactedAt working.lastCompactedAt after.lastCompactedAt
  summaryModel : ValueKept base.lastSummaryModel stored.lastSummaryModel working.lastSummaryModel after.lastSummaryModel
  runCount : ValueKept base.lastCompactedRunCount stored.lastCompactedRunCount working.lastCompactedRunCount
    after.lastCompactedRunCount
  force : ValueKept base.forceCompactBeforeNextRun stored.forceCompactBeforeNextRun working.forceCompactBeforeNextRun
    after.forceCompactBeforeNextRun
  runIds : stored.compactedRunIds ≠ base.compactedRunIds → working.compactedRunIds = base.compactedRunIds →
    Extends compactedRunIdRetentionLimit stored.compactedRunIds after.compactedRunIds

/-- The chunk loses no concurrent update: the stored runs it does not compact stay with their content apart
from replay fields, the event ids of both sides are there, and no newer state of a scope is reverted. -/
structure KeepsUpdates (base stored working after : Session σ) (ids : List String) : Prop where
  runs : ∀ run ∈ stored.runs, ¬ Descends stored.runs (chunkRunIds ids) run.runId →
    run.runId ∈ after.runs.map (·.runId) ∧ ∀ run' ∈ after.runs, run'.runId = run.runId → run'.body = run.body
  seen : ∀ key id, id ∈ seenAt after.metadata key ↔ id ∈ seenAt stored.metadata key ∨ id ∈ seenAt working.metadata key
  states : ∀ scope : CompactionScope, StateKept (readScopeState base.metadata scope) (readScopeState stored.metadata scope)
    (readScopeState working.metadata scope) (readScopeState after.metadata scope)

/-! ## When there is nothing to revert -/

/-- A value changed in the store, and the working copy still has the one that was loaded. -/
def Outdated {α : Type} (base stored working : α) : Prop := stored ≠ base ∧ working = base

/-- The working copy says nothing that is outdated of one scope: no audit field, no force flag (there is
none where the state is empty and stays so), and no list of another scope's tombstones that misses stored ones. -/
structure StateCurrent (own : Prop) (ids : List String) (base stored working : HistoryScopeState) : Prop where
  compactedAt : Outdated base.lastCompactedAt stored.lastCompactedAt working.lastCompactedAt →
    working.lastCompactedAt = none
  summaryModel : Outdated base.lastSummaryModel stored.lastSummaryModel working.lastSummaryModel →
    working.lastSummaryModel = none
  runCount : Outdated base.lastCompactedRunCount stored.lastCompactedRunCount working.lastCompactedRunCount →
    working.lastCompactedRunCount = none
  force : Outdated base.forceCompactBeforeNextRun stored.forceCompactBeforeNextRun working.forceCompactBeforeNextRun →
    stateIsEmpty working ∧ (own → chunkRunIds ids = [])
  runIds : Outdated base.compactedRunIds stored.compactedRunIds working.compactedRunIds → own ∨
    working.compactedRunIds = [] ∨
      Extends compactedRunIdRetentionLimit stored.compactedRunIds working.compactedRunIds

/-- The working copy is current where the chunk writes it back: its versions of the runs that are synced say
what the stored runs say, and its states are not outdated. -/
structure CopyCurrent (promptRoles : List String) (base stored working : Session σ) (scope : CompactionScope)
    (ids : List String) (sync : Bool) : Prop where
  runs : sync = true → ∀ run ∈ stored.runs, ¬ Descends stored.runs (chunkRunIds ids) run.runId →
    ∀ copy, working.runs.findRev? (·.runId = run.runId) = some copy → copy ≠ run →
      (persisted promptRoles copy).body = run.body
  states : ∀ other : CompactionScope, StateCurrent (other.key = scope.key) ids (readScopeState base.metadata other)
    (readScopeState stored.metadata other) (readScopeState working.metadata other)

/-! ## Event ids -/

theorem seenAt_recordedMetadata {old : Option Dict} (hold : CurrentMetadata old) (hworking : CurrentMetadata metadata) :
    id ∈ seenAt (some (recordedMetadata old metadata scope ids)) key ↔
      id ∈ seenAt old key ∨ id ∈ seenAt metadata key := by
  have hother : mindroomMatrixHistoryMetadataKey ≠ mindroomCompactionMetadataKey := compactionKey_ne.symm
  have hwritten : Dict.get? (workingMetadata metadata scope ids) mindroomMatrixHistoryMetadataKey =
      Dict.get? (metadata.getD []) mindroomMatrixHistoryMetadataKey := get?_writeScopeState_of_ne hother
  have hseen : seenAt (some (workingMetadata metadata scope ids)) key = seenAt metadata key := seenAt_congr hwritten
  have hcurrent : SeenCurrent (some (workingMetadata metadata scope ids)) := by
    intro v hv
    rw [Option.getD_some, hwritten] at hv
    exact hworking.seen v hv
  have hrecorded : seenAt (some (recordedMetadata old metadata scope ids)) key =
      seenAt (mergedMetadata old (workingMetadata metadata scope ids)) key :=
    seenAt_congr (get?_writeScopeState_of_ne hother)
  rw [hrecorded, ← hseen]
  unfold mergedMetadata
  exact mem_seenAt_joined fun i hi => mem_seenAt_merged (proper_writeScopeState hworking.proper) hold.seen hcurrent hi

/-! ## Runs -/

theorem runId_persisted {run : SessionRun} : (persisted promptRoles run).runId = run.runId := by
  unfold persisted
  split <;> rfl

theorem mem_upsertRun {rows : List SessionRun} {run r : SessionRun} :
    r ∈ upsertRun promptRoles rows run ↔ r ∈ rows ∧ r.runId ≠ run.runId ∨ r = persisted promptRoles run := by
  unfold upsertRun
  split
  · rename_i hmem
    rw [List.mem_map]
    constructor
    · rintro ⟨row, hrow, rfl⟩
      by_cases hid : row.runId = run.runId
      · rw [if_pos hid]
        exact .inr rfl
      · rw [if_neg hid]
        exact .inl ⟨hrow, hid⟩
    · rintro (⟨hr, hid⟩ | rfl)
      · exact ⟨r, hr, if_neg hid⟩
      · rcases List.mem_map.mp hmem with ⟨row, hrow, hid⟩
        exact ⟨row, hrow, if_pos hid⟩
  · rename_i hnot
    rw [List.mem_append, List.mem_singleton]
    constructor
    · rintro (hr | rfl)
      · refine .inl ⟨hr, fun hid => hnot ?_⟩
        rw [← hid]
        exact List.mem_map_of_mem hr
      · exact .inr rfl
    · rintro (⟨hr, -⟩ | rfl)
      · exact .inl hr
      · exact .inr rfl

/-- Saving runs of distinct ids replaces exactly the rows of these ids. -/
theorem mem_saveRuns {rows runs : List SessionRun} {r : SessionRun} (hruns : (runs.map (·.runId)).Nodup) :
    r ∈ saveRuns promptRoles rows runs ↔
      r ∈ rows ∧ r.runId ∉ runs.map (·.runId) ∨ ∃ run ∈ runs, r = persisted promptRoles run := by
  unfold saveRuns
  induction runs generalizing rows with
  | nil => simp
  | cons run runs ih =>
    rw [List.map_cons, List.nodup_cons] at hruns
    rw [List.foldl_cons, ih hruns.2, mem_upsertRun, List.map_cons, List.mem_cons, not_or]
    constructor
    · rintro (⟨⟨hr, hid⟩ | rfl, hnot⟩ | ⟨run', hrun', rfl⟩)
      · exact .inl ⟨hr, hid, hnot⟩
      · exact .inr ⟨run, List.mem_cons_self, rfl⟩
      · exact .inr ⟨run', List.mem_cons_of_mem _ hrun', rfl⟩
    · rintro (⟨hr, hid, hnot⟩ | ⟨run', hrun', rfl⟩)
      · exact .inl ⟨.inl ⟨hr, hid⟩, hnot⟩
      · rcases List.mem_cons.mp hrun' with rfl | hrun'
        · refine .inl ⟨.inr rfl, ?_⟩
          rw [runId_persisted]
          exact hruns.1
        · exact .inr ⟨run', hrun', rfl⟩

theorem ids_runsChangedByWorking {target workingRuns : List SessionRun} :
    ((runsChangedByWorking target workingRuns).map (·.runId)).Sublist (target.map (·.runId)) := by
  unfold runsChangedByWorking
  induction target with
  | nil => exact List.Sublist.refl _
  | cons run target ih =>
    rw [List.filterMap_cons]
    cases hfind : workingRuns.findRev? (·.runId = run.runId) with
    | none => exact ih.cons _
    | some copy =>
      by_cases heq : copy = run
      · simp only [heq, if_true]
        exact ih.cons _
      · have hid : copy.runId = run.runId := by
          rw [List.findRev?_eq_find?_reverse] at hfind
          simpa using List.find?_some hfind
        simp only [heq, if_false, List.map_cons, hid]
        exact ih.cons_cons _

theorem mem_changed {run copy : SessionRun} {target workingRuns : List SessionRun} (hrun : run ∈ target)
    (hfind : workingRuns.findRev? (·.runId = run.runId) = some copy) (hne : copy ≠ run) :
    copy ∈ runsChangedByWorking target workingRuns := by
  unfold runsChangedByWorking
  rw [List.mem_filterMap]
  exact ⟨run, hrun, by simp only [hfind, hne, if_false]⟩

/-- The stored runs that are left keep their content if and only if the copies that are synced have it. -/
theorem runs_kept_iff (hrows : (stored.runs.map (·.runId)).Nodup) :
    (∀ run ∈ stored.runs, ¬ Descends stored.runs (chunkRunIds ids) run.runId →
      run.runId ∈ (recordedRuns promptRoles stored working ids sync).map (·.runId) ∧
        ∀ run' ∈ recordedRuns promptRoles stored working ids sync, run'.runId = run.runId → run'.body = run.body) ↔
      (sync = true → ∀ run ∈ stored.runs, ¬ Descends stored.runs (chunkRunIds ids) run.runId →
        ∀ copy, working.runs.findRev? (·.runId = run.runId) = some copy → copy ≠ run →
          (persisted promptRoles copy).body = run.body) := by
  have hchanged : ((runsChangedByWorking (keptRuns stored ids) working.runs).map (·.runId)).Nodup := by
    have hkept : ((keptRuns stored ids).map (·.runId)).Nodup := by
      refine hrows.sublist (List.Sublist.map _ ?_)
      unfold keptRuns runsWithout
      split
      · exact List.Sublist.refl _
      · exact List.filter_sublist
    exact hkept.sublist ids_runsChangedByWorking
  have hsame : ∀ run ∈ stored.runs, ∀ run' ∈ stored.runs, run'.runId = run.runId → run' = run :=
    fun run hrun run' hrun' hid => List.inj_on_of_nodup_map hrows hrun' hrun hid
  constructor
  · intro h hsync run hrun hnot copy hfind hne
    have hid : copy.runId = run.runId := by
      rw [List.findRev?_eq_find?_reverse] at hfind
      simpa using List.find?_some hfind
    refine (h run hrun hnot).2 _ ?_ (runId_persisted.trans hid)
    unfold recordedRuns
    rw [hsync, if_pos rfl, mem_saveRuns hchanged]
    exact .inr ⟨copy, mem_changed (mem_runsWithout.mpr ⟨hrun, hnot⟩) hfind hne, rfl⟩
  · intro h run hrun hnot
    refine ⟨mem_ids_recordedRuns.mpr ⟨List.mem_map_of_mem hrun, hnot⟩, fun run' hrun' hid => ?_⟩
    unfold recordedRuns at hrun'
    dsimp only at hrun'
    split at hrun'
    · rename_i hsync
      rcases (mem_saveRuns hchanged).mp hrun' with ⟨hold, -⟩ | ⟨copy, hcopy, rfl⟩
      · rw [hsame run hrun run' (mem_keptRows.mp hold).1 hid]
      · rcases mem_runsChangedByWorking hcopy with ⟨row, hrow, hfind, hne, hrowId⟩
        rw [runId_persisted, hrowId] at hid
        have hrowEq := hsame run hrun row (mem_runsWithout.mp hrow).1 hid
        subst hrowEq
        exact h hsync row hrun hnot copy hfind hne
    · rw [hsame run hrun run' (mem_keptRows.mp hrun').1 hid]

/-! ## States -/

/-- An audit field of the merge is the working copy's, where it has one. -/
theorem valueKept_or {α : Type} {b s c : Option α} : ValueKept b s c (c.or s) ↔ (Outdated b s c → c = none) := by
  constructor
  · intro h hout
    have hafter := h hout.1 hout.2
    cases c with
    | none => rfl
    | some a =>
      rw [Option.some_or] at hafter
      exact absurd (hafter.symm.trans hout.2) hout.1
  · intro h hs hc
    rw [h ⟨hs, hc⟩, Option.none_or]

theorem eq_nil_of_normalize {l : List String} (h : normalizeCompactedRunIds l = []) (hid : id ∈ l) : id = "" := by
  by_contra hne
  have hcovers : Newest.Covers compactedRunIdRetentionLimit (normalizeCompactedRunIds l) id := Newest.covers_keep hid hne
  rw [h] at hcovers
  unfold compactedRunIdRetentionLimit at hcovers
  rcases hcovers with hmem | hlength
  · cases hmem
  · cases hlength

/-- The chunk writes no state for a scope that has none, unless it is its own and the chunk has a run. -/
theorem stateIsEmpty_chunkState : stateIsEmpty (chunkState metadata scope ids key) ↔
    stateIsEmpty (scopeStateAt metadata key) ∧ (key = scope.key → chunkRunIds ids = []) := by
  unfold chunkState
  by_cases hkey : key = scope.key
  · rw [if_pos hkey]
    constructor
    · intro hempty
      have hids : normalizeCompactedRunIds ((scopeStateAt metadata key).compactedRunIds ++ chunkRunIds ids) = [] :=
        congrArg HistoryScopeState.compactedRunIds hempty
      have hstate : (scopeStateAt metadata key).compactedRunIds = [] := by
        rw [List.eq_nil_iff_forall_not_mem]
        intro i hi
        have hblank := eq_nil_of_normalize hids (List.mem_append_left _ hi)
        rw [hblank] at hi
        exact kept_stateAt.2.1 hi
      have hchunk : chunkRunIds ids = [] := by
        rw [List.eq_nil_iff_forall_not_mem]
        intro i hi
        have hblank := eq_nil_of_normalize hids (List.mem_append_right _ hi)
        have hnamed : i ≠ "" := by simpa using List.of_mem_filter hi
        exact hnamed hblank
      refine ⟨?_, fun _ => hchunk⟩
      unfold stateIsEmpty at hempty ⊢
      cases hs : scopeStateAt metadata key with
      | mk compactedAt model count runIds force =>
        rw [hs] at hempty hstate
        injection hempty with hat hmodel hcount _ hforce
        change runIds = [] at hstate
        change compactedAt = none at hat
        change model = none at hmodel
        change count = none at hcount
        change force = false at hforce
        rw [hstate, hat, hmodel, hcount, hforce]
    · rintro ⟨hempty, hchunk⟩
      rw [hempty, hchunk hkey]
      unfold stateIsEmpty compactedRunIdsWith normalizeCompactedRunIds
      simp
  · rw [if_neg hkey]
    exact ⟨fun h => ⟨h, fun hk => absurd hk hkey⟩, fun h => h.1⟩

theorem chunkState_fields : (chunkState metadata scope ids key).lastCompactedAt = (scopeStateAt metadata key).lastCompactedAt ∧
    (chunkState metadata scope ids key).lastSummaryModel = (scopeStateAt metadata key).lastSummaryModel ∧
    (chunkState metadata scope ids key).lastCompactedRunCount = (scopeStateAt metadata key).lastCompactedRunCount ∧
    (chunkState metadata scope ids key).forceCompactBeforeNextRun =
      (scopeStateAt metadata key).forceCompactBeforeNextRun := by
  unfold chunkState
  split
  · exact ⟨rfl, rfl, rfl, rfl⟩
  · exact ⟨rfl, rfl, rfl, rfl⟩

theorem mergedState_fields {older newer : HistoryScopeState} :
    (mergedState older newer).lastCompactedAt = newer.lastCompactedAt.or older.lastCompactedAt ∧
      (mergedState older newer).lastSummaryModel = newer.lastSummaryModel.or older.lastSummaryModel ∧
      (mergedState older newer).lastCompactedRunCount = newer.lastCompactedRunCount.or older.lastCompactedRunCount ∧
      (mergedState older newer).forceCompactBeforeNextRun =
        if stateIsEmpty newer then older.forceCompactBeforeNextRun else newer.forceCompactBeforeNextRun := by
  unfold mergedState
  by_cases hempty : stateIsEmpty newer
  · rw [if_pos hempty, if_pos hempty, hempty]
    exact ⟨rfl, rfl, rfl, rfl⟩
  · rw [if_neg hempty, if_neg hempty]
    exact ⟨rfl, rfl, rfl, rfl⟩

/-- The fields of a scope's state after a chunk. -/
theorem recordedMetadata_fields {old : Option Dict} (hold : StoredMetadata old)
    (hworking : Proper (.obj (metadata.getD []))) :
    (scopeStateAt (some (recordedMetadata old metadata scope ids)) key).lastCompactedAt =
        (scopeStateAt metadata key).lastCompactedAt.or (scopeStateAt old key).lastCompactedAt ∧
      (scopeStateAt (some (recordedMetadata old metadata scope ids)) key).lastSummaryModel =
        (scopeStateAt metadata key).lastSummaryModel.or (scopeStateAt old key).lastSummaryModel ∧
      (scopeStateAt (some (recordedMetadata old metadata scope ids)) key).lastCompactedRunCount =
        (scopeStateAt metadata key).lastCompactedRunCount.or (scopeStateAt old key).lastCompactedRunCount ∧
      (scopeStateAt (some (recordedMetadata old metadata scope ids)) key).forceCompactBeforeNextRun =
        if stateIsEmpty (chunkState metadata scope ids key) then (scopeStateAt old key).forceCompactBeforeNextRun
        else (scopeStateAt metadata key).forceCompactBeforeNextRun := by
  rcases @chunkState_fields scope ids metadata key with ⟨hat, hmodel, hcount, hforce⟩
  rcases @mergedState_fields (scopeStateAt old key) (chunkState metadata scope ids key) with ⟨hat', hmodel', hcount', hforce'⟩
  rw [hat] at hat'
  rw [hmodel] at hmodel'
  rw [hcount] at hcount'
  rw [hforce] at hforce'
  rw [scopeStateAt_recordedMetadata hold hworking]
  dsimp only
  split
  · exact ⟨hat', hmodel', hcount', hforce'⟩
  · exact ⟨hat', hmodel', hcount', hforce'⟩

theorem force_kept_iff {older newer newest : Bool} {p : Prop} [Decidable p] :
    ValueKept older newer newest (if p then newer else newest) ↔ (Outdated older newer newest → p) := by
  constructor
  · intro h hout
    by_contra hp
    have hafter := h hout.1 hout.2
    rw [if_neg hp, hout.2] at hafter
    exact hout.1 hafter.symm
  · intro h hs hc
    rw [if_pos (h ⟨hs, hc⟩)]

theorem runIds_recordedMetadata {old : Option Dict} (hold : StoredMetadata old)
    (hworking : Proper (.obj (metadata.getD []))) (hkey : key ≠ scope.key) :
    (scopeStateAt (some (recordedMetadata old metadata scope ids)) key).compactedRunIds =
      if (scopeStateAt metadata key).compactedRunIds = [] then (scopeStateAt old key).compactedRunIds
      else (scopeStateAt metadata key).compactedRunIds := by
  have hsame : chunkState metadata scope ids key = scopeStateAt metadata key := if_neg hkey
  rw [scopeStateAt_recordedMetadata hold hworking]
  dsimp only
  rw [if_neg hkey, hsame, mergedState]
  by_cases hempty : stateIsEmpty (scopeStateAt metadata key)
  · rw [if_pos hempty, hempty, if_pos rfl]
  · rw [if_neg hempty]
    rfl

theorem runIds_kept_iff {older : List String} {old : Option Dict} (hold : StoredMetadata old)
    (hworking : Proper (.obj (metadata.getD []))) :
    ((scopeStateAt old key).compactedRunIds ≠ older → (scopeStateAt metadata key).compactedRunIds = older →
      Extends compactedRunIdRetentionLimit (scopeStateAt old key).compactedRunIds
        (scopeStateAt (some (recordedMetadata old metadata scope ids)) key).compactedRunIds) ↔
      (Outdated older (scopeStateAt old key).compactedRunIds (scopeStateAt metadata key).compactedRunIds →
        key = scope.key ∨ (scopeStateAt metadata key).compactedRunIds = [] ∨
          Extends compactedRunIdRetentionLimit (scopeStateAt old key).compactedRunIds
            (scopeStateAt metadata key).compactedRunIds) := by
  by_cases hkey : key = scope.key
  · constructor
    · exact fun _ _ => .inl hkey
    · intro _ _ _
      rw [scopeStateAt_recordedMetadata hold hworking]
      dsimp only
      rw [if_pos hkey]
      exact ⟨_, by rw [normalizeCompactedRunIds, List.append_assoc]⟩
  · rw [runIds_recordedMetadata hold hworking hkey]
    by_cases hnil : (scopeStateAt metadata key).compactedRunIds = []
    · rw [if_pos hnil]
      constructor
      · exact fun _ _ => .inr (.inl hnil)
      · exact fun _ _ _ => Extends.refl kept_stateAt
    · rw [if_neg hnil]
      constructor
      · exact fun h hout => .inr (.inr (h hout.1 hout.2))
      · exact fun h hs hc => ((h ⟨hs, hc⟩).resolve_left hkey).resolve_left hnil

/-- A scope's newer state is kept if and only if the working copy says nothing outdated of it. -/
theorem state_kept_iff {old : Option Dict} {older : HistoryScopeState} (hold : StoredMetadata old)
    (hworking : Proper (.obj (metadata.getD []))) : StateKept older (scopeStateAt old key) (scopeStateAt metadata key)
        (scopeStateAt (some (recordedMetadata old metadata scope ids)) key) ↔
      StateCurrent (key = scope.key) ids older (scopeStateAt old key) (scopeStateAt metadata key) := by
  rcases @recordedMetadata_fields scope ids metadata key old hold hworking with ⟨hat, hmodel, hcount, hforce⟩
  have hforceIff : ValueKept older.forceCompactBeforeNextRun (scopeStateAt old key).forceCompactBeforeNextRun
      (scopeStateAt metadata key).forceCompactBeforeNextRun
      (if stateIsEmpty (chunkState metadata scope ids key) then (scopeStateAt old key).forceCompactBeforeNextRun
      else (scopeStateAt metadata key).forceCompactBeforeNextRun) ↔
      (Outdated older.forceCompactBeforeNextRun (scopeStateAt old key).forceCompactBeforeNextRun
        (scopeStateAt metadata key).forceCompactBeforeNextRun →
          stateIsEmpty (scopeStateAt metadata key) ∧ (key = scope.key → chunkRunIds ids = [])) := by
    rw [force_kept_iff, stateIsEmpty_chunkState]
  have hidsIff := @runIds_kept_iff scope ids metadata key older.compactedRunIds old hold hworking
  constructor
  · intro h
    exact ⟨valueKept_or.mp (hat ▸ h.compactedAt), valueKept_or.mp (hmodel ▸ h.summaryModel),
      valueKept_or.mp (hcount ▸ h.runCount), hforceIff.mp (hforce ▸ h.force), hidsIff.mp h.runIds⟩
  · intro h
    constructor
    · rw [hat]
      exact valueKept_or.mpr h.compactedAt
    · rw [hmodel]
      exact valueKept_or.mpr h.summaryModel
    · rw [hcount]
      exact valueKept_or.mpr h.runCount
    · rw [hforce]
      exact hforceIff.mpr h.force
    · exact hidsIff.mpr h.runIds

/-! ## The theorem -/

/-- A chunk loses no concurrent update exactly when the working copy is current where it is written back. -/
theorem updates_kept_iff (hstored : CurrentMetadata stored.metadata) (hworking : CurrentMetadata working.metadata)
    (hrows : (stored.runs.map (·.runId)).Nodup) :
    KeepsUpdates base stored working (recordCompactionChunk promptRoles stored working scope ids sync) ids ↔
      CopyCurrent promptRoles base stored working scope ids sync := by
  constructor
  · intro h
    refine ⟨(runs_kept_iff hrows).mp h.runs, fun other => ?_⟩
    exact (state_kept_iff hstored.toStoredMetadata hworking.proper).mp (h.states other)
  · intro h
    refine ⟨(runs_kept_iff hrows).mpr h.runs, fun key id => seenAt_recordedMetadata hstored hworking, fun other => ?_⟩
    exact (state_kept_iff hstored.toStoredMetadata hworking.proper).mpr (h.states other)

/-! ## A redaction while a compaction runs -/

namespace RedactedRun

theorem planner_named : "" ≠ "planner" := by decide

def planner : CompactionScope := ⟨.agent, "planner", planner_named⟩

def run (text : String) : SessionRun := { runId := "r2", messages := [{ role := "user", content := text }] }

def loaded : Session String where
  runs := [{ runId := "r1" }, run "a secret"]

def redacted : Session String where
  runs := [{ runId := "r1" }, run "[redacted]"]

/-- The working copy, after the first run is summarized. -/
def copy : Session String where
  summary := some "the first run"
  runs := [run "a secret"]

/-- The last record of the pass writes the text back that was redacted in between. -/
theorem not_updates_kept : ¬ KeepsUpdates loaded redacted copy
    (recordCompactionChunk [] redacted copy planner ["r1"] true) ["r1"] := by
  intro h
  have hruns : (recordCompactionChunk [] redacted copy planner ["r1"] true).runs = [run "a secret"] := by
    decide +kernel
  have hstays : ¬ Descends redacted.runs (chunkRunIds ["r1"]) (run "[redacted]").runId := by
    rw [← mem_removedIds]
    decide +kernel
  have hbody := (h.runs (run "[redacted]") (by simp [redacted]) hstays).2 (run "a secret") (by simp [hruns]) rfl
  exact absurd hbody (by decide)

theorem current_none : CurrentMetadata none where
  proper := proper_nil
  current v hv := by cases hv
  seen v hv := by cases hv

/-- A chunk that is recorded before the runs are synced leaves the redaction. -/
theorem first_chunk_keeps : KeepsUpdates loaded redacted copy
    (recordCompactionChunk [] redacted copy planner ["r1"] false) ["r1"] := by
  refine (updates_kept_iff current_none current_none (by decide)).mpr ⟨?_, fun other => ?_⟩
  · intro hsync
    cases hsync
  have hstate : ∀ session ∈ [loaded, redacted, copy], readScopeState session.metadata other = {} := by
    intro session hsession
    simp only [List.mem_cons, List.not_mem_nil, or_false] at hsession
    rcases hsession with rfl | rfl | rfl
    · rfl
    · rfl
    · rfl
  rw [hstate loaded (by simp), hstate redacted (by simp), hstate copy (by simp)]
  exact ⟨fun h => absurd rfl h.1, fun h => absurd rfl h.1, fun h => absurd rfl h.1, fun h => absurd rfl h.1,
    fun h => absurd rfl h.1⟩

end RedactedRun

end MindRoom
