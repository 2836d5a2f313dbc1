import MindRoom.CompactionRuns
import MindRoom.SeenEvents

/-! # Recording a compaction chunk

`record_compaction_chunk` merges the metadata of a working copy over the freshest stored row,
writes the row, and then removes the runs of the chunk from the table. A session is its metadata,
its summary and its runs; the table of runs is the runs of the stored session.
-/

namespace MindRoom

open JsonText (Proper)

/-- `AgentSession | TeamSession`: the fields compaction reads and writes. -/
structure Session (σ : Type) where
  metadata : Option Dict := none
  summary : Option σ := none
  runs : List SessionRun := []
deriving DecidableEq

variable {σ : Type} {stored working : Session σ} {metadata : Option Dict} {scope : CompactionScope} {ids : List String}
  {key : String} {state : HistoryScopeState}

/-- `[run_id for run_id in compacted_run_ids if run_id]`. -/
def chunkRunIds (ids : List String) : List String := ids.filter (· ≠ "")

/-- The metadata of the working session, after the ids of the chunk are written to its own state. -/
def workingMetadata (working : Option Dict) (scope : CompactionScope) (ids : List String) : Dict :=
  writeScopeState working scope
    { readScopeState working scope with
      compactedRunIds := compactedRunIdsWith (readScopeState working scope) (chunkRunIds ids) }

/-- The metadata of the stored row with the metadata of the working session merged over it. -/
def mergedMetadata (stored : Option Dict) (written : Dict) : Option Dict :=
  metadataWithMergedSeenEventIds (deepMergeMetadata stored (some written)) [stored, some written]

/-- The metadata that is stored: the tombstones of the scope are those stored before, those of the
merge and those of the chunk. -/
def recordedMetadata (stored working : Option Dict) (scope : CompactionScope) (ids : List String) : Dict :=
  let merged := mergedMetadata stored (workingMetadata working scope ids)
  writeScopeState merged scope
    { readScopeState merged scope with
      compactedRunIds := normalizeCompactedRunIds
        ((readScopeState stored scope).compactedRunIds ++ (readScopeState merged scope).compactedRunIds ++
          chunkRunIds ids) }

/-- The stored session after `upsert_session`: its runs are not touched yet. -/
def upsertedSession (stored working : Session σ) (scope : CompactionScope) (ids : List String) : Session σ :=
  { stored with
    metadata := some (recordedMetadata stored.metadata working.metadata scope ids)
    summary := working.summary }

def keptRuns (stored : Session σ) (ids : List String) : List SessionRun := runsWithout stored.runs (chunkRunIds ids)

/-- The rows that are left in the table. -/
def recordedRuns (promptRoles : List String) (stored working : Session σ) (ids : List String) (sync : Bool) :
    List SessionRun :=
  let rows := replaceRuns stored.runs stored.runs (keptRuns stored ids)
  if sync then saveRuns promptRoles rows (runsChangedByWorking (keptRuns stored ids) working.runs) else rows

/-- `record_compaction_chunk`: the stored session after it. -/
def recordCompactionChunk (promptRoles : List String) (stored working : Session σ) (scope : CompactionScope)
    (ids : List String) (sync : Bool) : Session σ :=
  { upsertedSession stored working scope ids with runs := recordedRuns promptRoles stored working ids sync }

/-- `prune_reintroduced_runs`, of a session that holds the runs of the table. -/
def pruneReintroducedRuns (stored : Session σ) (state : HistoryScopeState) : Session σ :=
  if state.compactedRunIds = [] then stored
  else { stored with runs := replaceRuns stored.runs stored.runs (runsWithout stored.runs state.compactedRunIds) }

/-! ## The states after a chunk -/

def chunkState (working : Option Dict) (scope : CompactionScope) (ids : List String) (key : String) :
    HistoryScopeState :=
  if key = scope.key then
    { scopeStateAt working key with compactedRunIds := compactedRunIdsWith (scopeStateAt working key) (chunkRunIds ids) }
  else scopeStateAt working key

theorem written_workingMetadata : WrittenMetadata (workingMetadata metadata scope ids) (chunkState metadata scope ids) := by
  have hwritten := @written_writeScopeState metadata
    { readScopeState metadata scope with
      compactedRunIds := compactedRunIdsWith (readScopeState metadata scope) (chunkRunIds ids) } scope
    (by simp [HistoryScopeState.normalized, compactedRunIdsWith])
  have hstates : (fun key => if key = scope.key then
      { readScopeState metadata scope with
        compactedRunIds := compactedRunIdsWith (readScopeState metadata scope) (chunkRunIds ids) }
      else scopeStateAt metadata key) = chunkState metadata scope ids := by
    funext key
    unfold chunkState readScopeState
    by_cases hkey : key = scope.key
    · rw [if_pos hkey, if_pos hkey, hkey]
    · rw [if_neg hkey, if_neg hkey]
  rw [← hstates]
  exact hwritten

/-- The states after a chunk: every scope's state of the working copy is laid over the stored one, and
the scope of the chunk has all its tombstones again. -/
theorem scopeStateAt_recordedMetadata {old : Option Dict} (hstored : StoredMetadata old)
    (hworking : Proper (.obj (metadata.getD []))) : scopeStateAt (some (recordedMetadata old metadata scope ids)) key =
      let merged := mergedState (scopeStateAt old key) (chunkState metadata scope ids key)
      if key = scope.key then
        { merged with
          compactedRunIds := normalizeCompactedRunIds
            ((scopeStateAt old key).compactedRunIds ++ merged.compactedRunIds ++ chunkRunIds ids) }
      else merged := by
  have hmerged : ∀ key, scopeStateAt (mergedMetadata old (workingMetadata metadata scope ids)) key =
      mergedState (scopeStateAt old key) (chunkState metadata scope ids key) := by
    intro key
    unfold mergedMetadata
    rw [scopeStateAt_metadataWithMergedSeenEventIds]
    exact scopeStateAt_merged hstored (proper_writeScopeState hworking) written_workingMetadata
  unfold recordedMetadata
  dsimp only
  rw [scopeStateAt_writeScopeState (by simp [HistoryScopeState.normalized])]
  unfold readScopeState
  by_cases hkey : key = scope.key
  · rw [if_pos hkey, if_pos hkey, hmerged, hkey]
  · rw [if_neg hkey, if_neg hkey, hmerged]

theorem stored_recordedMetadata {old : Option Dict} (hstored : StoredMetadata old)
    (hworking : Proper (.obj (metadata.getD []))) : StoredMetadata (some (recordedMetadata old metadata scope ids)) := by
  have hmerged : StoredMetadata (mergedMetadata old (workingMetadata metadata scope ids)) :=
    (hstored.merged (proper_writeScopeState hworking) written_workingMetadata).mergedSeen
  exact .of_written (written_writeScopeState (by simp [HistoryScopeState.normalized]))
    (proper_writeScopeState hmerged.proper)

/-! ## The runs after a chunk -/

theorem mem_keptRows {run : SessionRun} : run ∈ replaceRuns stored.runs stored.runs (keptRuns stored ids) ↔
    run ∈ stored.runs ∧ ¬ Descends stored.runs (chunkRunIds ids) run.runId := mem_replaceRuns

theorem mem_pruneReintroducedRuns {run : SessionRun} : run ∈ (pruneReintroducedRuns stored state).runs ↔
    run ∈ stored.runs ∧ ¬ Descends stored.runs state.compactedRunIds run.runId := by
  unfold pruneReintroducedRuns
  split
  · rename_i hnil
    rw [hnil]
    constructor
    · exact fun h => ⟨h, not_descends_of_nil rfl⟩
    · exact fun h => h.1
  · exact mem_replaceRuns

/-- Writing runs takes no run id away, and adds only the ids of the runs written. -/
theorem mem_ids_upsertRun {promptRoles : List String} {rows : List SessionRun} {run : SessionRun} {runId : String} :
    runId ∈ (upsertRun promptRoles rows run).map (·.runId) ↔ runId ∈ rows.map (·.runId) ∨ runId = run.runId := by
  have hpersisted : (persisted promptRoles run).runId = run.runId := by
    unfold persisted
    split <;> rfl
  unfold upsertRun
  split
  · rename_i hmem
    have hids : (rows.map fun row => if row.runId = run.runId then persisted promptRoles run else row).map (·.runId) =
        rows.map (·.runId) := by
      rw [List.map_map]
      refine List.map_congr_left fun row _ => ?_
      by_cases hrow : row.runId = run.runId
      · simp [hrow, hpersisted]
      · simp [hrow]
    rw [hids]
    constructor
    · exact .inl
    · rintro (h | rfl)
      · exact h
      · exact hmem
  · rw [List.map_append, List.mem_append, List.map_singleton, List.mem_singleton, hpersisted]

theorem mem_ids_saveRuns {promptRoles : List String} {rows runs : List SessionRun} {runId : String} :
    runId ∈ (saveRuns promptRoles rows runs).map (·.runId) ↔
      runId ∈ rows.map (·.runId) ∨ runId ∈ runs.map (·.runId) := by
  unfold saveRuns
  induction runs generalizing rows with
  | nil => simp
  | cons run runs ih => rw [List.foldl_cons, ih, mem_ids_upsertRun, List.map_cons, List.mem_cons, or_assoc]

theorem mem_runsChangedByWorking {target workingRuns : List SessionRun} {run : SessionRun}
    (h : run ∈ runsChangedByWorking target workingRuns) :
    ∃ row ∈ target, workingRuns.findRev? (·.runId = row.runId) = some run ∧ run ≠ row ∧ run.runId = row.runId := by
  unfold runsChangedByWorking at h
  rw [List.mem_filterMap] at h
  rcases h with ⟨row, hrow, hrun⟩
  split at hrun
  · rename_i working hfind
    split at hrun
    · cases hrun
    · rename_i hne
      cases hrun
      refine ⟨row, hrow, hfind, hne, ?_⟩
      rw [List.findRev?_eq_find?_reverse] at hfind
      simpa using List.find?_some hfind
  · cases hrun

/-- The ids in the table after a chunk are those of the stored runs that do not descend from it. -/
theorem mem_ids_recordedRuns {promptRoles : List String} {sync : Bool} {runId : String} :
    runId ∈ (recordedRuns promptRoles stored working ids sync).map (·.runId) ↔
      runId ∈ stored.runs.map (·.runId) ∧ ¬ Descends stored.runs (chunkRunIds ids) runId := by
  have hrows : runId ∈ (replaceRuns stored.runs stored.runs (keptRuns stored ids)).map (·.runId) ↔
      runId ∈ stored.runs.map (·.runId) ∧ ¬ Descends stored.runs (chunkRunIds ids) runId := by
    simp only [List.mem_map, mem_keptRows]
    constructor
    · rintro ⟨run, ⟨hrun, hnot⟩, rfl⟩
      exact ⟨⟨run, hrun, rfl⟩, hnot⟩
    · rintro ⟨⟨run, hrun, rfl⟩, hnot⟩
      exact ⟨run, ⟨hrun, hnot⟩, rfl⟩
  unfold recordedRuns
  dsimp only
  split
  · rw [mem_ids_saveRuns, hrows]
    constructor
    · rintro (h | h)
      · exact h
      · rcases List.mem_map.mp h with ⟨run, hrun, rfl⟩
        rcases mem_runsChangedByWorking hrun with ⟨row, hrow, -, -, hid⟩
        rw [keptRuns, mem_runsWithout] at hrow
        rw [hid]
        exact ⟨List.mem_map_of_mem hrow.1, hrow.2⟩
    · exact .inl
  · exact hrows

end MindRoom
