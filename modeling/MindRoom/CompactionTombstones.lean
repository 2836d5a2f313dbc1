import MindRoom.CompactionRecord
import MindRoom.Systems

/-! # Compacted runs stay away

The stored session, the working copies that compaction passes have loaded from it, and the
sessions that stale writers still hold. A pass records its chunks against the freshest row; a
crash falls between the write of the row and the deletion of the runs. The tombstones of a
scope are the run ids its compactions have folded into the summary.
-/

namespace MindRoom

open JsonText (Proper)
open Newest (Extends Kept)

/-- A summary, with the runs it stands for under their scopes. -/
structure Summary where
  text : String
  replaced : List (String × String) := []
deriving DecidableEq

/-- One pass of `compact_scope_history`: its working session, the state it was given, and the ids it
has compacted. -/
structure CompactionPass where
  scope : CompactionScope
  session : Session Summary
  state : HistoryScopeState
  ids : List String := []
deriving DecidableEq

/-- The stored session, the passes, every row there has been, and every id that was ever compacted. -/
structure CompactionWorld where
  stored : Session Summary
  passes : List CompactionPass := []
  past : List (Session Summary) := []
  compacted : List String := []
deriving DecidableEq

/-- What happens to a stored session. -/
inductive CompactionLabel where
  /-- A pass copies the session. -/
  | load (scope : CompactionScope)
  /-- A chunk is summarized and recorded, up to a crash before its runs are deleted. -/
  | chunk (i : Nat) (summary : Option String) (seen ids : List String) (sync crash : Bool)
  /-- The pass writes its final audit state to its working session. -/
  | finish (i : Nat) (compactedAt model : String) (count : Int)
  /-- The pass strips replay fields from the runs of its working session. -/
  | strip (i : Nat)
  /-- A run is written, new or from a stale session. -/
  | writeRun (run : SessionRun)
  /-- A stale session writes its row. -/
  | writeSession (j : Nat)
  /-- `prune_reintroduced_runs`, for the session loaded now. -/
  | prune (scope : CompactionScope)

/-! ## Steps -/

def tombstones (session : Session Summary) (key : String) : List String :=
  (scopeStateAt session.metadata key).compactedRunIds

def summarized (pass : CompactionPass) (summary : Option String) (seen ids : List String) : Session Summary where
  metadata := updateScopeSeenEventIds pass.session.metadata pass.scope seen
  summary :=
    match summary with
    | some text =>
      some ⟨text, ((pass.session.summary.map (·.replaced)).getD []) ++
        (chunkRunIds ids).map fun id => (pass.scope.key, id)⟩
    | none => pass.session.summary
  runs := runsWithout pass.session.runs ids

def recordedPass (pass : CompactionPass) (summary : Option String) (seen ids : List String) : CompactionPass :=
  { pass with
    session :=
      { summarized pass summary seen ids with
        metadata := some (workingMetadata (summarized pass summary seen ids).metadata pass.scope ids) }
    ids := pass.ids ++ chunkRunIds ids }

def recordedSession (promptRoles : List String) (stored : Session Summary) (pass : CompactionPass)
    (summary : Option String) (seen ids : List String) (sync crash : Bool) : Session Summary :=
  if crash then upsertedSession stored (summarized pass summary seen ids) pass.scope ids
  else recordCompactionChunk promptRoles stored (summarized pass summary seen ids) pass.scope ids sync

def recordChunk (promptRoles : List String) (w : CompactionWorld) (i : Nat) (pass : CompactionPass)
    (summary : Option String) (seen ids : List String) (sync crash : Bool) : CompactionWorld where
  stored := recordedSession promptRoles w.stored pass summary seen ids sync crash
  passes := if crash then w.passes.eraseIdx i else w.passes.set i (recordedPass pass summary seen ids)
  past := recordedSession promptRoles w.stored pass summary seen ids sync crash :: w.past
  compacted := w.compacted ++ chunkRunIds ids

/-- The state `compact_scope_history` writes before its last record. -/
def finalState (pass : CompactionPass) (compactedAt model : String) (count : Int) : HistoryScopeState where
  lastCompactedAt := some compactedAt
  lastSummaryModel := some model
  lastCompactedRunCount := some count
  compactedRunIds := compactedRunIdsWith pass.state pass.ids

def compactionStep (promptRoles : List String) (label : CompactionLabel) (w : CompactionWorld) :
    Option CompactionWorld :=
  match label with
  | .load scope =>
    some { w with passes := w.passes ++ [⟨scope, w.stored, readScopeState w.stored.metadata scope, []⟩] }
  | .chunk i summary seen ids sync crash =>
    w.passes[i]?.map fun pass => recordChunk promptRoles w i pass summary seen ids sync crash
  | .finish i compactedAt model count =>
    w.passes[i]?.map fun pass =>
      { w with passes := w.passes.set i { pass with
          session := { pass.session with
            metadata := some (writeScopeState pass.session.metadata pass.scope
              (finalState pass compactedAt model count)) } } }
  | .strip i =>
    w.passes[i]?.map fun pass =>
      { w with passes := w.passes.set i { pass with
          session := { pass.session with runs := (stripRuns pass.session.runs).1 } } }
  | .writeRun run => some { w with stored := { w.stored with runs := upsertRun promptRoles w.stored.runs run } }
  | .writeSession j =>
    w.past[j]?.map fun row =>
      { w with stored := { w.stored with metadata := row.metadata, summary := row.summary } }
  | .prune scope =>
    some { w with stored := pruneReintroducedRuns w.stored (readScopeState w.stored.metadata scope) }

/-- Every run a visible summary replaces has its tombstone, unless newer ones fill the list. -/
def CoveredBy (metadata : Option Dict) (summary : Option Summary) : Prop :=
  ∀ s ∈ summary, ∀ entry ∈ s.replaced,
    Newest.Covers compactedRunIdRetentionLimit (scopeStateAt metadata entry.1).compactedRunIds entry.2

/-- The tombstones of a stored session are ids that were compacted. -/
def Known (compacted : List String) (metadata : Option Dict) : Prop :=
  ∀ key, ∀ id ∈ (scopeStateAt metadata key).compactedRunIds, id ∈ compacted

/-- A session that `mindroom.history.storage` has written, its tombstones those of compacted runs. -/
structure SoundSession (compacted : List String) (session : Session Summary) : Prop where
  stored : StoredMetadata session.metadata
  known : Known compacted session.metadata
  covered : CoveredBy session.metadata session.summary

/-- Any stored session. -/
def CompactionStart (w : CompactionWorld) : Prop :=
  SoundSession w.compacted w.stored ∧ w.passes = [] ∧ w.past = [w.stored]

def compactionSystem (promptRoles : List String) : System CompactionWorld CompactionLabel where
  start := CompactionStart
  step label w w' := compactionStep promptRoles label w = some w'

/-! ## What a step must keep -/

/-- Compacted runs stay away: a prune leaves no tombstoned run and no descendant of one, a chunk keeps
the tombstones of every scope up to the limit, only compacted runs and their descendants are removed, and
a summary comes with the tombstones of the runs it replaces. -/
structure StaysAway (label : CompactionLabel) (w w' : CompactionWorld) : Prop where
  pruned : ∀ scope, label = .prune scope → ∀ run ∈ w'.stored.runs,
    ¬ Descends w.stored.runs (tombstones w'.stored scope.key) run.runId
  kept : ∀ i summary seen ids sync crash, label = .chunk i summary seen ids sync crash →
    ∀ scope : CompactionScope, Extends compactedRunIdRetentionLimit (tombstones w.stored scope.key)
      (tombstones w'.stored scope.key)
  removed : ∀ run ∈ w.stored.runs, run.runId ∉ w'.stored.runs.map (·.runId) →
    Descends w.stored.runs w'.compacted run.runId
  covered : CoveredBy w'.stored.metadata w'.stored.summary

/-- When a chunk is recorded, the working copy has the stored tombstones of every other scope, or none. -/
def CopyKeepsTombstones (label : CompactionLabel) (w : CompactionWorld) : Prop :=
  match label with
  | .chunk i _ _ _ _ _ =>
    ∀ pass ∈ w.passes[i]?, ∀ scope : CompactionScope, scope.key ≠ pass.scope.key →
      tombstones pass.session scope.key = [] ∨
        Extends compactedRunIdRetentionLimit (tombstones w.stored scope.key) (tombstones pass.session scope.key)
  | _ => True

/-! ## The invariant -/

/-- What holds of a pass: its session is sound, and what its summary replaces for its own scope was
tombstoned when it started or is compacted by it. -/
structure SoundPass (compacted : List String) (pass : CompactionPass) : Prop where
  session : SoundSession compacted pass.session
  kept : Kept compactedRunIdRetentionLimit pass.state.compactedRunIds
  known : ∀ id ∈ pass.state.compactedRunIds ++ pass.ids, id ∈ compacted
  replaced : ∀ s ∈ pass.session.summary, ∀ entry ∈ s.replaced, entry.1 = pass.scope.key →
    Newest.Covers compactedRunIdRetentionLimit pass.state.compactedRunIds entry.2 ∨ entry.2 ∈ chunkRunIds pass.ids

structure CompactionInv (w : CompactionWorld) : Prop where
  stored : SoundSession w.compacted w.stored
  past : ∀ session ∈ w.past, SoundSession w.compacted session
  passes : ∀ pass ∈ w.passes, SoundPass w.compacted pass

variable {promptRoles : List String} {label : CompactionLabel} {w w' : CompactionWorld} {pass : CompactionPass}
  {session : Session Summary} {compacted ids seen : List String} {summary : Option String} {metadata : Option Dict}
  {scope : CompactionScope} {key id : String} {sync crash : Bool}

theorem retentionLimit_pos : 0 < compactedRunIdRetentionLimit := by
  unfold compactedRunIdRetentionLimit
  decide

theorem SoundSession.mono {compacted' : List String} (h : SoundSession compacted session) (hsub : ∀ id ∈ compacted, id ∈ compacted') :
    SoundSession compacted' session where
  stored := h.stored
  known key id hid := hsub id (h.known key id hid)
  covered := h.covered

theorem SoundPass.mono {compacted' : List String} (h : SoundPass compacted pass)
    (hsub : ∀ id ∈ compacted, id ∈ compacted') : SoundPass compacted' pass where
  session := h.session.mono hsub
  kept := h.kept
  known id hid := hsub id (h.known id hid)
  replaced := h.replaced

/-! ### Tombstones of a merge -/

theorem tombstones_over {older newer : HistoryScopeState} (h : newer.compactedRunIds ≠ []) :
    (mergedState older newer).compactedRunIds = newer.compactedRunIds := by
  have hnewer : ¬ stateIsEmpty newer := by
    rintro rfl
    exact h rfl
  unfold mergedState
  rw [if_neg hnewer]
  exact if_neg h

theorem tombstones_over_nil {older newer : HistoryScopeState} (h : newer.compactedRunIds = []) :
    (mergedState older newer).compactedRunIds = older.compactedRunIds := by
  unfold mergedState
  split
  · rfl
  · exact if_pos h

theorem mem_tombstones_merged {older newer : HistoryScopeState} (h : id ∈ (mergedState older newer).compactedRunIds) :
    id ∈ older.compactedRunIds ∨ id ∈ newer.compactedRunIds := by
  by_cases hnil : newer.compactedRunIds = []
  · rw [tombstones_over_nil hnil] at h
    exact .inl h
  · rw [tombstones_over hnil] at h
    exact .inr h

theorem ne_nil_of_covers {l : List String} (h : Newest.Covers compactedRunIdRetentionLimit l id) : l ≠ [] := by
  rintro rfl
  rcases h with h | h
  · cases h
  · have := retentionLimit_pos
    rw [List.length_nil] at h
    omega

theorem kept_chunkState : Kept compactedRunIdRetentionLimit (chunkState metadata scope ids key).compactedRunIds := by
  unfold chunkState
  split
  · exact kept_normalize
  · exact kept_stateAt

theorem mem_chunkState (h : id ∈ (chunkState metadata scope ids key).compactedRunIds) :
    id ∈ (scopeStateAt metadata key).compactedRunIds ∨ id ∈ chunkRunIds ids := by
  unfold chunkState at h
  split at h
  · exact List.mem_append.mp (Newest.mem_of_mem_keep h)
  · exact .inl h

/-- What the working copy covers it still covers with the ids of the chunk. -/
theorem covers_chunkState (h : Newest.Covers compactedRunIdRetentionLimit (scopeStateAt metadata key).compactedRunIds id) :
    Newest.Covers compactedRunIdRetentionLimit (chunkState metadata scope ids key).compactedRunIds id := by
  unfold chunkState
  split
  · exact h.of_subset kept_stateAt fun i hi => List.mem_append_left _ hi
  · exact h

theorem covers_chunkState_new (h : id ∈ chunkRunIds ids) :
    Newest.Covers compactedRunIdRetentionLimit (chunkState metadata scope ids scope.key).compactedRunIds id := by
  have hid : id ≠ "" := by simpa using List.of_mem_filter h
  unfold chunkState
  rw [if_pos rfl]
  exact Newest.covers_keep (List.mem_append_right _ h) hid

/-- What the merged states cover is covered once the chunk is recorded. -/
theorem covers_recordedMetadata {old : Option Dict} (hstored : StoredMetadata old)
    (hworking : Proper (.obj (metadata.getD [])))
    (h : Newest.Covers compactedRunIdRetentionLimit (chunkState metadata scope ids key).compactedRunIds id) :
    Newest.Covers compactedRunIdRetentionLimit
      (scopeStateAt (some (recordedMetadata old metadata scope ids)) key).compactedRunIds id := by
  have hmerged : (mergedState (scopeStateAt old key) (chunkState metadata scope ids key)).compactedRunIds =
      (chunkState metadata scope ids key).compactedRunIds := tombstones_over (ne_nil_of_covers h)
  rw [scopeStateAt_recordedMetadata hstored hworking]
  dsimp only
  split
  · refine h.of_subset kept_chunkState fun i hi => ?_
    rw [hmerged]
    exact List.mem_append_left _ (List.mem_append_right _ hi)
  · rwa [hmerged]

theorem known_recordedMetadata {old : Option Dict} (hstored : StoredMetadata old)
    (hworking : Proper (.obj (metadata.getD []))) (hold : Known compacted old) (hnew : Known compacted metadata) :
    Known (compacted ++ chunkRunIds ids) (some (recordedMetadata old metadata scope ids)) := by
  have hmerged : ∀ key, ∀ id ∈ (mergedState (scopeStateAt old key) (chunkState metadata scope ids key)).compactedRunIds,
      id ∈ compacted ++ chunkRunIds ids := by
    intro key id hid
    rw [List.mem_append]
    rcases mem_tombstones_merged hid with hid | hid
    · exact .inl (hold key id hid)
    · rcases mem_chunkState hid with hid | hid
      · exact .inl (hnew key id hid)
      · exact .inr hid
  intro key id hid
  rw [scopeStateAt_recordedMetadata hstored hworking] at hid
  dsimp only at hid
  split at hid
  · have hid := Newest.mem_of_mem_keep hid
    rw [List.mem_append, List.mem_append] at hid
    rcases hid with (hid | hid) | hid
    · exact List.mem_append_left _ (hold key id hid)
    · exact hmerged key id hid
    · exact List.mem_append_right _ hid
  · exact hmerged key id hid

/-- The tombstones of every scope that the working copy keeps are kept. -/
theorem extends_recordedMetadata {old : Option Dict} (hstored : StoredMetadata old)
    (hworking : Proper (.obj (metadata.getD [])))
    (hkeeps : key ≠ scope.key → (scopeStateAt metadata key).compactedRunIds = [] ∨
      Extends compactedRunIdRetentionLimit (scopeStateAt old key).compactedRunIds (scopeStateAt metadata key).compactedRunIds) :
    Extends compactedRunIdRetentionLimit (scopeStateAt old key).compactedRunIds
      (scopeStateAt (some (recordedMetadata old metadata scope ids)) key).compactedRunIds := by
  rw [scopeStateAt_recordedMetadata hstored hworking]
  dsimp only
  split
  · exact ⟨_, by rw [normalizeCompactedRunIds, List.append_assoc]⟩
  · rename_i hkey
    have hsame : chunkState metadata scope ids key = scopeStateAt metadata key := if_neg hkey
    rw [hsame]
    by_cases hnil : (scopeStateAt metadata key).compactedRunIds = []
    · rw [tombstones_over_nil hnil]
      exact Extends.refl kept_stateAt
    · rw [tombstones_over hnil]
      exact (hkeeps hkey).resolve_left hnil

/-! ### Chunks -/

theorem scopeStateAt_summarized : scopeStateAt (summarized pass summary seen ids).metadata key = scopeStateAt pass.session.metadata key :=
  scopeStateAt_updateScopeSeenEventIds

theorem stored_summarized (h : StoredMetadata pass.session.metadata) :
    StoredMetadata (summarized pass summary seen ids).metadata := h.updateSeen

theorem chunkState_summarized : chunkState (summarized pass summary seen ids).metadata scope ids key =
    chunkState pass.session.metadata scope ids key := by
  unfold chunkState
  rw [scopeStateAt_summarized]

/-- What a summary replaces after a chunk was replaced before, or is a run of the chunk. -/
theorem replaced_summarized {s : Summary} {entry : String × String}
    (hs : s ∈ (summarized pass summary seen ids).summary) (hentry : entry ∈ s.replaced) :
    (∃ s' ∈ pass.session.summary, entry ∈ s'.replaced) ∨ entry.1 = pass.scope.key ∧ entry.2 ∈ chunkRunIds ids := by
  unfold summarized at hs
  cases summary with
  | none => exact .inl ⟨s, hs, hentry⟩
  | some text =>
    rw [Option.mem_some_iff] at hs
    rw [← hs] at hentry
    rcases List.mem_append.mp hentry with hold | hnew
    · left
      cases hsession : pass.session.summary with
      | none =>
        rw [hsession] at hold
        cases hold
      | some s' =>
        rw [hsession] at hold
        exact ⟨s', rfl, hold⟩
    · right
      rcases List.mem_map.mp hnew with ⟨i, hi, rfl⟩
      exact ⟨rfl, hi⟩

/-- Everything the new summary replaces is covered by the states of the chunk. -/
theorem covers_summarized {s : Summary} {entry : String × String} (h : SoundPass compacted pass)
    (hs : s ∈ (summarized pass summary seen ids).summary) (hentry : entry ∈ s.replaced) :
    Newest.Covers compactedRunIdRetentionLimit
      (chunkState (summarized pass summary seen ids).metadata pass.scope ids entry.1).compactedRunIds entry.2 := by
  rw [chunkState_summarized]
  rcases replaced_summarized hs hentry with ⟨s', hs', hentry'⟩ | ⟨hkey, hid⟩
  · exact covers_chunkState (h.session.covered s' hs' entry hentry')
  · rw [hkey]
    exact covers_chunkState_new hid

theorem sound_recordedSession (hstored : SoundSession compacted session) (h : SoundPass compacted pass) :
    SoundSession (compacted ++ chunkRunIds ids) (recordedSession promptRoles session pass summary seen ids sync crash) := by
  have hworking : Proper (.obj ((summarized pass summary seen ids).metadata.getD [])) :=
    (stored_summarized h.session.stored).proper
  have hmetadata : (recordedSession promptRoles session pass summary seen ids sync crash).metadata =
      some (recordedMetadata session.metadata (summarized pass summary seen ids).metadata pass.scope ids) := by
    unfold recordedSession
    split <;> rfl
  have hsummary : (recordedSession promptRoles session pass summary seen ids sync crash).summary =
      (summarized pass summary seen ids).summary := by
    unfold recordedSession
    split <;> rfl
  constructor
  · rw [hmetadata]
    exact stored_recordedMetadata hstored.stored hworking
  · rw [hmetadata]
    refine known_recordedMetadata hstored.stored hworking hstored.known fun key id hid => ?_
    rw [scopeStateAt_summarized] at hid
    exact h.session.known key id hid
  · rw [hmetadata, hsummary]
    intro s hs entry hentry
    exact covers_recordedMetadata hstored.stored hworking (covers_summarized h hs hentry)

theorem sound_recordedPass (h : SoundPass compacted pass) :
    SoundPass (compacted ++ chunkRunIds ids) (recordedPass pass summary seen ids) := by
  have hstate : ∀ key, scopeStateAt (some (workingMetadata (summarized pass summary seen ids).metadata pass.scope ids)) key =
      chunkState (summarized pass summary seen ids).metadata pass.scope ids key :=
    fun key => scopeStateAt_written written_workingMetadata
  constructor
  · constructor
    · exact .of_written written_workingMetadata (proper_writeScopeState (stored_summarized h.session.stored).proper)
    · intro key id hid
      change id ∈ (scopeStateAt (some (workingMetadata _ _ _)) key).compactedRunIds at hid
      rw [hstate, chunkState_summarized] at hid
      rw [List.mem_append]
      rcases mem_chunkState hid with hid | hid
      · exact .inl (h.session.known key id hid)
      · exact .inr hid
    · intro s hs entry hentry
      change Newest.Covers _ (scopeStateAt (some (workingMetadata _ _ _)) entry.1).compactedRunIds entry.2
      rw [hstate]
      exact covers_summarized h hs hentry
  · exact h.kept
  · intro id hid
    change id ∈ pass.state.compactedRunIds ++ (pass.ids ++ chunkRunIds ids) at hid
    rw [← List.append_assoc, List.mem_append] at hid
    rw [List.mem_append]
    rcases hid with hid | hid
    · exact .inl (h.known id hid)
    · exact .inr hid
  · intro s hs entry hentry hkey
    change s ∈ (summarized pass summary seen ids).summary at hs
    change _ ∨ entry.2 ∈ chunkRunIds (pass.ids ++ chunkRunIds ids)
    unfold chunkRunIds
    rw [List.filter_append, List.mem_append]
    rcases replaced_summarized hs hentry with ⟨s', hs', hentry'⟩ | ⟨-, hid⟩
    · rcases h.replaced s' hs' entry hentry' hkey with hcovers | hid
      · exact .inl hcovers
      · exact .inr (.inl hid)
    · right
      right
      have hne : entry.2 ≠ "" := by simpa using List.of_mem_filter hid
      rw [List.mem_filter]
      exact ⟨hid, by simpa using hne⟩

/-! ### The other steps -/

theorem soundPass_load (h : SoundSession compacted session) :
    SoundPass compacted ⟨scope, session, readScopeState session.metadata scope, []⟩ where
  session := h
  kept := kept_stateAt
  known id hid := by
    rw [List.append_nil] at hid
    exact h.known scope.key id hid
  replaced s hs entry hentry hkey := by
    left
    have hcovered := h.covered s hs entry hentry
    rwa [hkey] at hcovered

/-- The final state has the tombstones the pass started with and those it added. -/
theorem soundPass_finish {compactedAt model : String} {count : Int} (h : SoundPass compacted pass) :
    SoundPass compacted { pass with
      session := { pass.session with
        metadata := some (writeScopeState pass.session.metadata pass.scope
          (finalState pass compactedAt model count)) } } := by
  have hnormalized : (finalState pass compactedAt model count).normalized = finalState pass compactedAt model count := by
    simp [HistoryScopeState.normalized, finalState, compactedRunIdsWith]
  have hstate : ∀ key, scopeStateAt (some (writeScopeState pass.session.metadata pass.scope
      (finalState pass compactedAt model count))) key =
      if key = pass.scope.key then finalState pass compactedAt model count else scopeStateAt pass.session.metadata key :=
    fun key => scopeStateAt_writeScopeState hnormalized
  constructor
  · constructor
    · exact .of_written (written_writeScopeState hnormalized) (proper_writeScopeState h.session.stored.proper)
    · intro key id hid
      change id ∈ (scopeStateAt (some (writeScopeState _ _ _)) key).compactedRunIds at hid
      rw [hstate] at hid
      split at hid
      · exact h.known id (Newest.mem_of_mem_keep hid)
      · exact h.session.known key id hid
    · intro s hs entry hentry
      change Newest.Covers _ (scopeStateAt (some (writeScopeState _ _ _)) entry.1).compactedRunIds entry.2
      rw [hstate]
      split
      · rename_i hkey
        rcases h.replaced s hs entry hentry hkey with hcovers | hid
        · exact hcovers.of_subset h.kept fun i hi => List.mem_append_left _ hi
        · have hne : entry.2 ≠ "" := by simpa using List.of_mem_filter hid
          exact Newest.covers_keep (List.mem_append_right _ (List.mem_of_mem_filter hid)) hne
      · exact h.session.covered s hs entry hentry
  · exact h.kept
  · exact h.known
  · exact h.replaced

/-- Only the metadata and the summary of a session decide whether it is sound. -/
theorem SoundSession.congr {session' : Session Summary} (h : SoundSession compacted session)
    (hmetadata : session'.metadata = session.metadata) (hsummary : session'.summary = session.summary) :
    SoundSession compacted session' where
  stored := hmetadata ▸ h.stored
  known := hmetadata ▸ h.known
  covered := by
    rw [hmetadata, hsummary]
    exact h.covered

theorem prune_metadata {state : HistoryScopeState} : (pruneReintroducedRuns session state).metadata = session.metadata ∧
    (pruneReintroducedRuns session state).summary = session.summary := by
  unfold pruneReintroducedRuns
  split
  · exact ⟨rfl, rfl⟩
  · exact ⟨rfl, rfl⟩

theorem mem_set_passes {i : Nat} {p q : CompactionPass} {passes : List CompactionPass} (h : p ∈ passes.set i q) :
    p ∈ passes ∨ p = q := List.mem_or_eq_of_mem_set h

theorem compactionInv_step (h : CompactionInv w) (hstep : compactionStep promptRoles label w = some w') :
    CompactionInv w' := by
  cases label with
  | load scope =>
    cases hstep
    refine ⟨h.stored, h.past, fun pass hpass => ?_⟩
    rcases List.mem_append.mp hpass with hpass | hpass
    · exact h.passes pass hpass
    · rw [List.mem_singleton] at hpass
      rw [hpass]
      exact soundPass_load h.stored
  | chunk i summary seen ids sync crash =>
    rcases Option.map_eq_some_iff.mp hstep with ⟨pass, hpass, rfl⟩
    have hsound := h.passes pass (List.mem_of_getElem? hpass)
    have hsub : ∀ id ∈ w.compacted, id ∈ w.compacted ++ chunkRunIds ids := fun id hid => List.mem_append_left _ hid
    have hrecorded : SoundSession (w.compacted ++ chunkRunIds ids)
        (recordedSession promptRoles w.stored pass summary seen ids sync crash) :=
      sound_recordedSession h.stored hsound
    refine ⟨hrecorded, fun session hsession => ?_, fun p hp => ?_⟩
    · rcases List.mem_cons.mp hsession with rfl | hsession
      · exact hrecorded
      · exact (h.past session hsession).mono hsub
    · change p ∈ if crash then w.passes.eraseIdx i else w.passes.set i _ at hp
      split at hp
      · exact (h.passes p (List.mem_of_mem_eraseIdx hp)).mono hsub
      · rcases mem_set_passes hp with hp | rfl
        · exact (h.passes p hp).mono hsub
        · exact sound_recordedPass hsound
  | finish i compactedAt model count =>
    rcases Option.map_eq_some_iff.mp hstep with ⟨pass, hpass, rfl⟩
    refine ⟨h.stored, h.past, fun p hp => ?_⟩
    rcases mem_set_passes hp with hp | rfl
    · exact h.passes p hp
    · exact soundPass_finish (h.passes pass (List.mem_of_getElem? hpass))
  | strip i =>
    rcases Option.map_eq_some_iff.mp hstep with ⟨pass, hpass, rfl⟩
    have hsound := h.passes pass (List.mem_of_getElem? hpass)
    refine ⟨h.stored, h.past, fun p hp => ?_⟩
    rcases mem_set_passes hp with hp | rfl
    · exact h.passes p hp
    · exact ⟨hsound.session.congr rfl rfl, hsound.kept, hsound.known, hsound.replaced⟩
  | writeRun run =>
    cases hstep
    exact ⟨h.stored.congr rfl rfl, h.past, h.passes⟩
  | writeSession j =>
    rcases Option.map_eq_some_iff.mp hstep with ⟨row, hrow, rfl⟩
    exact ⟨(h.past row (List.mem_of_getElem? hrow)).congr rfl rfl, h.past, h.passes⟩
  | prune scope =>
    cases hstep
    exact ⟨h.stored.congr prune_metadata.1 prune_metadata.2, h.past, h.passes⟩

theorem compactionInv_invariant : (compactionSystem promptRoles).Invariant CompactionInv where
  start w hw := by
    rcases hw with ⟨hsound, hpasses, hpast⟩
    refine ⟨hsound, fun session hsession => ?_, fun pass hpass => ?_⟩
    · rw [hpast, List.mem_singleton] at hsession
      rwa [hsession]
    · rw [hpasses] at hpass
      cases hpass
  step _ _ _ h hstep := compactionInv_step h hstep

/-! ## The theorem -/

theorem ids_recordedSession {runId : String} (h : runId ∈ session.runs.map (·.runId))
    (hgone : runId ∉ (recordedSession promptRoles session pass summary seen ids sync crash).runs.map (·.runId)) :
    Descends session.runs (chunkRunIds ids) runId := by
  by_contra hnot
  refine hgone ?_
  unfold recordedSession
  split
  · exact h
  · exact mem_ids_recordedRuns.mpr ⟨h, hnot⟩

/-- In every run whose chunks find the tombstones of the other scopes in their working copies, compacted
runs stay away. -/
theorem compacted_runs_stay_away (h : ((compactionSystem promptRoles).given CopyKeepsTombstones).Reachable w)
    (hkeeps : CopyKeepsTombstones label w) (hstep : compactionStep promptRoles label w = some w') :
    StaysAway label w w' := by
  have hinv : CompactionInv w := compactionInv_invariant.reachable h.of_given
  have hinv' : CompactionInv w' := compactionInv_step hinv hstep
  refine ⟨?_, ?_, ?_, hinv'.stored.covered⟩
  · rintro scope rfl run hrun
    cases hstep
    unfold tombstones
    rw [prune_metadata.1]
    exact (mem_pruneReintroducedRuns.mp hrun).2
  · rintro i summary seen ids sync crash rfl scope
    rcases Option.map_eq_some_iff.mp hstep with ⟨pass, hpass, rfl⟩
    have hsound := hinv.passes pass (List.mem_of_getElem? hpass)
    have hmetadata : (recordedSession promptRoles w.stored pass summary seen ids sync crash).metadata =
        some (recordedMetadata w.stored.metadata (summarized pass summary seen ids).metadata pass.scope ids) := by
      unfold recordedSession
      split <;> rfl
    unfold tombstones
    change Extends _ _ (scopeStateAt (recordedSession promptRoles w.stored pass summary seen ids sync crash).metadata _).compactedRunIds
    rw [hmetadata]
    refine extends_recordedMetadata hinv.stored.stored (stored_summarized hsound.session.stored).proper fun hkey => ?_
    rw [scopeStateAt_summarized]
    exact hkeeps pass (Option.mem_def.mpr hpass) scope hkey
  · intro run hrun hgone
    have hmem : run.runId ∈ w.stored.runs.map (·.runId) := List.mem_map_of_mem hrun
    cases label with
    | chunk i summary seen ids sync crash =>
      rcases Option.map_eq_some_iff.mp hstep with ⟨pass, hpass, rfl⟩
      exact (ids_recordedSession hmem hgone).mono fun id hid => List.mem_append_right _ hid
    | writeRun written =>
      cases hstep
      exact absurd (mem_ids_upsertRun.mpr (.inl hmem)) hgone
    | prune scope =>
      cases hstep
      have hdesc : Descends w.stored.runs (tombstones w.stored scope.key) run.runId := by
        by_contra hnot
        exact hgone (List.mem_map_of_mem (mem_pruneReintroducedRuns.mpr ⟨hrun, hnot⟩))
      exact hdesc.mono (hinv.stored.known scope.key)
    | load scope =>
      cases hstep
      exact absurd hmem hgone
    | finish i compactedAt model count =>
      rcases Option.map_eq_some_iff.mp hstep with ⟨pass, hpass, rfl⟩
      exact absurd hmem hgone
    | strip i =>
      rcases Option.map_eq_some_iff.mp hstep with ⟨pass, hpass, rfl⟩
      exact absurd hmem hgone
    | writeSession j =>
      rcases Option.map_eq_some_iff.mp hstep with ⟨row, hrow, rfl⟩
      exact absurd hmem hgone

/-! ## An older list of another scope's tombstones -/

namespace OlderTombstones

def planner : CompactionScope := ⟨.agent, "planner", by decide⟩

def writer : CompactionScope := ⟨.agent, "writer", by decide⟩

/-- One run of the writer is compacted already. -/
def earlier : Session Summary where
  metadata := some (writeScopeState none writer { compactedRunIds := ["w0"] })
  runs := [{ runId := "p1" }, { runId := "w1" }, { runId := "w2", parentRunId := some "w1" }]

def start : CompactionWorld where
  stored := earlier
  past := [earlier]
  compacted := ["w0"]

theorem start_sound : CompactionStart start := by
  have hnormalized : HistoryScopeState.normalized { compactedRunIds := ["w0"] } = { compactedRunIds := ["w0"] } := by
    decide +kernel
  have hstate : ∀ key, scopeStateAt earlier.metadata key =
      if key = writer.key then { compactedRunIds := ["w0"] } else scopeStateAt none key :=
    fun key => scopeStateAt_writeScopeState hnormalized
  refine ⟨⟨?_, ?_, ?_⟩, rfl, rfl⟩
  · exact .of_written (written_writeScopeState hnormalized) (proper_writeScopeState proper_nil)
  · intro key id hid
    change id ∈ (scopeStateAt earlier.metadata key).compactedRunIds at hid
    rw [hstate] at hid
    split at hid
    · exact hid
    · cases hid
  · intro s hs
    cases hs

/-- Both passes load the session; the writer's chunk is recorded before the planner's. -/
def labels : List CompactionLabel :=
  [.load planner, .load writer, .chunk 1 (some "writer summary") [] ["w1"] false false]

/-- The planner's chunk puts the writer's list back to what it was when the planner loaded it. -/
theorem not_stays_away : ∃ label w w', (compactionSystem []).Reachable w ∧ compactionStep [] label w = some w' ∧
    ¬ StaysAway label w w' := by
  have hrun : (System.follow (fun _ _ => True) (compactionStep []) labels start).any fun w =>
      tombstones w.stored writer.key = ["w0", "w1"] ∧
        (compactionStep [] (.chunk 0 (some "planner summary") [] ["p1"] false false) w).any fun w' =>
          tombstones w'.stored writer.key = ["w0"] := by
    decide +kernel
  rw [Option.any_eq_true] at hrun
  rcases hrun with ⟨w, hw, hboth⟩
  rcases of_decide_eq_true hboth with ⟨hbefore, hany⟩
  rw [Option.any_eq_true] at hany
  rcases hany with ⟨w', hstep, hafter⟩
  have hafter := of_decide_eq_true hafter
  have hreachable : (compactionSystem []).Reachable w :=
    ((System.Reachable.start start_sound).run (System.Run.of_follow (fun _ _ _ h => h) hw)).of_given
  refine ⟨_, w, w', hreachable, hstep, fun hstays => ?_⟩
  rcases hstays.kept _ _ _ _ _ _ rfl writer with ⟨added, hadded⟩
  rw [hbefore, hafter] at hadded
  -- a short list that is extended still begins with what it held
  have hmem : "w1" ∈ Newest.keep compactedRunIdRetentionLimit (["w0", "w1"] ++ added) ∨
      (Newest.keep compactedRunIdRetentionLimit (["w0", "w1"] ++ added)).length = compactedRunIdRetentionLimit :=
    Newest.covers_keep (by simp) (by decide)
  rw [← hadded] at hmem
  rcases hmem with hmem | hlength
  · exact absurd hmem (by decide)
  · unfold compactedRunIdRetentionLimit at hlength
    exact absurd hlength (by decide)

/-- The writer's chunk crashes before its runs are deleted. -/
def crashed : CompactionWorld :=
  recordChunk [] { start with passes := [⟨writer, earlier, readScopeState earlier.metadata writer, []⟩] } 0
    ⟨writer, earlier, readScopeState earlier.metadata writer, []⟩ (some "writer summary") [] ["w1"] false true

/-- The next prune removes the run of the crashed chunk and its child. -/
theorem crashed_stays_away : ∃ w', StaysAway (.prune writer) crashed w' ∧ w'.stored.runs = [{ runId := "p1" }] := by
  have hcopy : CopyKeepsTombstones (.chunk 0 (some "writer summary") [] ["w1"] false true)
      { start with passes := [⟨writer, earlier, readScopeState earlier.metadata writer, []⟩] } := by
    intro pass hpass scope _
    cases hpass
    exact .inr (Extends.refl kept_stateAt)
  have hstart : ((compactionSystem []).given CopyKeepsTombstones).Reachable start := .start start_sound
  have hreachable : ((compactionSystem []).given CopyKeepsTombstones).Reachable crashed :=
    (hstart.next (.load writer) ⟨trivial, rfl⟩).next (.chunk 0 (some "writer summary") [] ["w1"] false true)
      ⟨hcopy, rfl⟩
  refine ⟨_, compacted_runs_stay_away hreachable trivial rfl, ?_⟩
  decide +kernel

end OlderTombstones

end MindRoom
