import MindRoom.Worklist

/-! # The runs of a stored session

A session's runs are rows of a table of their own (`mindroom.agent_storage`): a run and those that
descend from it through `parent_run_id` are deleted together, in the list of a loaded session as
in the table. The table holds the runs of the session at hand, and its primary key is the run id.
-/

namespace MindRoom

open Worklist (Reached)

/-! ## Runs -/

/-- One content block of a message, by its `type`. -/
structure ContentBlock where
  kind : String
  text : String
deriving DecidableEq

structure ProviderData where
  queuedNotice : Bool := false
  signature : Option String := none
  contentBlocks : Option (List ContentBlock) := none
deriving DecidableEq

structure Message where
  role : String
  content : String
  reasoningContent : Option String := none
  redactedReasoningContent : Option String := none
  providerData : Option ProviderData := none
deriving DecidableEq

/-- A run of an agent or a team, under its run id. -/
structure SessionRun where
  runId : String
  parentRunId : Option String := none
  paused : Bool := false
  messages : List Message := []
  named : ¬ "" = runId := by decide
deriving DecidableEq

/-! ### Replay fields -/

/-- `{"thinking", "redacted_thinking", "redacted_reasoning_content"}`. -/
def replayKinds : List String := ["thinking", "redacted_thinking", "redacted_reasoning_content"]

/-- The blocks without the provider's own thinking. -/
def retainedBlocks (blocks : List ContentBlock) : List ContentBlock := blocks.filter (·.kind ∉ replayKinds)

/-- The message without anything that only replays the provider's reasoning. -/
def Message.body (message : Message) : Message :=
  { message with
    reasoningContent := none
    redactedReasoningContent := none
    providerData := message.providerData.map fun data =>
      { data with signature := none, contentBlocks := data.contentBlocks.map retainedBlocks } }

/-- What a run says apart from its replay fields. -/
def SessionRun.body (run : SessionRun) : List Message := run.messages.map Message.body

/-- The fields of one message are stripped where it has a signature or a block to drop. -/
def stripMessage (message : Message) : Message :=
  match message.providerData with
  | some data =>
    if message.role = "assistant" ∧
        (data.signature.isSome ∨ data.contentBlocks.any fun blocks => retainedBlocks blocks ≠ blocks) then
      message.body
    else message
  | none => message

/-- A prompt of the user, and not a notice that a message is queued. -/
def IsPrompt (message : Message) : Prop :=
  message.role = "user" ∧ ∀ data ∈ message.providerData, data.queuedNotice = false

instance : DecidablePred IsPrompt := fun _ => inferInstanceAs (Decidable (_ ∧ _))

/-- `_strip_stale_anthropic_replay_fields`, from the last message back: what stands before a prompt is
stripped. The flag says whether a prompt comes later. -/
def stripMessages (later : Bool) : List Message → List Message × Bool
  | [] => ([], later)
  | message :: messages =>
    let rest := stripMessages later messages
    ((if rest.2 then stripMessage message else message) :: rest.1, rest.2 || decide (IsPrompt message))

def stripRuns : List SessionRun → List SessionRun × Bool
  | [] => ([], false)
  | run :: runs =>
    let rest := stripRuns runs
    let stripped := stripMessages rest.2 run.messages
    ({ run with messages := stripped.1 } :: rest.1, stripped.2)

/-! ## Descent -/

/-- A run under `child` has the run id `parent` as its parent. -/
def ParentOf (runs : List SessionRun) (parent child : String) : Prop :=
  ∃ run ∈ runs, run.parentRunId = some parent ∧ run.runId = child

/-- The id is one of the given ids, or leads to one of them through the parents of the runs. -/
def Descends (runs : List SessionRun) (ids : List String) (runId : String) : Prop :=
  Reached (ParentOf runs) (ids.filter (· ≠ "")) runId

variable {runs rows : List SessionRun} {ids ids' : List String} {run : SessionRun} {runId : String}

theorem Descends.of_mem (h : run.runId ∈ ids) : Descends runs ids run.runId :=
  ⟨run.runId, by simp [h, Ne.symm run.named], Relation.ReflTransGen.refl⟩

theorem Descends.child {parent : String} (hrun : run ∈ runs) (hparent : run.parentRunId = some parent)
    (h : Descends runs ids parent) : Descends runs ids run.runId :=
  Reached.tail h ⟨run, hrun, hparent, rfl⟩

theorem Descends.mono (h : Descends runs ids runId) (hsub : ∀ id ∈ ids, id ∈ ids') : Descends runs ids' runId := by
  rcases h with ⟨a, ha, hreach⟩
  rw [List.mem_filter] at ha
  exact ⟨a, List.mem_filter.mpr ⟨hsub a ha.1, ha.2⟩, hreach⟩

theorem Descends.trans (h : Descends runs ids runId) (hsub : ∀ id ∈ ids, id ≠ "" → Descends runs ids' id) :
    Descends runs ids' runId := by
  rcases h with ⟨a, ha, hreach⟩
  rw [List.mem_filter, decide_eq_true_eq] at ha
  rcases hsub a ha.1 ha.2 with ⟨b, hb, hba⟩
  exact ⟨b, hb, hba.trans hreach⟩

/-! ## Removal from a loaded session -/

/-- `children_by_parent.get(parent, [])`. -/
def childIds (runs : List SessionRun) (parent : String) : List String :=
  (runs.filter (·.parentRunId = some parent)).map (·.runId)

/-- `{run_id for run_id in run_ids if run_id}`. -/
def nonemptyIds (ids : List String) : List String := (ids.filter (· ≠ "")).dedup

/-- The ids and what descends from them. -/
def removedIds (runs : List SessionRun) (ids : List String) : List String :=
  Worklist.explore (childIds runs) ((nonemptyIds ids).length + runs.length) (nonemptyIds ids) (nonemptyIds ids)

def runsWithout (runs : List SessionRun) (ids : List String) : List SessionRun :=
  if nonemptyIds ids = [] then runs
  else
    runs.filter fun run => run.runId ∉ removedIds runs ids ∧ ∀ parent ∈ run.parentRunId, parent ∉ removedIds runs ids

theorem mem_childIds {parent child : String} : child ∈ childIds runs parent ↔ ParentOf runs parent child := by
  unfold childIds ParentOf
  simp only [List.mem_map, List.mem_filter, decide_eq_true_eq, and_assoc]

theorem reached_nonemptyIds : Reached (ParentOf runs) (nonemptyIds ids) runId ↔ Descends runs ids runId := by
  unfold Descends Reached nonemptyIds
  simp only [List.mem_dedup]

theorem mem_removedIds : runId ∈ removedIds runs ids ↔ Descends runs ids runId := by
  rw [← reached_nonemptyIds]
  refine @Worklist.mem_explore _ _ _ _ _ (runs.map (·.runId)) _ _ (fun a b => mem_childIds) ?_
    (by rw [List.length_map])
  rintro a b ⟨run, hrun, -, rfl⟩
  exact List.mem_map_of_mem hrun

theorem not_descends_of_nil (h : nonemptyIds ids = []) : ¬ Descends runs ids runId := by
  rw [← reached_nonemptyIds, h]
  rintro ⟨a, ha, -⟩
  cases ha

/-- What stays is what descends from none of the ids. -/
theorem mem_runsWithout : run ∈ runsWithout runs ids ↔ run ∈ runs ∧ ¬ Descends runs ids run.runId := by
  unfold runsWithout
  split
  · rename_i hnil
    constructor
    · exact fun h => ⟨h, not_descends_of_nil hnil⟩
    · exact fun h => h.1
  · rw [List.mem_filter, decide_eq_true_eq]
    simp only [mem_removedIds]
    constructor
    · rintro ⟨hrun, hnot, -⟩
      exact ⟨hrun, hnot⟩
    · rintro ⟨hrun, hnot⟩
      refine ⟨hrun, hnot, fun parent hparent hdesc => hnot ?_⟩
      exact hdesc.child hrun hparent

/-! ## Removal from the table -/

/-- `select run_id where parent_run_id in frontier`. -/
def childRows (rows : List SessionRun) (frontier : List String) : List String :=
  (rows.filter fun row => ∃ parent ∈ frontier, row.parentRunId = some parent).map (·.runId)

def deleteRuns (rows : List SessionRun) (ids : List String) : List SessionRun :=
  let wanted := Worklist.sweep (childRows rows) (rows.length + 1) (nonemptyIds ids) (nonemptyIds ids)
  rows.filter (·.runId ∉ wanted)

theorem mem_childRows {frontier : List String} {child : String} :
    child ∈ childRows rows frontier ↔ ∃ parent ∈ frontier, ParentOf rows parent child := by
  unfold childRows ParentOf
  simp only [List.mem_map, List.mem_filter, decide_eq_true_eq]
  constructor
  · rintro ⟨row, ⟨hrow, parent, hparent, heq⟩, hid⟩
    exact ⟨parent, hparent, row, hrow, heq, hid⟩
  · rintro ⟨parent, hparent, row, hrow, heq, hid⟩
    exact ⟨row, ⟨hrow, parent, hparent, heq⟩, hid⟩

/-- The table keeps the rows that descend from none of the ids. -/
theorem mem_deleteRuns : run ∈ deleteRuns rows ids ↔ run ∈ rows ∧ ¬ Descends rows ids run.runId := by
  have hwanted : ∀ {id}, id ∈ Worklist.sweep (childRows rows) (rows.length + 1) (nonemptyIds ids) (nonemptyIds ids) ↔
      Descends rows ids id := by
    intro id
    rw [← reached_nonemptyIds]
    refine @Worklist.mem_sweep _ _ _ _ _ (rows.map (·.runId)) _ _ (fun _ _ => mem_childRows) ?_ ?_
    · rintro a b ⟨row, hrow, -, rfl⟩
      exact List.mem_map_of_mem hrow
    · rw [List.length_map]
      omega
  unfold deleteRuns
  rw [List.mem_filter, decide_eq_true_eq, hwanted]

/-- The ids `replace_runs` deletes the rows of: the runs of the session that are not kept. -/
def droppedIds (loaded kept : List SessionRun) : List String :=
  (loaded.filter (·.runId ∉ kept.map (·.runId))).map (·.runId)

/-- `replace_runs`, for the table: the session was loaded with the runs `loaded`. -/
def replaceRuns (rows loaded kept : List SessionRun) : List SessionRun :=
  if droppedIds loaded kept = [] then rows else deleteRuns rows (droppedIds loaded kept)

theorem mem_droppedIds_without : runId ∈ droppedIds runs (runsWithout runs ids) ↔
    Descends runs ids runId ∧ ∃ run ∈ runs, run.runId = runId := by
  unfold droppedIds
  simp only [List.mem_map, List.mem_filter, decide_eq_true_eq]
  constructor
  · rintro ⟨run, ⟨hrun, hnot⟩, rfl⟩
    refine ⟨?_, run, hrun, rfl⟩
    by_contra hdesc
    exact hnot ⟨run, mem_runsWithout.mpr ⟨hrun, hdesc⟩, rfl⟩
  · rintro ⟨hdesc, run, hrun, rfl⟩
    refine ⟨run, ⟨hrun, ?_⟩, rfl⟩
    rintro ⟨kept, hkept, hid⟩
    rw [mem_runsWithout, hid] at hkept
    exact hkept.2 hdesc

/-- A session that holds the table's runs drops the ids and what descends from them: so does the table. -/
theorem mem_replaceRuns : run ∈ replaceRuns rows rows (runsWithout rows ids) ↔
    run ∈ rows ∧ ¬ Descends rows ids run.runId := by
  unfold replaceRuns
  split
  · rename_i hnil
    constructor
    · intro hrun
      refine ⟨hrun, fun hdesc => ?_⟩
      have hmem : run.runId ∈ droppedIds rows (runsWithout rows ids) :=
        mem_droppedIds_without.mpr ⟨hdesc, run, hrun, rfl⟩
      rw [hnil] at hmem
      cases hmem
    · exact fun h => h.1
  · rw [mem_deleteRuns]
    have hiff : run ∈ rows → (Descends rows (droppedIds rows (runsWithout rows ids)) run.runId ↔
        Descends rows ids run.runId) := by
      intro hrun
      constructor
      · intro h
        exact h.trans fun id hid _ => (mem_droppedIds_without.mp hid).1
      · intro h
        exact .of_mem (mem_droppedIds_without.mpr ⟨h, run, hrun, rfl⟩)
    constructor
    · rintro ⟨hrun, hnot⟩
      exact ⟨hrun, fun h => hnot ((hiff hrun).mpr h)⟩
    · rintro ⟨hrun, hnot⟩
      exact ⟨hrun, fun h => hnot ((hiff hrun).mp h)⟩

/-! ## Writing runs -/

/-- `_run_without_prompt_messages`. -/
def persisted (promptRoles : List String) (run : SessionRun) : SessionRun :=
  if run.paused then run else { run with messages := run.messages.filter (·.role ∉ promptRoles) }

/-- `upsert_run`: a row keeps its place, a new one comes last. -/
def upsertRun (promptRoles : List String) (rows : List SessionRun) (run : SessionRun) : List SessionRun :=
  if run.runId ∈ rows.map (·.runId) then
    rows.map fun row => if row.runId = run.runId then persisted promptRoles run else row
  else rows ++ [persisted promptRoles run]

/-- The rows `save_runs` writes. -/
def saveRuns (promptRoles : List String) (rows runs : List SessionRun) : List SessionRun :=
  runs.foldl (upsertRun promptRoles) rows

def runsChangedByWorking (targetRuns workingRuns : List SessionRun) : List SessionRun :=
  targetRuns.filterMap fun run =>
    match workingRuns.findRev? (·.runId = run.runId) with
    | some working => if working = run then none else some working
    | none => none

end MindRoom
