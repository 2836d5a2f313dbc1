import MindRoom.FirstMentions
import MindRoom.Mapping
import MindRoom.MetadataMerge

/-! # Durable compaction state

The scope states that `mindroom.history.storage` keeps in the metadata of a stored session: how
they are parsed and written back, the bounded list of tombstones, and what is left of two
versions of the states when one metadata object is merged over the other.
-/

namespace MindRoom

open JsonText (Proper)

/-! ## The newest distinct names

A list without repetitions that keeps the order of first occurrence, cut to its last entries.
-/

namespace Newest

/-- Each non-empty name once, in the order they come. -/
def distinct (ids : List String) : List String :=
  ids.foldl (fun kept id => if id = "" ∨ id ∈ kept then kept else kept ++ [id]) []

/-- `l[-n:]`. -/
def last (n : Nat) (l : List String) : List String := l.drop (l.length - n)

/-- The last `limit` distinct names. -/
def keep (limit : Nat) (ids : List String) : List String := last limit (distinct ids)

/-- A list that is already distinct and short enough. -/
def Kept (limit : Nat) (ids : List String) : Prop := ids.Nodup ∧ "" ∉ ids ∧ ids.length ≤ limit

/-- The names before with others put behind them, up to the limit. -/
def Extends (limit : Nat) (before after : List String) : Prop := ∃ added, after = keep limit (before ++ added)

/-- The name is on the list, or the list is full. -/
def Covers (limit : Nat) (ids : List String) (id : String) : Prop := id ∈ ids ∨ ids.length = limit

variable {limit : Nat} {ids added before after kept : List String} {id : String}

theorem mem_distinct : id ∈ distinct ids ↔ id ∈ ids ∧ id ≠ "" :=
  (FirstMentions.adds_ite (· = "")).mem_foldl.trans (or_iff_right List.not_mem_nil)

theorem nodup_distinct : (distinct ids).Nodup := (FirstMentions.adds_ite (· = "")).nodup_foldl List.nodup_nil

theorem named_distinct : "" ∉ distinct ids := by
  rw [mem_distinct]
  exact fun h => h.2 rfl

theorem distinct_of_kept (h : Kept limit ids) : distinct ids = ids := by
  refine (FirstMentions.adds_ite (· = "")).foldl_of_nodup h.1 fun id hid heq => ?_
  exact h.2.1 (heq ▸ hid)

theorem length_last (n : Nat) (l : List String) : (last n l).length ≤ n := by
  rw [last, List.length_drop]
  omega

theorem last_of_le {n : Nat} {l : List String} (h : l.length ≤ n) : last n l = l := by
  rw [last, Nat.sub_eq_zero_of_le h, List.drop_zero]

theorem kept_keep : Kept limit (keep limit ids) :=
  ⟨nodup_distinct.sublist (List.drop_sublist _ _), fun h => named_distinct ((List.drop_sublist _ _).subset h),
    length_last _ _⟩

/-- What is kept already stays as it is. -/
theorem keep_of_kept (h : Kept limit ids) : keep limit ids = ids := by
  rw [keep, distinct_of_kept h, last_of_le h.2.2]

@[simp] theorem keep_keep : keep limit (keep limit ids) = keep limit ids := keep_of_kept kept_keep

@[simp] theorem keep_nil : keep limit [] = [] := by
  simp [keep, distinct, last]

theorem mem_of_mem_keep (h : id ∈ keep limit ids) : id ∈ ids :=
  (mem_distinct.mp ((List.drop_sublist _ _).subset h)).1

theorem Extends.refl (h : Kept limit ids) : Extends limit ids ids :=
  ⟨[], by rw [List.append_nil, keep_of_kept h]⟩

theorem length_of_last_ne {n : Nat} {l : List String} (h : n ≤ l.length) : (last n l).length = n := by
  rw [last, List.length_drop]
  omega

/-- What a kept list covers, every list that has its names covers. -/
theorem Covers.of_subset (h : Covers limit before id) (hkept : Kept limit before)
    (hsub : ∀ i ∈ before, i ∈ ids) : Covers limit (keep limit ids) id := by
  have hdistinct : ∀ i ∈ before, i ∈ distinct ids := by
    intro i hi
    refine mem_distinct.mpr ⟨hsub i hi, ?_⟩
    rintro rfl
    exact hkept.2.1 hi
  by_cases hlen : (distinct ids).length ≤ limit
  · rw [keep, last_of_le hlen]
    rcases h with hmem | hfull
    · exact .inl (hdistinct id hmem)
    · right
      have hle : before.length ≤ (distinct ids).length := (hkept.1.subperm hdistinct).length_le
      omega
  · exact .inr (length_of_last_ne (by omega))

/-- A name that is put on the list is there, or the list is full. -/
theorem covers_keep (h : id ∈ ids) (hid : id ≠ "") : Covers limit (keep limit ids) id := by
  by_cases hlen : (distinct ids).length ≤ limit
  · left
    rw [keep, last_of_le hlen, mem_distinct]
    exact ⟨h, hid⟩
  · exact .inr (length_of_last_ne (by omega))

end Newest

/-! ## Scopes and their states -/

inductive ScopeKind where
  | agent
  | team
deriving DecidableEq

def ScopeKind.text : ScopeKind → String
  | .agent => "agent"
  | .team => "team"

/-- `HistoryScope`: an agent or a team, by its id. -/
structure CompactionScope where
  kind : ScopeKind
  scopeId : String
  named : "" ≠ scopeId
deriving DecidableEq

def CompactionScope.key (scope : CompactionScope) : String := scope.kind.text ++ ":" ++ scope.scopeId

/-- `HistoryScopeState`. The compacted run ids are the scope's tombstones. -/
structure HistoryScopeState where
  lastCompactedAt : Option String := none
  lastSummaryModel : Option String := none
  lastCompactedRunCount : Option Int := none
  compactedRunIds : List String := []
  forceCompactBeforeNextRun : Bool := false
deriving DecidableEq

def mindroomCompactionMetadataKey : String := "mindroom_compaction"

def compactionMetadataVersion : Int := 2

@[irreducible] def compactedRunIdRetentionLimit : Nat := 1024

namespace Json

/-- `value == n`, for an integer: booleans are integers. -/
def equalsInt (n : Int) : Json → Bool
  | .num m => m == n
  | .bool b => (if b then 1 else 0) == n
  | _ => false

/-- `bool(value)`. -/
def truthy : Json → Bool
  | .null => false
  | .bool b => b
  | .num n => n != 0
  | .str s => s != ""
  | .arr items => !items.isEmpty
  | .obj fields => !fields.isEmpty

/-- `value if isinstance(value, int) else None`. -/
def int? : Json → Option Int
  | .num n => some n
  | .bool b => some (if b then 1 else 0)
  | _ => none

def strings : Json → List String
  | .arr items => items.filterMap fun
      | .str s => some s
      | _ => none
  | _ => []

end Json

def normalizeCompactedRunIds (runIds : List String) : List String :=
  Newest.keep compactedRunIdRetentionLimit runIds

def compactedRunIdsWith (state : HistoryScopeState) (runIds : List String) : List String :=
  normalizeCompactedRunIds (state.compactedRunIds ++ runIds)

def parseState (raw : Dict) : HistoryScopeState where
  lastCompactedAt := Dict.str? raw "last_compacted_at"
  lastSummaryModel := Dict.str? raw "last_summary_model"
  lastCompactedRunCount := (Dict.get? raw "last_compacted_run_count").bind Json.int?
  compactedRunIds := normalizeCompactedRunIds (((Dict.get? raw "compacted_run_ids").map Json.strings).getD [])
  forceCompactBeforeNextRun := ((Dict.get? raw "force_compact_before_next_run").map Json.truthy).getD false

def stateToMetadata (state : HistoryScopeState) : Dict :=
  [("force_compact_before_next_run", .bool state.forceCompactBeforeNextRun)] ++
    (state.lastCompactedAt.map fun at_ => ("last_compacted_at", Json.str at_)).toList ++
    (state.lastSummaryModel.map fun model => ("last_summary_model", Json.str model)).toList ++
    (state.lastCompactedRunCount.map fun count => ("last_compacted_run_count", Json.num count)).toList ++
    (if state.compactedRunIds = [] then []
    else [("compacted_run_ids", .arr ((normalizeCompactedRunIds state.compactedRunIds).map .str))])

def stateIsEmpty (state : HistoryScopeState) : Prop := state = {}

instance (state : HistoryScopeState) : Decidable (stateIsEmpty state) := inferInstanceAs (Decidable (_ = _))

/-- The raw states, where the metadata holds compaction state of the current version. -/
def rawScopeStates (metadata : Option Dict) : Option Dict :=
  match metadata.bind (Dict.obj? · mindroomCompactionMetadataKey) with
  | some raw =>
    if ((Dict.get? raw "version").map (Json.equalsInt compactionMetadataVersion)).getD false then
      Dict.obj? raw "states"
    else none
  | none => none

def readScopeStates (metadata : Option Dict) : Mapping String HistoryScopeState :=
  match rawScopeStates metadata with
  | some states =>
    Mapping.collect (states.map (·.1)) fun key =>
      if key = "" then none else (Dict.obj? states key).map parseState
  | none => ∅

def scopeStateAt (metadata : Option Dict) (key : String) : HistoryScopeState :=
  ((readScopeStates metadata).value? key).getD {}

def readScopeState (metadata : Option Dict) (scope : CompactionScope) : HistoryScopeState :=
  scopeStateAt metadata scope.key

def serializedStates (states : Mapping String HistoryScopeState) : Dict :=
  states.rows.filterMap fun item =>
    if stateIsEmpty item.value then none else some (item.key, .obj (stateToMetadata item.value))

def writeScopeState (metadata : Option Dict) (scope : CompactionScope) (state : HistoryScopeState) : Dict :=
  let states := readScopeStates metadata
  let states := if stateIsEmpty state then states.pop scope.key else states.set scope.key state
  let serialized := serializedStates states
  if serialized = [] then Dict.pop (metadata.getD []) mindroomCompactionMetadataKey
  else
    Dict.set (metadata.getD []) mindroomCompactionMetadataKey
      (.obj [("version", .num compactionMetadataVersion), ("states", .obj serialized)])

/-! ## What is written is read back -/

variable {metadata : Option Dict} {state : HistoryScopeState} {scope : CompactionScope} {key : String} {raw extra : Dict}

theorem CompactionScope.key_ne (scope : CompactionScope) : scope.key ≠ "" := by
  intro h
  have hlen := congrArg String.length h
  unfold CompactionScope.key at hlen
  rw [String.length_append, String.length_append] at hlen
  have hcolon : (":" : String).length = 1 := rfl
  rw [hcolon] at hlen
  simp at hlen

/-- The state as it is after a write: its tombstones are normalized. -/
def HistoryScopeState.normalized (state : HistoryScopeState) : HistoryScopeState :=
  { state with compactedRunIds := normalizeCompactedRunIds state.compactedRunIds }

theorem kept_normalize {ids : List String} : Newest.Kept compactedRunIdRetentionLimit (normalizeCompactedRunIds ids) :=
  Newest.kept_keep

@[simp] theorem normalize_normalize {ids : List String} :
    normalizeCompactedRunIds (normalizeCompactedRunIds ids) = normalizeCompactedRunIds ids := Newest.keep_keep

theorem normalized_parseState : (parseState raw).normalized = parseState raw := by
  unfold HistoryScopeState.normalized parseState
  rw [normalize_normalize]

theorem strings_str (ids : List String) : Json.strings (.arr (ids.map .str)) = ids := by
  rw [Json.strings, List.filterMap_map]
  exact List.filterMap_some

theorem get?_optional {α : Type} {f : α → Json} {o : Option α} {k k' : String} :
    Dict.get? (o.map fun a => (k, f a)).toList k' = if k' = k then o.map f else none := by
  cases o with
  | none => simp
  | some a => simp [Dict.get?_cons]

theorem get?_tombstones {ids : List String} {k' : String} : Dict.get? (if ids = [] then [] else
        [("compacted_run_ids", Json.arr ((normalizeCompactedRunIds ids).map .str))]) k' =
      if k' = "compacted_run_ids" ∧ ids ≠ [] then some (.arr ((normalizeCompactedRunIds ids).map .str)) else none := by
  by_cases hids : ids = []
  · simp [hids]
  · simp [hids, Dict.get?_cons]

/-- The lookups of a written state. -/
theorem get?_stateToMetadata :
    Dict.get? (stateToMetadata state) "force_compact_before_next_run" = some (.bool state.forceCompactBeforeNextRun) ∧
      Dict.get? (stateToMetadata state) "last_compacted_at" = state.lastCompactedAt.map .str ∧
      Dict.get? (stateToMetadata state) "last_summary_model" = state.lastSummaryModel.map .str ∧
      Dict.get? (stateToMetadata state) "last_compacted_run_count" = state.lastCompactedRunCount.map .num ∧
      Dict.get? (stateToMetadata state) "compacted_run_ids" =
        if state.compactedRunIds = [] then none
        else some (.arr ((normalizeCompactedRunIds state.compactedRunIds).map .str)) := by
  unfold stateToMetadata
  simp only [Dict.get?_append, get?_optional, get?_tombstones, Dict.get?_cons]
  simp [Dict.get?]

theorem nodup_stateToMetadata : ((stateToMetadata state).map (·.1)).Nodup := by
  have hsub : ((stateToMetadata state).map (·.1)).Sublist
      (["force_compact_before_next_run"] ++ ["last_compacted_at"] ++ ["last_summary_model"] ++
        ["last_compacted_run_count"] ++ ["compacted_run_ids"]) := by
    unfold stateToMetadata
    simp only [List.map_append, List.map_cons, List.map_nil]
    refine ((((List.Sublist.refl _).append ?_).append ?_).append ?_).append ?_
    · cases state.lastCompactedAt <;> simp
    · cases state.lastSummaryModel <;> simp
    · cases state.lastCompactedRunCount <;> simp
    · by_cases h : state.compactedRunIds = [] <;> simp [h]
  exact List.Nodup.sublist hsub (by decide)

theorem flat_stateToMetadata : ∀ member ∈ stateToMetadata state, ∀ o, member.2 ≠ .obj o := by
  intro member hmember o
  unfold stateToMetadata at hmember
  simp only [List.mem_append, List.mem_singleton, Option.mem_toList, Option.map_eq_some_iff] at hmember
  rcases hmember with (((rfl | ⟨_, -, rfl⟩) | ⟨_, -, rfl⟩) | ⟨_, -, rfl⟩) | hids
  · exact fun h => by cases h
  · exact fun h => by cases h
  · exact fun h => by cases h
  · exact fun h => by cases h
  · split at hids
    · cases hids
    · rw [List.mem_singleton] at hids
      rw [hids]
      exact fun h => by cases h

/-- A state that is written over what a key held is laid over it field by field: a field the newer
state does not have keeps its older value, a list of tombstones is replaced as a whole. -/
def HistoryScopeState.over (older newer : HistoryScopeState) : HistoryScopeState where
  lastCompactedAt := newer.lastCompactedAt.or older.lastCompactedAt
  lastSummaryModel := newer.lastSummaryModel.or older.lastSummaryModel
  lastCompactedRunCount := newer.lastCompactedRunCount.or older.lastCompactedRunCount
  compactedRunIds := if newer.compactedRunIds = [] then older.compactedRunIds else newer.compactedRunIds
  forceCompactBeforeNextRun := newer.forceCompactBeforeNextRun

theorem get?_mergeItems_flat {k : String} (hextra : (extra.map (·.1)).Nodup)
    (hflat : ∀ member ∈ extra, ∀ o, member.2 ≠ .obj o) :
    Dict.get? (mergeItems raw extra) k = (Dict.get? extra k).or (Dict.get? raw k) := by
  rw [get?_mergeItems hextra]
  cases hk : Dict.get? extra k with
  | none => rfl
  | some v =>
    have hv : ∀ o, v ≠ .obj o := hflat _ (Dict.mem_of_get? hk)
    cases v with
    | obj o => exact absurd rfl (hv o)
    | _ => rfl

theorem parseState_mergeItems (hstate : state.normalized = state) :
    parseState (mergeItems raw (stateToMetadata state)) = (parseState raw).over state := by
  have hids : normalizeCompactedRunIds state.compactedRunIds = state.compactedRunIds :=
    congrArg HistoryScopeState.compactedRunIds hstate
  rcases @get?_stateToMetadata state with ⟨hforce, hat, hmodel, hcount, htombstones⟩
  unfold parseState HistoryScopeState.over Dict.str?
  simp only [get?_mergeItems_flat nodup_stateToMetadata flat_stateToMetadata, hforce, hat, hmodel, hcount,
    htombstones, hids]
  congr 1
  · cases state.lastCompactedAt <;> rfl
  · cases state.lastSummaryModel <;> rfl
  · cases state.lastCompactedRunCount <;> rfl
  · by_cases h : state.compactedRunIds = []
    · simp [h]
    · simp only [h, if_false, Option.some_or, Option.map_some, Option.getD_some, strings_str, hids]

theorem over_empty : HistoryScopeState.over {} state = state := by
  unfold HistoryScopeState.over
  cases state
  simp

theorem parseState_stateToMetadata (hstate : state.normalized = state) :
    parseState (stateToMetadata state) = state := by
  have hids : normalizeCompactedRunIds state.compactedRunIds = state.compactedRunIds :=
    congrArg HistoryScopeState.compactedRunIds hstate
  rcases @get?_stateToMetadata state with ⟨hforce, hat, hmodel, hcount, htombstones⟩
  unfold parseState Dict.str?
  simp only [hforce, hat, hmodel, hcount, htombstones, hids]
  cases state with
  | mk at_ model count ids force =>
    congr 1
    · cases at_ <;> rfl
    · cases model <;> rfl
    · cases count <;> rfl
    · by_cases h : ids = []
      · simp [h, normalizeCompactedRunIds]
      · simp only [h, if_false, Option.map_some, Option.getD_some, strings_str]
        exact hids

/-! ## Reading and writing the states -/

theorem value?_readScopeStates : (readScopeStates metadata).value? key =
    if key = "" then none else (((rawScopeStates metadata).bind (Dict.obj? · key)).map parseState) := by
  unfold readScopeStates
  cases rawScopeStates metadata with
  | none => simp
  | some states =>
    rw [Mapping.value?_collect]
    by_cases hkey : key = ""
    · simp [hkey]
    · by_cases hmem : key ∈ states.map (·.1)
      · simp [hmem, hkey]
      · have hnone : Dict.obj? states key = none := by
          unfold Dict.obj?
          rw [Dict.get?_eq_none.mpr hmem]
        simp [hmem, hkey, hnone]

theorem scopeStateAt_eq (hkey : key ≠ "") :
    scopeStateAt metadata key = (((rawScopeStates metadata).bind (Dict.obj? · key)).map parseState).getD {} := by
  rw [scopeStateAt, value?_readScopeStates, if_neg hkey]

theorem normalized_empty : HistoryScopeState.normalized {} = {} := by
  unfold HistoryScopeState.normalized normalizeCompactedRunIds
  simp

theorem normalized_of_read {read : HistoryScopeState} (h : (readScopeStates metadata).value? key = some read) :
    read.normalized = read := by
  rw [value?_readScopeStates] at h
  split at h
  · cases h
  · rcases Option.map_eq_some_iff.mp h with ⟨raw, -, rfl⟩
    exact normalized_parseState

/-- A state that is read is normalized. -/
theorem normalized_stateAt : (scopeStateAt metadata key).normalized = scopeStateAt metadata key := by
  unfold scopeStateAt
  cases h : (readScopeStates metadata).value? key with
  | none => exact normalized_empty
  | some read => exact normalized_of_read h

theorem kept_stateAt : Newest.Kept compactedRunIdRetentionLimit (scopeStateAt metadata key).compactedRunIds := by
  rw [← normalized_stateAt]
  exact kept_normalize

theorem scopeStateAt_nil : scopeStateAt metadata "" = {} := by
  rw [scopeStateAt, value?_readScopeStates, if_pos rfl]
  rfl

variable {states : Mapping String HistoryScopeState}

theorem nodup_serializedStates : ((serializedStates states).map (·.1)).Nodup := by
  have hsub : ((serializedStates states).map (·.1)).Sublist (states.rows.map (·.key)) := by
    unfold serializedStates
    induction states.rows with
    | nil => exact List.Sublist.refl _
    | cons item rows ih =>
      rw [List.filterMap_cons]
      by_cases hitem : stateIsEmpty item.value
      · simp only [hitem, if_true]
        exact ih.cons _
      · simp only [hitem, if_false, List.map_cons]
        exact ih.cons_cons _
  exact states.primaryKey.sublist hsub

theorem get?_serializedStates : Dict.get? (serializedStates states) key =
      ((states.value? key).filter fun state => ¬ stateIsEmpty state).map fun state => .obj (stateToMetadata state) := by
  ext value
  have hmem : Dict.get? (serializedStates states) key = some value ↔ (key, value) ∈ serializedStates states :=
    JsonText.lookup_eq_some nodup_serializedStates
  rw [hmem]
  unfold serializedStates
  rw [List.mem_filterMap, Option.map_eq_some_iff]
  constructor
  · rintro ⟨item, hitem, hvalue⟩
    by_cases hempty : stateIsEmpty item.value
    · simp [hempty] at hvalue
    · rw [if_neg hempty, Option.some.injEq, Prod.mk.injEq] at hvalue
      rcases hvalue with ⟨rfl, rfl⟩
      refine ⟨item.value, ?_, rfl⟩
      rw [Option.filter_eq_some_iff]
      exact ⟨Mapping.value?_eq_some.mpr hitem, by simpa using hempty⟩
  · rintro ⟨state, hstate, rfl⟩
    rw [Option.filter_eq_some_iff] at hstate
    refine ⟨⟨key, state⟩, Mapping.value?_eq_some.mp hstate.1, ?_⟩
    rw [if_neg (by simpa using hstate.2)]

/-- The metadata holds a state object of the current version: its keys are distinct, and the
compaction key, where it is present, has what `write_scope_state` puts there. -/
structure StoredMetadata (metadata : Option Dict) : Prop where
  proper : Proper (.obj (metadata.getD []))
  current : ∀ v, Dict.get? (metadata.getD []) mindroomCompactionMetadataKey = some v →
    ∃ raw states, v = .obj raw ∧ (Dict.get? raw "version").map (Json.equalsInt compactionMetadataVersion) = some true ∧
      Dict.get? raw "states" = some (.obj states)

/-- What `write_scope_state` puts under its key. -/
def compactionValue (serialized : Dict) : Json :=
  .obj [("version", .num compactionMetadataVersion), ("states", .obj serialized)]

theorem rawScopeStates_eq : rawScopeStates metadata =
    match Dict.get? (metadata.getD []) mindroomCompactionMetadataKey with
    | some (.obj raw) =>
      if ((Dict.get? raw "version").map (Json.equalsInt compactionMetadataVersion)).getD false then
        Dict.obj? raw "states"
      else none
    | _ => none := by
  unfold rawScopeStates
  cases metadata with
  | none => rfl
  | some m =>
    rw [Option.bind_some, Option.getD_some, Dict.obj?]
    cases Dict.get? m mindroomCompactionMetadataKey with
    | none => rfl
    | some v => cases v <;> rfl

theorem rawScopeStates_of_none (h : Dict.get? (metadata.getD []) mindroomCompactionMetadataKey = none) :
    rawScopeStates metadata = none := by
  rw [rawScopeStates_eq, h]

theorem rawScopeStates_of_obj {states : Dict}
    (h : Dict.get? (metadata.getD []) mindroomCompactionMetadataKey = some (.obj raw))
    (hversion : (Dict.get? raw "version").map (Json.equalsInt compactionMetadataVersion) = some true)
    (hstates : Dict.get? raw "states" = some (.obj states)) : rawScopeStates metadata = some states := by
  rw [rawScopeStates_eq, h]
  simp only [hversion]
  exact Dict.obj?_eq_some.mpr hstates

theorem rawScopeStates_compactionValue {serialized : Dict}
    (h : Dict.get? (metadata.getD []) mindroomCompactionMetadataKey = some (compactionValue serialized)) :
    rawScopeStates metadata = some serialized :=
  rawScopeStates_of_obj h (by simp [Dict.get?_cons, Json.equalsInt]) (by simp [Dict.get?_cons])

/-- The states that `write_scope_state` writes. -/
def writtenStates (metadata : Option Dict) (scope : CompactionScope) (state : HistoryScopeState) :
    Mapping String HistoryScopeState :=
  if stateIsEmpty state then (readScopeStates metadata).pop scope.key
  else (readScopeStates metadata).set scope.key state

theorem writeScopeState_eq : writeScopeState metadata scope state =
    if serializedStates (writtenStates metadata scope state) = [] then
      Dict.pop (metadata.getD []) mindroomCompactionMetadataKey
    else
      Dict.set (metadata.getD []) mindroomCompactionMetadataKey
        (compactionValue (serializedStates (writtenStates metadata scope state))) := rfl

/-- Only the compaction key is written. -/
theorem get?_writeScopeState_of_ne (hkey : key ≠ mindroomCompactionMetadataKey) :
    Dict.get? (writeScopeState metadata scope state) key = Dict.get? (metadata.getD []) key := by
  rw [writeScopeState_eq]
  split
  · rw [Dict.get?_pop, if_neg hkey]
  · rw [Dict.get?_set, if_neg hkey]

theorem getD_writtenStates : ((writtenStates metadata scope state).value? key).getD {} =
      if key = scope.key then state else scopeStateAt metadata key := by
  unfold writtenStates scopeStateAt
  by_cases hempty : stateIsEmpty state
  · rw [if_pos hempty, Mapping.value?_pop]
    by_cases hkey : key = scope.key
    · rw [if_pos hkey, if_pos hkey, hempty, Option.getD_none]
    · rw [if_neg hkey, if_neg hkey]
  · rw [if_neg hempty, Mapping.value?_set]
    by_cases hkey : key = scope.key
    · rw [if_pos hkey, if_pos hkey.symm, Option.getD_some]
    · rw [if_neg hkey, if_neg (Ne.symm hkey)]

theorem get?_serialized_of_getD
    (hstate : (states.value? key).getD {} = state) : Dict.get? (serializedStates states) key =
      if stateIsEmpty state then none else some (.obj (stateToMetadata state)) := by
  rw [get?_serializedStates, ← hstate]
  cases hv : states.value? key with
  | none => simp [stateIsEmpty]
  | some v => by_cases hempty : stateIsEmpty v <;> simp [Option.filter, hempty]

/-- The compaction key of metadata whose states have been written: the key is absent when there
is no state, and holds the states that are not empty otherwise. -/
structure WrittenMetadata (metadata : Dict) (states : String → HistoryScopeState) : Prop where
  normalized : ∀ key, (states key).normalized = states key
  value : Dict.get? metadata mindroomCompactionMetadataKey = none ∧ (∀ key, stateIsEmpty (states key)) ∨
    ∃ serialized, Dict.get? metadata mindroomCompactionMetadataKey = some (compactionValue serialized) ∧
      Proper (.obj serialized) ∧
      ∀ key, Dict.get? serialized key =
        if stateIsEmpty (states key) then none else some (.obj (stateToMetadata (states key)))
  unnamed : states "" = {}

theorem proper_stateToMetadata : Proper (.obj (stateToMetadata state)) := by
  rw [proper_obj]
  refine ⟨nodup_stateToMetadata, ?_⟩
  intro member hmember
  unfold stateToMetadata at hmember
  simp only [List.mem_append, List.mem_singleton, Option.mem_toList, Option.map_eq_some_iff] at hmember
  rcases hmember with (((rfl | ⟨_, -, rfl⟩) | ⟨_, -, rfl⟩) | ⟨_, -, rfl⟩) | hids
  · trivial
  · trivial
  · trivial
  · trivial
  · split at hids
    · cases hids
    · rw [List.mem_singleton] at hids
      rw [hids, Proper, JsonText.properItems_iff]
      intro item hitem
      rcases List.mem_map.mp hitem with ⟨_, -, rfl⟩
      trivial

theorem proper_serializedStates : Proper (.obj (serializedStates states)) := by
  rw [proper_obj]
  refine ⟨nodup_serializedStates, ?_⟩
  intro member hmember
  rcases List.mem_filterMap.mp hmember with ⟨item, -, hitem⟩
  split at hitem
  · cases hitem
  · rw [Option.some.injEq] at hitem
    rw [← hitem]
    exact proper_stateToMetadata

/-- What `write_scope_state` leaves: the scope's state is the given one, the others stay. -/
theorem written_writeScopeState (hstate : state.normalized = state) :
    WrittenMetadata (writeScopeState metadata scope state)
      fun key => if key = scope.key then state else scopeStateAt metadata key where
  normalized key := by
    by_cases hkey : key = scope.key
    · simpa [hkey] using hstate
    · simpa [hkey] using normalized_stateAt
  value := by
    have hget : ∀ key, Dict.get? (serializedStates (writtenStates metadata scope state)) key =
        if stateIsEmpty (if key = scope.key then state else scopeStateAt metadata key) then none
        else some (.obj (stateToMetadata (if key = scope.key then state else scopeStateAt metadata key))) :=
      fun key => get?_serialized_of_getD getD_writtenStates
    rw [writeScopeState_eq]
    split
    · rename_i hnil
      left
      refine ⟨by rw [Dict.get?_pop, if_pos rfl], fun key => ?_⟩
      have hnone := hget key
      rw [hnil, Dict.get?_nil] at hnone
      by_contra hempty
      rw [if_neg hempty] at hnone
      cases hnone
    · exact .inr ⟨_, by rw [Dict.get?_set, if_pos rfl], proper_serializedStates, hget⟩
  unnamed := by rw [if_neg (Ne.symm scope.key_ne), scopeStateAt_nil]

theorem scopeStateAt_written {m : Dict} {states : String → HistoryScopeState} (h : WrittenMetadata m states) :
    scopeStateAt (some m) key = states key := by
  by_cases hkey : key = ""
  · rw [hkey, scopeStateAt_nil, h.unnamed]
  rw [scopeStateAt_eq hkey]
  rcases h.value with ⟨hnone, hempty⟩ | ⟨serialized, hvalue, -, hget⟩
  · rw [@rawScopeStates_of_none (some m) hnone, hempty key]
    rfl
  · rw [@rawScopeStates_compactionValue (some m) _ hvalue, Option.bind_some, Dict.obj?, hget key]
    by_cases hempty : stateIsEmpty (states key)
    · rw [if_pos hempty, hempty]
      rfl
    · simp only [if_neg hempty, Option.map_some, Option.getD_some]
      exact parseState_stateToMetadata (h.normalized key)

theorem StoredMetadata.of_written {m : Dict} {states : String → HistoryScopeState} (h : WrittenMetadata m states)
    (hproper : Proper (.obj m)) : StoredMetadata (some m) where
  proper := hproper
  current v hv := by
    rcases h.value with ⟨hnone, -⟩ | ⟨serialized, hvalue, -⟩
    · rw [Option.getD_some, hnone] at hv
      cases hv
    · rw [Option.getD_some, hvalue, Option.some.injEq] at hv
      rw [← hv]
      exact ⟨_, serialized, rfl, by simp [Dict.get?_cons, Json.equalsInt], by simp [Dict.get?_cons]⟩

theorem proper_compactionValue {serialized : Dict} (h : Proper (.obj serialized)) :
    Proper (compactionValue serialized) := by
  unfold compactionValue
  rw [proper_obj]
  constructor
  · simp
  · intro member hmember
    simp only [List.mem_cons, List.not_mem_nil, or_false] at hmember
    rcases hmember with rfl | rfl
    · trivial
    · exact h

theorem proper_writeScopeState (h : Proper (.obj (metadata.getD []))) :
    Proper (.obj (writeScopeState metadata scope state)) := by
  rw [writeScopeState_eq]
  split
  · exact proper_pop h
  · exact proper_set h (proper_compactionValue proper_serializedStates)

/-- What is written is read: the scope's state is the given one, the others are as they were. -/
theorem scopeStateAt_writeScopeState (hstate : state.normalized = state) :
    scopeStateAt (some (writeScopeState metadata scope state)) key =
      if key = scope.key then state else scopeStateAt metadata key :=
  scopeStateAt_written (written_writeScopeState hstate)

/-! ## One version merged over the other -/

/-- What is left of a scope's two states when newer metadata is merged over older: the newer
state, where it is written at all, is laid over the older one. -/
def mergedState (older newer : HistoryScopeState) : HistoryScopeState :=
  if stateIsEmpty newer then older else older.over newer

theorem deepMergeMetadata_some (m : Dict) : deepMergeMetadata metadata (some m) = some (match metadata with
      | some base => mergeItems base m
      | none => m) := by
  cases metadata <;> rfl

theorem mergeValue_none {v : Json} : mergeValue none v = v := by
  cases v <;> rfl

theorem get?_deepMerge {m : Dict} (hm : Proper (.obj m)) :
    Dict.get? ((deepMergeMetadata metadata (some m)).getD []) key =
      match Dict.get? m key with
      | none => Dict.get? (metadata.getD []) key
      | some v => some (mergeValue (Dict.get? (metadata.getD []) key) v) := by
  rw [deepMergeMetadata_some]
  cases metadata with
  | none =>
    rw [Option.getD_some, Option.getD_none, Dict.get?_nil]
    cases Dict.get? m key with
    | none => rfl
    | some v => simp only [mergeValue_none]
  | some base =>
    rw [Option.getD_some, Option.getD_some]
    exact get?_mergeItems (proper_obj.mp hm).1

theorem mergeItems_compactionValue {base serialized : Dict} :
    mergeItems base [("version", .num compactionMetadataVersion), ("states", .obj serialized)] =
      Dict.set (Dict.set base "version" (.num compactionMetadataVersion)) "states"
        (mergeValue (Dict.get? base "states") (.obj serialized)) := by
  simp only [mergeItems, mergeValue, Dict.get?_set]
  rfl

/-- The raw states of the merge. -/
theorem rawScopeStates_merged {m serialized : Dict} (h : StoredMetadata metadata) (hm : Proper (.obj m))
    (hvalue : Dict.get? m mindroomCompactionMetadataKey = some (compactionValue serialized)) :
    rawScopeStates (deepMergeMetadata metadata (some m)) = some (match rawScopeStates metadata with
      | some states => mergeItems states serialized
      | none => serialized) := by
  have hget := @get?_deepMerge metadata mindroomCompactionMetadataKey m hm
  rw [hvalue] at hget
  cases hold : Dict.get? (metadata.getD []) mindroomCompactionMetadataKey with
  | none =>
    rw [hold] at hget
    rw [rawScopeStates_of_none hold]
    exact rawScopeStates_compactionValue hget
  | some v =>
    rcases h.current v hold with ⟨raw, states, rfl, hversion, hstates⟩
    rw [rawScopeStates_of_obj hold hversion hstates]
    rw [hold] at hget
    refine rawScopeStates_of_obj hget ?_ ?_
    · rw [mergeItems_compactionValue, Dict.get?_set, if_neg (by decide), Dict.get?_set, if_pos rfl]
      simp [Json.equalsInt]
    · rw [mergeItems_compactionValue, Dict.get?_set, if_pos rfl, hstates]
      rfl

/-- The states of the merge of stored metadata with metadata whose states have been written. -/
theorem scopeStateAt_merged {m : Dict} {states : String → HistoryScopeState} (h : StoredMetadata metadata)
    (hm : Proper (.obj m)) (hwritten : WrittenMetadata m states) :
    scopeStateAt (deepMergeMetadata metadata (some m)) key = mergedState (scopeStateAt metadata key) (states key) := by
  by_cases hkey : key = ""
  · rw [hkey, scopeStateAt_nil, scopeStateAt_nil, hwritten.unnamed]
    rfl
  rw [mergedState, scopeStateAt_eq hkey, scopeStateAt_eq hkey]
  rcases hwritten.value with ⟨hnone, hempty⟩ | ⟨serialized, hvalue, hproper, hget⟩
  · have hsame : rawScopeStates (deepMergeMetadata metadata (some m)) = rawScopeStates metadata := by
      rw [rawScopeStates_eq, rawScopeStates_eq, get?_deepMerge hm, hnone]
    rw [hsame, if_pos (hempty key)]
  · rw [rawScopeStates_merged h hm hvalue, Option.bind_some]
    have hnormalized := hwritten.normalized key
    by_cases hempty : stateIsEmpty (states key)
    · -- the newer metadata says nothing of this scope
      have hnone : Dict.get? serialized key = none := by rw [hget key, if_pos hempty]
      rw [if_pos hempty]
      cases rawScopeStates metadata with
      | none => simp [Dict.obj?, hnone]
      | some old =>
        have hold : Dict.obj? (mergeItems old serialized) key = Dict.obj? old key := by
          unfold Dict.obj?
          rw [get?_mergeItems (proper_obj.mp hproper).1, hnone]
        simp only [hold, Option.bind_some]
    · have hsome : Dict.get? serialized key = some (.obj (stateToMetadata (states key))) := by
        rw [hget key, if_neg hempty]
      rw [if_neg hempty]
      cases rawScopeStates metadata with
      | none =>
        simp only [Dict.obj?_eq_some.mpr hsome, Option.map_some, Option.getD_some, Option.bind_none, Option.map_none,
          Option.getD_none, over_empty]
        exact parseState_stateToMetadata hnormalized
      | some old =>
        have hmerged : Dict.get? (mergeItems old serialized) key =
            some (mergeValue (Dict.get? old key) (.obj (stateToMetadata (states key)))) := by
          rw [get?_mergeItems (proper_obj.mp hproper).1, hsome]
        simp only [Option.bind_some]
        cases hraw : Dict.obj? old key with
        | none =>
          -- what the store has under the key is no object, and is replaced
          have hreplaced : mergeValue (Dict.get? old key) (.obj (stateToMetadata (states key))) =
              .obj (stateToMetadata (states key)) := by
            cases hv : Dict.get? old key with
            | none => exact mergeValue_none
            | some v =>
              cases v with
              | obj o =>
                rw [Dict.obj?_eq_some.mpr hv] at hraw
                cases hraw
              | _ => rfl
          rw [hreplaced] at hmerged
          simp only [Dict.obj?_eq_some.mpr hmerged, Option.map_some, Option.getD_some, Option.map_none,
            Option.getD_none, over_empty]
          exact parseState_stateToMetadata hnormalized
        | some raw =>
          rw [Dict.obj?_eq_some.mp hraw] at hmerged
          have hobj : Dict.obj? (mergeItems old serialized) key =
              some (mergeItems raw (stateToMetadata (states key))) := Dict.obj?_eq_some.mpr hmerged
          simp only [hobj, Option.map_some, Option.getD_some]
          exact parseState_mergeItems hnormalized

theorem StoredMetadata.merged {m : Dict} {states : String → HistoryScopeState} (h : StoredMetadata metadata)
    (hm : Proper (.obj m)) (hwritten : WrittenMetadata m states) :
    StoredMetadata (deepMergeMetadata metadata (some m)) where
  proper := by
    rw [deepMergeMetadata_some]
    cases metadata with
    | none => exact hm
    | some base => exact proper_mergeItems m hm base h.proper
  current v hv := by
    rw [get?_deepMerge hm] at hv
    rcases hwritten.value with ⟨hnone, -⟩ | ⟨serialized, hvalue, -⟩
    · rw [hnone] at hv
      exact h.current v hv
    · rw [hvalue, Option.some.injEq] at hv
      cases hold : Dict.get? (metadata.getD []) mindroomCompactionMetadataKey with
      | none =>
        rw [hold, mergeValue_none] at hv
        exact ⟨_, serialized, hv.symm, by simp [Dict.get?_cons, Json.equalsInt], by simp [Dict.get?_cons]⟩
      | some old =>
        rcases h.current old hold with ⟨raw, states, rfl, -, hstates⟩
        rw [hold] at hv
        refine ⟨_, mergeItems states serialized, hv.symm, ?_, ?_⟩
        · rw [mergeItems_compactionValue, Dict.get?_set, if_neg (by decide), Dict.get?_set, if_pos rfl]
          simp [Json.equalsInt]
        · rw [mergeItems_compactionValue, Dict.get?_set, if_pos rfl, hstates]
          rfl

end MindRoom
