import MindRoom.CompactionState

/-! # Consumed event ids

The Matrix event ids each scope has consumed are kept in the session metadata beside the
compaction states. Unlike those they are sets, and a compaction chunk joins the sets of the two
versions it merges. A set is a list here, of which only the members count.
-/

namespace MindRoom

open JsonText (Proper)

def mindroomMatrixHistoryMetadataKey : String := "mindroom_matrix_history"

def matrixHistoryMetadataVersion : Int := 1

def sortedIds (ids : List String) : List String := ids.dedup.insertionSort (· ≤ ·)

def validMatrixHistoryMetadata (metadata : Dict) : Option Dict :=
  match Dict.obj? metadata mindroomMatrixHistoryMetadataKey with
  | some raw =>
    if ((Dict.get? raw "version").map (Json.equalsInt matrixHistoryMetadataVersion)).getD false then some raw
    else none
  | none => none

/-- The set a raw state holds, if it holds a list at all. -/
def parseSeenEventIds (raw : Dict) : Option (List String) :=
  match Dict.get? raw "seen_event_ids" with
  | some (.arr items) => some ((Json.strings (.arr items)).filter (· ≠ ""))
  | _ => none

def rawSeenStates (metadata : Dict) : Option Dict :=
  (validMatrixHistoryMetadata metadata).bind (Dict.obj? · "states")

/-- `_read_scope_seen_event_states_from_metadata`. -/
def readScopeSeenEventStates (metadata : Option Dict) : Mapping String (List String) :=
  match metadata.bind rawSeenStates with
  | some states => Mapping.collect (states.map (·.1)) fun key => (Dict.obj? states key).bind parseSeenEventIds
  | none => ∅

/-- The ids of the scope under a key, none where there is no state. -/
def seenAt (metadata : Option Dict) (key : String) : List String :=
  ((readScopeSeenEventStates metadata).value? key).getD []

def mergeScopeSeenEventStates (baseStates extraStates : Mapping String (List String)) : Mapping String (List String) :=
  baseStates.joinWith (fun ids old => old.getD [] ++ ids) extraStates

def stateWithSeenEventIds (metadata : Dict) (key : String) (ids : List String) : Dict :=
  Dict.set (((rawSeenStates metadata).bind (Dict.obj? · key)).getD []) "seen_event_ids"
    (.arr ((sortedIds ids).map .str))

/-- The states with at least one id, in the order of their keys. -/
def serializedSeenStates (metadata : Dict) (states : Mapping String (List String)) : Dict :=
  Dict.sortKeys (states.rows.filterMap fun item =>
    if item.value = [] then none else some (item.key, .obj (stateWithSeenEventIds metadata item.key item.value)))

/-- `d.update(e)`. -/
def updateDict (d e : Dict) : Dict := e.foldl (fun d entry => Dict.set d entry.1 entry.2) d

def metadataWithScopeSeenEventStates (metadata : Option Dict) (states : Mapping String (List String)) : Dict :=
  let session := metadata.getD []
  let serialized := serializedSeenStates session states
  if serialized = [] then Dict.pop session mindroomMatrixHistoryMetadataKey
  else
    let history := (validMatrixHistoryMetadata session).getD []
    let nextStates := updateDict ((Dict.obj? history "states").getD []) serialized
    Dict.set session mindroomMatrixHistoryMetadataKey
      (.obj (Dict.set (Dict.set history "version" (.num matrixHistoryMetadataVersion)) "states" (.obj nextStates)))

def metadataWithMergedSeenEventIds (mergedMetadata : Option Dict) (sources : List (Option Dict)) : Option Dict :=
  let states := sources.foldl (fun states source => mergeScopeSeenEventStates states (readScopeSeenEventStates source)) ∅
  if states.rows = [] then mergedMetadata else some (metadataWithScopeSeenEventStates mergedMetadata states)

def updateScopeSeenEventIds (metadata : Option Dict) (scope : CompactionScope) (eventIds : List String) : Option Dict :=
  let normalized := sortedIds (eventIds.filter (· ≠ ""))
  if normalized = [] then metadata
  else
    let existing := seenAt metadata scope.key
    let updated := sortedIds (existing ++ normalized)
    if updated = sortedIds existing then metadata
    else some (metadataWithScopeSeenEventStates metadata ((readScopeSeenEventStates metadata).set scope.key updated))

/-! ## Other keys -/

variable {metadata : Option Dict} {m d e : Dict} {states : Mapping String (List String)} {key id : String}
  {sources : List (Option Dict)}

variable {ids : List String} {metadata' : Option Dict}

theorem mem_sortedIds : id ∈ sortedIds ids ↔ id ∈ ids := by
  unfold sortedIds
  rw [(List.perm_insertionSort _ _).mem_iff, List.mem_dedup]

theorem get?_metadataWithScopeSeenEventStates_of_ne (hkey : key ≠ mindroomMatrixHistoryMetadataKey) :
    Dict.get? (metadataWithScopeSeenEventStates metadata states) key = Dict.get? (metadata.getD []) key := by
  unfold metadataWithScopeSeenEventStates
  dsimp only
  split
  · rw [Dict.get?_pop, if_neg hkey]
  · rw [Dict.get?_set, if_neg hkey]

/-- Joining the sets of ids leaves every other key. -/
theorem get?_metadataWithMergedSeenEventIds_of_ne (hkey : key ≠ mindroomMatrixHistoryMetadataKey) :
    Dict.get? ((metadataWithMergedSeenEventIds metadata sources).getD []) key = Dict.get? (metadata.getD []) key := by
  unfold metadataWithMergedSeenEventIds
  dsimp only
  split
  · rfl
  · exact get?_metadataWithScopeSeenEventStates_of_ne hkey

theorem get?_updateScopeSeenEventIds_of_ne {scope : CompactionScope} {eventIds : List String}
    (hkey : key ≠ mindroomMatrixHistoryMetadataKey) :
    Dict.get? ((updateScopeSeenEventIds metadata scope eventIds).getD []) key = Dict.get? (metadata.getD []) key := by
  unfold updateScopeSeenEventIds
  dsimp only
  split
  · rfl
  · split
    · rfl
    · exact get?_metadataWithScopeSeenEventStates_of_ne hkey

/-! ## Distinct keys -/

theorem proper_updateDict (hd : Proper (.obj d)) (he : ∀ entry ∈ e, Proper entry.2) :
    Proper (.obj (updateDict d e)) := by
  unfold updateDict
  induction e generalizing d with
  | nil => exact hd
  | cons entry e ih =>
    rw [List.foldl_cons]
    exact ih (proper_set hd (he entry List.mem_cons_self)) fun entry' hentry' =>
      he entry' (List.mem_cons_of_mem _ hentry')

theorem proper_obj? {o : Dict} (h : Proper (.obj d)) (hk : Dict.obj? d key = some o) : Proper (.obj o) :=
  proper_get? h (Dict.obj?_eq_some.mp hk)

theorem validMatrixHistoryMetadata_eq_some {raw : Dict} : validMatrixHistoryMetadata m = some raw ↔
    Dict.get? m mindroomMatrixHistoryMetadataKey = some (.obj raw) ∧
      (Dict.get? raw "version").map (Json.equalsInt matrixHistoryMetadataVersion) = some true := by
  rw [validMatrixHistoryMetadata, ← Dict.obj?_eq_some]
  cases Dict.obj? m mindroomMatrixHistoryMetadataKey with
  | none => simp
  | some o =>
    simp only [Option.ite_none_right_eq_some, Option.some.injEq]
    constructor
    · rintro ⟨hversion, rfl⟩
      refine ⟨rfl, ?_⟩
      cases hv : (Dict.get? o "version").map (Json.equalsInt matrixHistoryMetadataVersion) with
      | none =>
        rw [hv] at hversion
        cases hversion
      | some b =>
        rw [hv, Option.getD_some] at hversion
        rw [hversion]
    · rintro ⟨rfl, hversion⟩
      rw [hversion]
      exact ⟨rfl, rfl⟩

theorem proper_nil : Proper (.obj []) := by
  rw [proper_obj]
  simp

theorem proper_getD_obj? (h : Proper (.obj d)) : Proper (.obj ((Dict.obj? d key).getD [])) := by
  cases hk : Dict.obj? d key with
  | none => exact proper_nil
  | some o => exact proper_obj? h hk

theorem proper_validMatrixHistoryMetadata (h : Proper (.obj m)) :
    Proper (.obj ((validMatrixHistoryMetadata m).getD [])) := by
  cases hv : validMatrixHistoryMetadata m with
  | none => exact proper_nil
  | some raw => exact proper_get? h (validMatrixHistoryMetadata_eq_some.mp hv).1

theorem proper_stateWithSeenEventIds (h : Proper (.obj m)) : Proper (.obj (stateWithSeenEventIds m key ids)) := by
  unfold stateWithSeenEventIds rawSeenStates
  apply proper_set
  · have hvalid := proper_validMatrixHistoryMetadata h
    cases hv : validMatrixHistoryMetadata m with
    | none => exact proper_nil
    | some raw =>
      rw [hv] at hvalid
      rw [Option.bind_some]
      cases hs : Dict.obj? raw "states" with
      | none => exact proper_nil
      | some rawStates => exact proper_getD_obj? (proper_obj? hvalid hs)
  · rw [Proper, JsonText.properItems_iff]
    intro item hitem
    rcases List.mem_map.mp hitem with ⟨_, -, rfl⟩
    trivial

theorem mem_serializedSeenStates {entry : String × Json} : entry ∈ serializedSeenStates m states ↔
    ∃ ids, states.value? entry.1 = some ids ∧ ids ≠ [] ∧ entry.2 = .obj (stateWithSeenEventIds m entry.1 ids) := by
  unfold serializedSeenStates
  rw [(JsonText.perm_sortKeys _).mem_iff, List.mem_filterMap]
  constructor
  · rintro ⟨item, hitem, hentry⟩
    split at hentry
    · cases hentry
    · rename_i hids
      rw [Option.some.injEq] at hentry
      rw [← hentry]
      exact ⟨item.value, Mapping.value?_eq_some.mpr hitem, hids, rfl⟩
  · rintro ⟨ids, hvalue, hids, hentry⟩
    refine ⟨⟨entry.1, ids⟩, Mapping.value?_eq_some.mp hvalue, ?_⟩
    rw [if_neg hids, ← hentry]

theorem proper_metadataWithScopeSeenEventStates (h : Proper (.obj (metadata.getD []))) :
    Proper (.obj (metadataWithScopeSeenEventStates metadata states)) := by
  unfold metadataWithScopeSeenEventStates
  dsimp only
  split
  · exact proper_pop h
  · have hvalid := proper_validMatrixHistoryMetadata h
    refine proper_set h (proper_set (proper_set hvalid trivial) (proper_updateDict (proper_getD_obj? hvalid) ?_))
    intro entry hentry
    rcases mem_serializedSeenStates.mp hentry with ⟨ids, -, -, heq⟩
    rw [heq]
    exact proper_stateWithSeenEventIds h

theorem proper_metadataWithMergedSeenEventIds (h : Proper (.obj (metadata.getD []))) :
    Proper (.obj ((metadataWithMergedSeenEventIds metadata sources).getD [])) := by
  unfold metadataWithMergedSeenEventIds
  dsimp only
  split
  · exact h
  · exact proper_metadataWithScopeSeenEventStates h

theorem proper_updateScopeSeenEventIds {scope : CompactionScope} {eventIds : List String}
    (h : Proper (.obj (metadata.getD []))) :
    Proper (.obj ((updateScopeSeenEventIds metadata scope eventIds).getD [])) := by
  unfold updateScopeSeenEventIds
  dsimp only
  split
  · exact h
  · split
    · exact h
    · exact proper_metadataWithScopeSeenEventStates h

/-! ## The compaction states beside them -/

theorem rawScopeStates_congr
    (h : Dict.get? (metadata'.getD []) mindroomCompactionMetadataKey =
      Dict.get? (metadata.getD []) mindroomCompactionMetadataKey) :
    rawScopeStates metadata' = rawScopeStates metadata := by
  rw [rawScopeStates_eq, rawScopeStates_eq, h]

theorem scopeStateAt_congr
    (h : Dict.get? (metadata'.getD []) mindroomCompactionMetadataKey =
      Dict.get? (metadata.getD []) mindroomCompactionMetadataKey) :
    scopeStateAt metadata' key = scopeStateAt metadata key := by
  unfold scopeStateAt
  rw [value?_readScopeStates, value?_readScopeStates, rawScopeStates_congr h]

theorem compactionKey_ne : mindroomCompactionMetadataKey ≠ mindroomMatrixHistoryMetadataKey := by decide

@[simp] theorem scopeStateAt_metadataWithMergedSeenEventIds :
    scopeStateAt (metadataWithMergedSeenEventIds metadata sources) key = scopeStateAt metadata key :=
  scopeStateAt_congr (get?_metadataWithMergedSeenEventIds_of_ne compactionKey_ne)

@[simp] theorem scopeStateAt_updateScopeSeenEventIds {scope : CompactionScope} {eventIds : List String} :
    scopeStateAt (updateScopeSeenEventIds metadata scope eventIds) key = scopeStateAt metadata key :=
  scopeStateAt_congr (get?_updateScopeSeenEventIds_of_ne compactionKey_ne)

theorem StoredMetadata.congr (h : StoredMetadata metadata) (hproper : Proper (.obj (metadata'.getD [])))
    (hget : Dict.get? (metadata'.getD []) mindroomCompactionMetadataKey =
      Dict.get? (metadata.getD []) mindroomCompactionMetadataKey) : StoredMetadata metadata' where
  proper := hproper
  current v hv := h.current v (by rwa [hget] at hv)

theorem StoredMetadata.mergedSeen (h : StoredMetadata metadata) :
    StoredMetadata (metadataWithMergedSeenEventIds metadata sources) :=
  h.congr (proper_metadataWithMergedSeenEventIds h.proper) (get?_metadataWithMergedSeenEventIds_of_ne compactionKey_ne)

theorem StoredMetadata.updateSeen {scope : CompactionScope} {eventIds : List String} (h : StoredMetadata metadata) :
    StoredMetadata (updateScopeSeenEventIds metadata scope eventIds) :=
  h.congr (proper_updateScopeSeenEventIds h.proper) (get?_updateScopeSeenEventIds_of_ne compactionKey_ne)

/-! ## The union -/

/-- The history key, where it is present, holds an object of the current version. -/
def SeenCurrent (metadata : Option Dict) : Prop :=
  ∀ v, Dict.get? (metadata.getD []) mindroomMatrixHistoryMetadataKey = some v →
    ∃ raw, v = .obj raw ∧ (Dict.get? raw "version").map (Json.equalsInt matrixHistoryMetadataVersion) = some true

def seenIn (raw : Option Dict) : List String := ((raw.bind parseSeenEventIds).getD [])

theorem seenAt_eq : seenAt metadata key = seenIn ((metadata.bind rawSeenStates).bind (Dict.obj? · key)) := by
  unfold seenAt readScopeSeenEventStates seenIn
  cases metadata.bind rawSeenStates with
  | none => rfl
  | some states =>
    dsimp only
    rw [Mapping.value?_collect, Option.bind_some]
    split
    · rfl
    · rename_i hmem
      unfold Dict.obj?
      rw [Dict.get?_eq_none.mpr hmem]
      rfl

/-- An object of a merge is one of the two objects that were there, or the merge of both. -/
theorem obj?_mergeItems {o : Dict} (he : Proper (.obj e)) (h : Dict.obj? (mergeItems d e) key = some o) :
    Dict.obj? d key = some o ∨ Dict.obj? e key = some o ∨
      ∃ base extra, Dict.obj? d key = some base ∧ Dict.obj? e key = some extra ∧ o = mergeItems base extra := by
  rw [Dict.obj?_eq_some, get?_mergeItems (proper_obj.mp he).1] at h
  cases hk : Dict.get? e key with
  | none =>
    rw [hk] at h
    exact .inl (Dict.obj?_eq_some.mpr h)
  | some v =>
    rw [hk, Option.some.injEq] at h
    cases v with
    | obj extra =>
      have hextra : Dict.obj? e key = some extra := Dict.obj?_eq_some.mpr hk
      unfold mergeValue at h
      split at h
      · rename_i base hbase
        exact .inr (.inr ⟨base, extra, Dict.obj?_eq_some.mpr hbase, hextra, (Json.obj.inj h).symm⟩)
      · rw [← Json.obj.inj h]
        exact .inr (.inl hextra)
    | _ => cases h

/-- Merging two raw states invents no id. -/
theorem mem_seenIn_mergeItems (he : Proper (.obj e)) (h : id ∈ seenIn (some (mergeItems d e))) :
    id ∈ seenIn (some d) ∨ id ∈ seenIn (some e) := by
  unfold seenIn parseSeenEventIds at h ⊢
  rw [Option.bind_some, get?_mergeItems (proper_obj.mp he).1] at h
  rw [Option.bind_some, Option.bind_some]
  cases hk : Dict.get? e "seen_event_ids" with
  | none =>
    rw [hk] at h
    exact .inl h
  | some v =>
    rw [hk] at h
    cases v with
    | arr items => exact .inr h
    | obj extra =>
      -- the merge puts an object under the key, which is no list
      cases hd : Dict.get? d "seen_event_ids" with
      | none =>
        rw [hd] at h
        cases h
      | some old =>
        rw [hd] at h
        cases old <;> cases h
    | _ => cases h

/-- Merging two objects of raw states invents no id. -/
theorem mem_seenIn_obj? (he : Proper (.obj e)) (h : id ∈ seenIn (Dict.obj? (mergeItems d e) key)) :
    id ∈ seenIn (Dict.obj? d key) ∨ id ∈ seenIn (Dict.obj? e key) := by
  cases ho : Dict.obj? (mergeItems d e) key with
  | none =>
    rw [ho] at h
    cases h
  | some o =>
    rw [ho] at h
    rcases obj?_mergeItems he ho with hd | he' | ⟨base, extra, hd, he', rfl⟩
    · rw [hd]
      exact .inl h
    · rw [he']
      exact .inr h
    · rw [hd, he']
      exact mem_seenIn_mergeItems (proper_obj? he he') h

theorem rawSeenStates_of_obj {raw : Dict} (h : Dict.get? m mindroomMatrixHistoryMetadataKey = some (.obj raw))
    (hversion : (Dict.get? raw "version").map (Json.equalsInt matrixHistoryMetadataVersion) = some true) :
    rawSeenStates m = Dict.obj? raw "states" := by
  unfold rawSeenStates
  rw [validMatrixHistoryMetadata_eq_some.mpr ⟨h, hversion⟩, Option.bind_some]

theorem rawSeenStates_of_none (h : Dict.get? m mindroomMatrixHistoryMetadataKey = none) : rawSeenStates m = none := by
  unfold rawSeenStates validMatrixHistoryMetadata Dict.obj?
  rw [h]
  rfl

theorem bind_rawSeenStates : metadata.bind rawSeenStates = rawSeenStates (metadata.getD []) := by
  cases metadata with
  | none => rfl
  | some m => rfl

/-- The merge of two versions holds no id that neither holds. -/
theorem mem_seenAt_merged (hm : Proper (.obj m)) (hold : SeenCurrent metadata) (hnew : SeenCurrent (some m))
    (h : id ∈ seenAt (deepMergeMetadata metadata (some m)) key) :
    id ∈ seenAt metadata key ∨ id ∈ seenAt (some m) key := by
  have hget := @get?_deepMerge metadata mindroomMatrixHistoryMetadataKey m hm
  rw [seenAt_eq, bind_rawSeenStates] at h
  rw [seenAt_eq, seenAt_eq, bind_rawSeenStates, bind_rawSeenStates, Option.getD_some]
  cases hnewKey : Dict.get? m mindroomMatrixHistoryMetadataKey with
  | none =>
    rw [hnewKey] at hget
    left
    unfold rawSeenStates validMatrixHistoryMetadata Dict.obj? at h ⊢
    rwa [hget] at h
  | some new =>
    rw [hnewKey] at hget
    rcases hnew new (by rwa [Option.getD_some]) with ⟨rawNew, rfl, hversionNew⟩
    rw [rawSeenStates_of_obj hnewKey hversionNew]
    cases holdKey : Dict.get? (metadata.getD []) mindroomMatrixHistoryMetadataKey with
    | none =>
      rw [holdKey] at hget
      rw [rawSeenStates_of_obj (hget.trans (congrArg some mergeValue_none)) hversionNew] at h
      exact .inr h
    | some old =>
      rcases hold old holdKey with ⟨rawOld, rfl, hversionOld⟩
      rw [holdKey] at hget
      rw [rawSeenStates_of_obj holdKey hversionOld]
      have hproper : Proper (.obj rawNew) := proper_get? hm hnewKey
      have hversion : (Dict.get? (mergeItems rawOld rawNew) "version").map
          (Json.equalsInt matrixHistoryMetadataVersion) = some true := by
        rw [get?_mergeItems (proper_obj.mp hproper).1]
        cases hv : Dict.get? rawNew "version" with
        | none =>
          rw [hv] at hversionNew
          cases hversionNew
        | some v =>
          rw [hv] at hversionNew
          cases v with
          | obj o => cases hversionNew
          | _ => exact hversionNew
      rw [rawSeenStates_of_obj hget hversion] at h
      cases hs : Dict.obj? (mergeItems rawOld rawNew) "states" with
      | none =>
        rw [hs] at h
        cases h
      | some states =>
        rw [hs, Option.bind_some] at h
        rcases obj?_mergeItems hproper hs with hd | he | ⟨base, extra, hd, he, rfl⟩
        · rw [hd]
          exact .inl h
        · rw [he]
          exact .inr h
        · rw [hd, he]
          exact mem_seenIn_obj? (proper_obj? hproper he) h

/-! ### The states that are written -/

theorem nodup_serializedSeenStates : ((serializedSeenStates m states).map (·.1)).Nodup := by
  have hsub : ((states.rows.filterMap fun item =>
      if item.value = [] then none
      else some (item.key, Json.obj (stateWithSeenEventIds m item.key item.value))).map (·.1)).Sublist
        (states.rows.map (·.key)) := by
    induction states.rows with
    | nil => exact List.Sublist.refl _
    | cons item rows ih =>
      rw [List.filterMap_cons]
      by_cases hitem : item.value = []
      · simp only [hitem, if_true]
        exact ih.cons _
      · simp only [hitem, if_false, List.map_cons]
        exact ih.cons_cons _
  unfold serializedSeenStates
  rw [((JsonText.perm_sortKeys _).map _).nodup_iff]
  exact states.primaryKey.sublist hsub

theorem get?_serializedSeenStates_of_ids (h : states.value? key = some ids) (hids : ids ≠ []) :
    Dict.get? (serializedSeenStates m states) key = some (.obj (stateWithSeenEventIds m key ids)) :=
  (JsonText.lookup_eq_some nodup_serializedSeenStates).mpr (mem_serializedSeenStates.mpr ⟨ids, h, hids, rfl⟩)

theorem get?_serializedSeenStates_of_nil (h : (states.value? key).getD [] = []) :
    Dict.get? (serializedSeenStates m states) key = none := by
  rw [Dict.get?_eq_none]
  intro hmem
  rcases List.mem_map.mp hmem with ⟨entry, hentry, rfl⟩
  rcases mem_serializedSeenStates.mp hentry with ⟨ids, hvalue, hids, -⟩
  rw [hvalue, Option.getD_some] at h
  exact hids h

theorem get?_updateDict (he : (e.map (·.1)).Nodup) :
    Dict.get? (updateDict d e) key = (Dict.get? e key).or (Dict.get? d key) := by
  unfold updateDict
  induction e generalizing d with
  | nil => rfl
  | cons entry e ih =>
    rw [List.map_cons, List.nodup_cons] at he
    rw [List.foldl_cons, ih he.2, Dict.get?_set, Dict.get?_cons]
    by_cases hk : key = entry.1
    · have hnone : Dict.get? e key = none := Dict.get?_eq_none.mpr (by rw [hk]; exact he.1)
      rw [if_pos hk, if_pos hk, hnone]
      rfl
    · rw [if_neg hk, if_neg hk]

theorem mem_seenIn_stateWithSeenEventIds (hids : "" ∉ ids) :
    id ∈ seenIn (some (stateWithSeenEventIds m key ids)) ↔ id ∈ ids := by
  unfold seenIn parseSeenEventIds stateWithSeenEventIds
  rw [Option.bind_some, Dict.get?_set, if_pos rfl]
  dsimp only
  rw [Option.getD_some, strings_str, List.mem_filter, mem_sortedIds, decide_eq_true_eq]
  constructor
  · exact fun h => h.1
  · intro h
    refine ⟨h, ?_⟩
    rintro rfl
    exact hids h

/-- A scope without ids keeps what it had. -/
theorem seenIn_updateDict_of_nil (h : (states.value? key).getD [] = []) :
    seenIn (Dict.obj? (updateDict ((Dict.obj? ((validMatrixHistoryMetadata m).getD []) "states").getD [])
      (serializedSeenStates m states)) key) = seenIn ((rawSeenStates m).bind (Dict.obj? · key)) := by
  have hobj : ∀ old, Dict.obj? (updateDict old (serializedSeenStates m states)) key = Dict.obj? old key := by
    intro old
    unfold Dict.obj?
    rw [get?_updateDict nodup_serializedSeenStates, get?_serializedSeenStates_of_nil h]
    rfl
  rw [hobj]
  unfold rawSeenStates
  cases validMatrixHistoryMetadata m with
  | none => rfl
  | some raw =>
    rw [Option.getD_some, Option.bind_some]
    cases Dict.obj? raw "states" with
    | none => rfl
    | some states => rfl

theorem rawSeenStates_written (hne : serializedSeenStates (metadata.getD []) states ≠ []) :
    rawSeenStates (metadataWithScopeSeenEventStates metadata states) =
      some (updateDict ((Dict.obj? ((validMatrixHistoryMetadata (metadata.getD [])).getD []) "states").getD [])
        (serializedSeenStates (metadata.getD []) states)) := by
  unfold metadataWithScopeSeenEventStates
  dsimp only
  rw [if_neg hne, rawSeenStates_of_obj (by rw [Dict.get?_set, if_pos rfl])]
  · rw [Dict.obj?_eq_some, Dict.get?_set, if_pos rfl]
  · rw [Dict.get?_set, if_neg (by decide), Dict.get?_set, if_pos rfl]
    simp [Json.equalsInt]

theorem seenAt_written_of_ids (hvalue : states.value? key = some ids) (hids : ids ≠ []) (hnamed : "" ∉ ids) :
    id ∈ seenAt (some (metadataWithScopeSeenEventStates metadata states)) key ↔ id ∈ ids := by
  have hget := @get?_serializedSeenStates_of_ids (metadata.getD []) states key ids hvalue hids
  have hne : serializedSeenStates (metadata.getD []) states ≠ [] := by
    intro hnil
    rw [hnil] at hget
    cases hget
  have hobj : Dict.obj? (updateDict ((Dict.obj? ((validMatrixHistoryMetadata (metadata.getD [])).getD []) "states").getD [])
      (serializedSeenStates (metadata.getD []) states)) key = some (stateWithSeenEventIds (metadata.getD []) key ids) := by
    rw [Dict.obj?_eq_some, get?_updateDict nodup_serializedSeenStates, hget]
    rfl
  rw [seenAt_eq, Option.bind_some, rawSeenStates_written hne, Option.bind_some, hobj,
    mem_seenIn_stateWithSeenEventIds hnamed]

theorem seenAt_written_of_nil (hvalue : (states.value? key).getD [] = [])
    (h : id ∈ seenAt (some (metadataWithScopeSeenEventStates metadata states)) key) : id ∈ seenAt metadata key := by
  rw [seenAt_eq, Option.bind_some] at h
  rw [seenAt_eq, bind_rawSeenStates]
  by_cases hnil : serializedSeenStates (metadata.getD []) states = []
  · unfold metadataWithScopeSeenEventStates at h
    dsimp only at h
    rw [if_pos hnil, rawSeenStates_of_none (by rw [Dict.get?_pop, if_pos rfl])] at h
    cases h
  · rwa [rawSeenStates_written hnil, Option.bind_some, seenIn_updateDict_of_nil hvalue] at h

theorem named_seenAt : "" ∉ seenAt metadata key := by
  rw [seenAt_eq, seenIn]
  cases hraw : (metadata.bind rawSeenStates).bind (Dict.obj? · key) with
  | none => simp
  | some raw =>
    rw [Option.bind_some]
    unfold parseSeenEventIds
    cases hget : Dict.get? raw "seen_event_ids" with
    | none => simp
    | some v => cases v <;> simp

def joinedSeenStates (a b : Option Dict) : Mapping String (List String) :=
  mergeScopeSeenEventStates (mergeScopeSeenEventStates ∅ (readScopeSeenEventStates a)) (readScopeSeenEventStates b)

theorem mem_joinedSeenStates {a b : Option Dict} :
    id ∈ ((joinedSeenStates a b).value? key).getD [] ↔ id ∈ seenAt a key ∨ id ∈ seenAt b key := by
  unfold joinedSeenStates mergeScopeSeenEventStates seenAt
  rw [Mapping.value?_joinWith, Mapping.value?_joinWith, Mapping.value?_empty]
  cases (readScopeSeenEventStates a).value? key with
  | none => cases (readScopeSeenEventStates b).value? key <;> simp
  | some old => cases (readScopeSeenEventStates b).value? key <;> simp

/-- After the join every scope has seen what it had seen in either version, where the metadata it is
written to holds nothing beyond that. -/
theorem mem_seenAt_joined {a b : Option Dict}
    (hsub : ∀ id, id ∈ seenAt metadata key → id ∈ seenAt a key ∨ id ∈ seenAt b key) :
    id ∈ seenAt (metadataWithMergedSeenEventIds metadata [a, b]) key ↔ id ∈ seenAt a key ∨ id ∈ seenAt b key := by
  have hnamed : "" ∉ ((joinedSeenStates a b).value? key).getD [] := by
    rw [mem_joinedSeenStates, not_or]
    exact ⟨named_seenAt, named_seenAt⟩
  have hwritten : metadataWithMergedSeenEventIds metadata [a, b] =
      if (joinedSeenStates a b).rows = [] then metadata
      else some (metadataWithScopeSeenEventStates metadata (joinedSeenStates a b)) := rfl
  rw [hwritten, ← mem_joinedSeenStates]
  split
  · rename_i hrows
    have hvalue : ((joinedSeenStates a b).value? key).getD [] = [] := by
      cases hv : (joinedSeenStates a b).value? key with
      | none => rfl
      | some ids =>
        have hmem := Mapping.value?_eq_some.mp hv
        rw [Table.mem_def, hrows] at hmem
        cases hmem
    constructor
    · exact fun h => mem_joinedSeenStates.mpr (hsub id h)
    · rw [hvalue]
      exact fun h => by cases h
  · cases hv : (joinedSeenStates a b).value? key with
    | none =>
      constructor
      · intro h
        have hold := seenAt_written_of_nil (by rw [hv]; rfl) h
        have hmem := mem_joinedSeenStates.mpr (hsub id hold)
        rwa [hv] at hmem
      · exact fun h => by cases h
    | some ids =>
      rw [Option.getD_some]
      by_cases hids : ids = []
      · constructor
        · intro h
          have hold := seenAt_written_of_nil (by rw [hv]; exact hids) h
          have hmem := mem_joinedSeenStates.mpr (hsub id hold)
          rwa [hv] at hmem
        · rw [hids]
          exact fun h => by cases h
      · rw [hv] at hnamed
        exact seenAt_written_of_ids hv hids hnamed

theorem seenAt_congr
    (h : Dict.get? (metadata'.getD []) mindroomMatrixHistoryMetadataKey =
      Dict.get? (metadata.getD []) mindroomMatrixHistoryMetadataKey) : seenAt metadata' key = seenAt metadata key := by
  rw [seenAt_eq, seenAt_eq, bind_rawSeenStates, bind_rawSeenStates]
  unfold rawSeenStates validMatrixHistoryMetadata Dict.obj?
  rw [h]

end MindRoom
