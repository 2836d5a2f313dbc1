import MindRoom.MetadataMerge
import MindRoom.TurnMerge

/-! # The ledger codec of a turn record

`TurnRecordCodec` of `handled_turns.py`. A record is written as one JSON object, whose optional
members are left out where there is nothing to write, and is read back member by member. A timestamp
is a finite double; it stands here as the multiple of the least positive double it is, and so does the
number that is written for it.
-/

namespace MindRoom

open JsonText (Proper properItems_iff)

namespace TurnRecordCodec

/-! ## Writing -/

def members (fields : List (String × Option Json)) : Dict :=
  fields.filterMap fun field => field.2.map fun v => (field.1, v)

def strings (ids : List String) : Json := .arr (ids.map .str)

def orNull (s : Option String) : Json := s.elim .null .str

def mapping {α : Type} (write : α → Json) (m : Mapping String α) : Json :=
  .obj (m.rows.map fun item => (item.key, write item.value))

/-- A map that is `None` where it is empty. -/
def mappingOrNone {α : Type} (write : α → Json) (m : Mapping String α) : Option Json :=
  if m.rows = [] then none else some (mapping write m)

def metadataFields (metadata : SourceEventMetadata) : List (String × Option Json) :=
  [("sender", some (.str metadata.sender)), ("timestamp_ms", metadata.timestampMs.map fun n => .num n),
    ("discovery_event_id", metadata.discoveryEventId.map .str)]

/-- `SourceEventMetadata._to_record`. -/
def writeMetadata (metadata : SourceEventMetadata) : Json := .obj (members (metadataFields metadata))

/-- `RevisionReplay.to_record`. -/
def writeReplay (revision : RevisionReplay) : Json :=
  .obj
    [("source_event_id", .str revision.sourceEventId), ("timestamp_ms", .num revision.timestampMs),
      ("redacted", .bool revision.redacted),
      ("cleanup_pending", .bool revision.cleanupPending),
      ("response_event_id", orNull revision.responseEventId),
      ("legacy_summary_provenance", .bool revision.legacySummaryProvenance)]

/-- `list(revision)`. -/
def writeRevision (revision : SourceEventRevision) : Json := .arr [.num revision.1, .str revision.2]

def scopeKind : HistoryScopeKind → String
  | .agent => "agent"
  | .team => "team"

/-- `HistoryScope.to_metadata`. -/
def writeScope (scope : HistoryScope) : Json :=
  .obj [("kind", .str (scopeKind scope.kind)), ("scope_id", .str scope.scopeId.val)]

/-- `MessageTarget.to_metadata`. -/
def writeTarget (target : MessageTarget) : Json :=
  .obj
    [("room_id", .str target.roomId.val), ("source_thread_id", orNull (target.sourceThreadId.map (·.val))),
      ("resolved_thread_id", orNull (target.resolvedThreadId.map (·.val))),
      ("reply_to_event_id", orNull (target.replyToEventId.map (·.val))),
      ("session_id", .str target.sessionId.val)]

/-- The members of a ledger record, in the order they are written. -/
def fields (record : TurnRecord) : List (String × Option Json) :=
  [("anchor_event_id", some (orNull record.anchorEventId)), ("source_event_ids", some (strings record.sourceEventIds)),
    ("redacted_source_event_ids", some (strings record.redactedSourceEventIds)),
    ("pending_redaction_cleanup_event_ids", some (strings record.pendingRedactionCleanupEventIds)),
    ("response_event_id", some (orNull record.responseEventId)),
    ("completed", some (.bool record.completed)),
    ("timestamp", some (.num record.timestamp)),
    ("revision_replay", some (mapping writeReplay record.revisionReplay)),
    ("discovery_event_ids", if record.discoveryEventIds = [] then none else some (strings record.discoveryEventIds)),
    ("visible_echo_event_id", record.visibleEchoEventId.map .str),
    ("visible_echo_is_fallback", record.visibleEchoIsFallback.map .bool),
    ("source_event_prompts", mappingOrNone .str record.sourceEventPrompts),
    ("source_event_revisions", mappingOrNone writeRevision record.sourceEventRevisions),
    ("suppressed_source_event_revisions", mappingOrNone writeRevision record.suppressedSourceEventRevisions),
    ("latest_edit_receipt_order", record.latestEditReceiptOrder.map .num),
    ("user_stop_receipt_order", record.userStopReceiptOrder.map .num),
    ("user_stop_settled_receipt_order", record.userStopSettledReceiptOrder.map .num),
    ("source_event_metadata", record.sourceEventMetadata.map (mapping writeMetadata)),
    ("response_owner", record.responseOwner.map .str),
    ("requester_id", record.requesterId.map .str),
    ("correlation_id", record.correlationId.map .str),
    ("command_execution_started", if record.commandExecutionStarted then some (.bool true) else none),
    ("command_result_text", record.commandResultText.map .str),
    ("history_scope", record.historyScope.map writeScope),
    ("conversation_target", record.conversationTarget.map writeTarget)]

/-- Serialize one exact record for the versioned handled-turn ledger. -/
def toLedgerRecord (record : TurnRecord) : Dict := members (fields record)

/-! ## Reading -/

/-- The strings of a list, `None` where it is no list. -/
def readStrings : Option Json → Option (List String)
  | some (.arr items) => some (items.filterMap fun
      | .str s => some s
      | _ => none)
  | _ => none

/-- `record.get(key, [])`, checked to be a list. -/
def readStringsOr (record : Dict) (key : String) : Option (List String) :=
  readStrings ((record.get? key).or (some (.arr [])))

def optionalString (record : Dict) (key : String) : Option String := canonicalOptionalString (record.str? key)

def boolOrNone (record : Dict) (key : String) : Option Bool :=
  match record.get? key with
  | some (.bool b) => some b
  | _ => none

/-- `_positive_int_or_none(record.get(key))`. -/
def positiveInt (record : Dict) (key : String) : Option Int := positiveIntOrNone (record.num? key)

/-- `record.get(key) is True`. -/
def isTrue (record : Dict) (key : String) : Bool := record.get? key = some (.bool true)

/-- An optional string that is refused when it is neither a string nor `None`. -/
def strOrNone (record : Dict) (key : String) : Option (Option String) :=
  match record.get? key with
  | none => some none
  | some .null => some none
  | some (.str s) => some (some s)
  | _ => none

def readItems {α : Type} (read : Json → Option α) (raw : Dict) : Mapping String α :=
  Mapping.collect (raw.map (·.1)) fun k => (raw.get? k).bind read

/-- `_mapping_or_none(record.get(key))`, empty where it is `None`. -/
def readMapping {α : Type} (read : Json → Option α) (record : Dict) (key : String) : Mapping String α :=
  ((record.obj? key).map (readItems read)).getD ∅

def readStr : Json → Option String
  | .str s => some s
  | _ => none

def readRevision : Json → Option SourceEventRevision
  | .arr [.num timestamp, .str eventId] => some (timestamp, eventId)
  | _ => none

def normalizeTimestampMs : Option Json → Option Nat
  | some (.num n) => if 0 ≤ n then some n.toNat else none
  | _ => none

/-- `SourceEventMetadata._from_raw`. -/
def readMetadata : Json → Option SourceEventMetadata
  | .obj metadata =>
    (Dict.nonempty? metadata "sender").map fun sender =>
      { sender := sender
        timestampMs := normalizeTimestampMs (Dict.get? metadata "timestamp_ms")
        discoveryEventId := optionalString metadata "discovery_event_id" }
  | _ => none

/-- One item of `_revision_replay_map`. -/
def readReplay : Json → Option RevisionReplay
  | .obj value =>
    match Dict.str? value "source_event_id", Dict.num? value "timestamp_ms" with
    | some source, some timestamp =>
      some {
        sourceEventId := source
        timestampMs := timestamp
        redacted := isTrue value "redacted"
        cleanupPending := isTrue value "cleanup_pending"
        responseEventId := optionalString value "response_event_id"
        legacySummaryProvenance := isTrue value "legacy_summary_provenance" }
    | _, _ => none
  | _ => none

def readScopeKind : Option String → Option HistoryScopeKind
  | some kind => if kind = "agent" then some .agent else if kind = "team" then some .team else none
  | none => none

def nonempty (s : String) : Option { s : String // s ≠ "" } := if h : s ≠ "" then some ⟨s, h⟩ else none

/-- `HistoryScope.from_metadata`. -/
def readScope : Json → Option HistoryScope
  | .obj metadata => do
      let kind ← readScopeKind (Dict.str? metadata "kind")
      let scopeId ← (Dict.str? metadata "scope_id").bind nonempty
      return { kind, scopeId }
  | _ => none

/-- One of `_metadata_optional_event_ids`: the key has to be there. -/
def optionalEventId (metadata : Dict) (key : String) : Option (Option { s : String // s ≠ "" }) :=
  match metadata.get? key with
  | some .null => some none
  | some (.str s) => (nonempty s).map some
  | _ => none

/-- `MessageTarget.from_metadata`. -/
def readTarget : Json → Option MessageTarget
  | .obj metadata => do
      let roomId ← (Dict.str? metadata "room_id").bind nonempty
      let sessionId ← (Dict.str? metadata "session_id").bind nonempty
      let sourceThreadId ← optionalEventId metadata "source_thread_id"
      let resolvedThreadId ← optionalEventId metadata "resolved_thread_id"
      let replyToEventId ← optionalEventId metadata "reply_to_event_id"
      return { roomId, sourceThreadId, resolvedThreadId, replyToEventId, sessionId }
  | _ => none

/-- Restore replay provenance that older ledger records derived from revisions. -/
def restoreLegacyRevisionReplay (record : TurnRecord) (rawRecord : Dict) : TurnRecord :=
  if (rawRecord.get? "revision_replay").isSome ∨ record.sourceEventRevisions.rows = [] then record
  else
    { record with
      revisionReplay := record.sourceEventRevisions.rows.foldl (fun replay (item : Mapping.Item String SourceEventRevision) =>
        let source := record.promptSourceEventId item.key
        if item.value.2 ≠ source then
          replay.set item.value.2
            { sourceEventId := source, timestampMs := item.value.1, legacySummaryProvenance := true }
        else replay) ∅ }.canonicalize

/-- The arguments of `TurnRecord.create`, if the members that are checked pass. -/
def readFields (record : Dict) : Option TurnRecord := do
  let sourceEventIds ← readStrings (record.get? "source_event_ids")
  let discoveryEventIds ← readStringsOr record "discovery_event_ids"
  let redactedSourceEventIds ← readStringsOr record "redacted_source_event_ids"
  let pendingRedactionCleanupEventIds ← readStringsOr record "pending_redaction_cleanup_event_ids"
  let anchorEventId ← record.nonempty? "anchor_event_id"
  let completed ← boolOrNone record "completed"
  let timestamp ← record.num? "timestamp"
  let responseEventId ← strOrNone record "response_event_id"
  return {
    sourceEventIds := sourceEventIds
    discoveryEventIds := discoveryEventIds
    redactedSourceEventIds := redactedSourceEventIds
    pendingRedactionCleanupEventIds := pendingRedactionCleanupEventIds
    anchorEventId := some anchorEventId
    responseEventId := responseEventId
    completed := completed
    visibleEchoEventId := optionalString record "visible_echo_event_id"
    visibleEchoIsFallback := boolOrNone record "visible_echo_is_fallback"
    sourceEventPrompts := readMapping readStr record "source_event_prompts"
    sourceEventRevisions := readMapping readRevision record "source_event_revisions"
    revisionReplay := readMapping readReplay record "revision_replay"
    suppressedSourceEventRevisions := readMapping readRevision record "suppressed_source_event_revisions"
    latestEditReceiptOrder := positiveInt record "latest_edit_receipt_order"
    userStopReceiptOrder := positiveInt record "user_stop_receipt_order"
    userStopSettledReceiptOrder := positiveInt record "user_stop_settled_receipt_order"
    sourceEventMetadata := (record.obj? "source_event_metadata").map (readItems readMetadata)
    responseOwner := optionalString record "response_owner"
    requesterId := optionalString record "requester_id"
    correlationId := optionalString record "correlation_id"
    commandExecutionStarted := isTrue record "command_execution_started"
    commandResultText := optionalString record "command_result_text"
    historyScope := (record.get? "history_scope").bind readScope
    conversationTarget := (record.get? "conversation_target").bind readTarget
    timestamp := timestamp }

/-- Parse one record from the current ledger schema without legacy migration. -/
def fromLedgerRecord (eventId : String) : Json → Option TurnRecord
  | .obj record => do
      let raw ← readFields record
      if canonicalSourceEventIds raw.sourceEventIds = [] then none
      else
        let turnRecord := raw.canonicalize
        if eventId ∉ turnRecord.indexedEventIds then none
        else some (restoreLegacyRevisionReplay turnRecord record)
  | _ => none

end TurnRecordCodec

/-! ## Canonical records -/

namespace TurnRecord

theorem canonicalSources_canonicalSources (r : TurnRecord) :
    r.canonicalSources.canonicalSources = r.canonicalSources := by
  have hfilter (l : List String) (p : String → Bool) :
      (canonicalSourceEventIds ((canonicalSourceEventIds l).filter p)).filter p =
        (canonicalSourceEventIds l).filter p := by
    rw [canonicalSourceEventIds_filter, List.filter_filter]
    simp only [Bool.and_self]
  have hanchor : (canonicalOptionalString ((canonicalOptionalString r.anchorEventId).or
      (canonicalSourceEventIds r.sourceEventIds).getLast?)).or (canonicalSourceEventIds r.sourceEventIds).getLast? =
        (canonicalOptionalString r.anchorEventId).or (canonicalSourceEventIds r.sourceEventIds).getLast? := by
    rw [canonicalOptionalString_or _ _ (by simp), Option.or_assoc, Option.or_self]
  unfold canonicalSources
  simp only [canonicalSourceEventIds_canonical, hfilter, hanchor, Option.map_map, Function.comp_def,
    Mapping.collect_collect, Mapping.collect_filter_collect]

theorem canonicalState_canonicalState (r : TurnRecord) : r.canonicalState.canonicalState = r.canonicalState := by
  unfold canonicalState
  simp only [canonicalOptionalString_canonical, positiveIntOrNone_positive, TurnRecord.mk.injEq, true_and, and_true]
  refine ⟨?_, ?_, ?_⟩
  · split <;> rfl
  · simp only [positiveIntOrNone, Option.filter_filter]
    apply congrArg (fun p => Option.filter p r.userStopSettledReceiptOrder)
    funext n
    grind
  · rw [Bool.or_assoc, Bool.or_self]

/-- Canonicalising twice is canonicalising once. -/
theorem canonicalize_canonicalize (r : TurnRecord) : r.canonicalize.canonicalize = r.canonicalize := by
  -- the two halves write different fields
  have hswap : r.canonicalSources.canonicalState.canonicalSources = r.canonicalSources.canonicalSources.canonicalState :=
    rfl
  unfold canonicalize
  rw [hswap, canonicalState_canonicalState, canonicalSources_canonicalSources]

end TurnRecord

namespace TurnRecordCodec

/-! ## What is written can be read -/

theorem keys_members (fields : List (String × Option Json)) :
    ((members fields).map (·.1)).Sublist (fields.map (·.1)) := by
  induction fields with
  | nil => exact List.Sublist.slnil
  | cons field fields ih =>
    unfold members at ih ⊢
    cases hv : field.2 with
    | none =>
      rw [List.filterMap_cons_none (by rw [hv]; rfl), List.map_cons]
      exact ih.cons _
    | some v =>
      rw [List.filterMap_cons_some (by rw [hv]; rfl), List.map_cons, List.map_cons]
      exact ih.cons_cons _

/-- A member that was left out is read as missing. -/
theorem get?_members {fields : List (String × Option Json)} (h : (fields.map (·.1)).Nodup) (k : String) :
    Dict.get? (members fields) k = (fields.lookup k).join := by
  induction fields with
  | nil => rfl
  | cons field fields ih =>
    rw [List.map_cons, List.nodup_cons] at h
    rw [List.lookup_cons]
    have hrest : field.1 = k → Dict.get? (members fields) k = none := by
      rintro rfl
      rw [Dict.get?_eq_none]
      exact fun hmem => h.1 ((keys_members fields).subset hmem)
    unfold members at ih hrest ⊢
    by_cases hk : k = field.1
    · rw [beq_iff_eq.mpr hk]
      cases hv : field.2 with
      | none =>
        rw [List.filterMap_cons_none (by rw [hv]; rfl)]
        exact hrest hk.symm
      | some v =>
        rw [List.filterMap_cons_some (by rw [hv]; rfl), Dict.get?_cons, if_pos hk]
        rfl
    · rw [beq_eq_false_iff_ne.mpr hk]
      cases hv : field.2 with
      | none =>
        rw [List.filterMap_cons_none (by rw [hv]; rfl)]
        exact ih h.2
      | some v =>
        rw [List.filterMap_cons_some (by rw [hv]; rfl), Dict.get?_cons, if_neg hk]
        exact ih h.2

theorem readStrings_strings (ids : List String) : readStrings (some (strings ids)) = some ids := by
  unfold strings readStrings
  dsimp only
  rw [List.filterMap_map]
  exact congrArg some (List.filterMap_some ..)

section

variable {α : Type} {read : Json → Option α} {write : α → Json} {m : Mapping String α}

theorem get?_items (rows : List (Mapping.Item String α)) (k : String) :
    Dict.get? (rows.map fun item => (item.key, write item.value)) k =
      (rows.find? fun item => item.key = k).map fun item => write item.value := by
  induction rows with
  | nil => rfl
  | cons item rows ih =>
    rw [List.map_cons, Dict.get?_cons, List.find?_cons, ih]
    by_cases hk : item.key = k
    · rw [if_pos hk.symm, decide_eq_true hk]
      rfl
    · rw [if_neg (Ne.symm hk), decide_eq_false hk]

/-- A map is read back when each of its values is. -/
theorem readItems_mapping (h : ∀ item ∈ m.rows, read (write item.value) = some item.value) :
    readItems read (m.rows.map fun item => (item.key, write item.value)) = m := by
  have hkeys : (m.rows.map fun item => (item.key, write item.value)).map (·.1) = m.keys := by
    rw [List.map_map]
    rfl
  unfold readItems
  rw [hkeys]
  apply Mapping.collect_keys
  intro item hitem
  have hvalue : m.value? item.key = some item.value := Mapping.value?_eq_some.mpr hitem
  have hfound : (m.rows.find? fun item' => item'.key = item.key).map (·.value) = some item.value := hvalue
  rcases Option.map_eq_some_iff.mp hfound with ⟨found, hfind, heq⟩
  rw [get?_items, hfind, Option.map_some, heq]
  exact h item hitem

/-- A map that is written only where it is not empty. -/
theorem readMapping_mappingOrNone {record : Dict} {key : String} (hkey : Dict.get? record key = mappingOrNone write m)
    (h : ∀ item ∈ m.rows, read (write item.value) = some item.value) : readMapping read record key = m := by
  unfold readMapping Dict.obj?
  rw [hkey]
  unfold mappingOrNone
  by_cases hempty : m.rows = []
  · have hm : m = ∅ := Table.eq_empty_iff.mpr fun item hitem => by
      rw [Table.mem_def, hempty] at hitem
      cases hitem
    rw [if_pos hempty, hm]
    rfl
  · rw [if_neg hempty]
    exact readItems_mapping h

end

theorem canonicalOptionalString_eq_self {s : Option String} (h : s ≠ some "") : canonicalOptionalString s = s := by
  cases s with
  | none => rfl
  | some s =>
    have hne : s ≠ "" := fun heq => h (congrArg some heq)
    simp [canonicalOptionalString, hne]

theorem optionalString_eq {record : Dict} {key : String} {s : Option String}
    (hkey : Dict.get? record key = s.map .str ∨ Dict.get? record key = some (orNull s)) (hs : s ≠ some "") :
    optionalString record key = s := by
  have hstr : Dict.str? record key = s := by
    unfold Dict.str?
    rcases hkey with hkey | hkey
    · rw [hkey]
      cases s <;> rfl
    · rw [hkey]
      cases s <;> rfl
  unfold optionalString
  rw [hstr]
  exact canonicalOptionalString_eq_self hs

theorem readMetadata_writeMetadata {metadata : SourceEventMetadata} (hsender : metadata.sender ≠ "")
    (hdiscovery : metadata.discoveryEventId ≠ some "") : readMetadata (writeMetadata metadata) = some metadata := by
  have hget := get?_members (show ((metadataFields metadata).map (·.1)).Nodup by simp [metadataFields])
  have hstr : Dict.str? (members (metadataFields metadata)) "sender" = some metadata.sender := by
    unfold Dict.str?
    rw [hget]
    rfl
  have hname : Dict.nonempty? (members (metadataFields metadata)) "sender" = some metadata.sender := by
    unfold Dict.nonempty?
    rw [hstr]
    exact if_neg hsender
  have htimestamp : normalizeTimestampMs (Dict.get? (members (metadataFields metadata)) "timestamp_ms") =
      metadata.timestampMs := by
    rw [hget]
    change normalizeTimestampMs (metadata.timestampMs.map fun n => .num n) = _
    cases metadata.timestampMs with
    | none => rfl
    | some n => simp [normalizeTimestampMs]
  unfold writeMetadata readMetadata
  dsimp only
  rw [hname, htimestamp, optionalString_eq (.inl (hget _)) hdiscovery]
  rfl

theorem readReplay_writeReplay {revision : RevisionReplay} (h : revision.responseEventId ≠ some "") :
    readReplay (writeReplay revision) = some revision := by
  unfold writeReplay readReplay
  dsimp only
  rw [optionalString_eq (.inr rfl) h]
  rcases revision with ⟨source, timestamp, redacted, pending, response, legacy⟩
  cases redacted <;> cases pending <;> cases legacy <;> rfl

theorem readRevision_writeRevision (revision : SourceEventRevision) :
    readRevision (writeRevision revision) = some revision := rfl

theorem nonempty_val (s : { s : String // s ≠ "" }) : nonempty s.val = some s := by
  unfold nonempty
  rw [dif_pos s.property]

theorem readScope_writeScope (scope : HistoryScope) : readScope (writeScope scope) = some scope := by
  rcases scope with ⟨kind, scopeId⟩
  have hkind : readScopeKind (some (scopeKind kind)) = some kind := by
    cases kind <;> decide
  unfold writeScope readScope
  change (readScopeKind (some (scopeKind kind))).bind (fun kind => (nonempty scopeId.val).bind fun scopeId =>
    some (HistoryScope.mk kind scopeId)) = _
  rw [hkind, nonempty_val]
  rfl

theorem optionalEventId_eq {metadata : Dict} {key : String} {s : Option { s : String // s ≠ "" }}
    (hkey : Dict.get? metadata key = some (orNull (s.map (·.val)))) : optionalEventId metadata key = some s := by
  unfold optionalEventId
  rw [hkey]
  cases s with
  | none => rfl
  | some s =>
    change (nonempty s.val).map some = _
    rw [nonempty_val]
    rfl

theorem readTarget_writeTarget (target : MessageTarget) : readTarget (writeTarget target) = some target := by
  unfold writeTarget readTarget
  dsimp only
  rw [optionalEventId_eq rfl, optionalEventId_eq rfl, optionalEventId_eq rfl]
  change (nonempty target.roomId.val).bind (fun roomId => (nonempty target.sessionId.val).bind fun sessionId =>
    some _) = _
  rw [nonempty_val, nonempty_val]
  rfl

/-! ## The round trip -/

/-- What the codec leaves as it is: a source has a sender, and no string that is optional is empty. -/
structure Readable (r : TurnRecord) : Prop where
  sender : ∀ metadata ∈ r.sourceEventMetadata, ∀ item ∈ metadata.rows, item.value.sender ≠ ""
  discovery : ∀ metadata ∈ r.sourceEventMetadata, ∀ item ∈ metadata.rows, item.value.discoveryEventId ≠ some ""
  response : ∀ item ∈ r.revisionReplay.rows, item.value.responseEventId ≠ some ""

section

variable {r : TurnRecord}

theorem ne_of_canonical {s : Option String} (h : canonicalOptionalString s = s) : s ≠ some "" := by
  rintro rfl
  cases h

theorem positiveInt_eq {record : Dict} {key : String} {n : Option Int} (hkey : Dict.get? record key = n.map .num)
    (hn : positiveIntOrNone n = n) : positiveInt record key = n := by
  have hnum : Dict.num? record key = n := by
    unfold Dict.num?
    rw [hkey]
    cases n <;> rfl
  unfold positiveInt
  rw [hnum, hn]

theorem boolOrNone_eq {record : Dict} {key : String} {b : Option Bool} (hkey : Dict.get? record key = b.map .bool) :
    boolOrNone record key = b := by
  unfold boolOrNone
  rw [hkey]
  cases b <;> rfl

theorem readStringsOr_eq {record : Dict} {key : String} {ids : List String}
    (hkey : Dict.get? record key = some (strings ids) ∨ ids = [] ∧ Dict.get? record key = none) :
    readStringsOr record key = some ids := by
  unfold readStringsOr
  rcases hkey with hkey | ⟨rfl, hkey⟩
  · rw [hkey]
    exact readStrings_strings ids
  · rw [hkey]
    rfl

theorem strOrNone_eq {record : Dict} {key : String} {s : Option String}
    (hkey : Dict.get? record key = some (orNull s)) : strOrNone record key = some s := by
  unfold strOrNone
  rw [hkey]
  cases s <;> rfl

theorem nodup_fields : ((fields r).map (·.1)).Nodup := by
  simp [fields]

theorem anchor_toLedgerRecord (h : r.Canonical) (hsources : r.sourceEventIds ≠ []) :
    ∃ anchor, r.anchorEventId = some anchor ∧ canonicalOptionalString (some anchor) = some anchor ∧
      Dict.nonempty? (toLedgerRecord r) "anchor_event_id" = some anchor := by
  have hanchor : canonicalOptionalString r.anchorEventId = r.anchorEventId := by
    rw [← h.anchor]
    exact TurnRecord.canonicalOptionalString_or _ _ h.not_mem_empty
  cases hsome : r.anchorEventId with
  | none =>
    have hlast := h.anchor
    rw [hsome] at hlast
    exact absurd (List.getLast?_eq_none_iff.mp hlast) hsources
  | some anchor =>
    rw [hsome] at hanchor
    have hne : anchor ≠ "" := fun heq => ne_of_canonical hanchor (congrArg some heq)
    refine ⟨anchor, rfl, hanchor, ?_⟩
    have hget : Dict.get? (toLedgerRecord r) "anchor_event_id" = some (.str anchor) := by
      refine (get?_members nodup_fields _).trans ?_
      change some (orNull r.anchorEventId) = _
      rw [hsome]
      rfl
    unfold Dict.nonempty? Dict.str?
    rw [hget]
    exact if_neg hne

/-- The written members are read as they are. -/
theorem readFields_toLedgerRecord (h : r.canonicalize = r) (hsources : r.sourceEventIds ≠ []) (hr : Readable r) :
    readFields (toLedgerRecord r) = some r := by
  have hcanonical : r.Canonical := h ▸ r.canonicalize_canonical
  have hget := get?_members (nodup_fields (r := r))
  change ∀ k, Dict.get? (toLedgerRecord r) k = ((fields r).lookup k).join at hget
  have hids : readStrings (Dict.get? (toLedgerRecord r) "source_event_ids") = some r.sourceEventIds := by
    rw [hget]
    exact readStrings_strings _
  have hdiscovery : readStringsOr (toLedgerRecord r) "discovery_event_ids" = some r.discoveryEventIds := by
    apply readStringsOr_eq
    rw [hget]
    change (if r.discoveryEventIds = [] then none else some (strings r.discoveryEventIds)) = _ ∨ _
    by_cases hempty : r.discoveryEventIds = []
    · exact .inr ⟨hempty, if_pos hempty⟩
    · exact .inl (if_neg hempty)
  have hredacted : readStringsOr (toLedgerRecord r) "redacted_source_event_ids" = some r.redactedSourceEventIds :=
    readStringsOr_eq (.inl (hget _))
  have hpending : readStringsOr (toLedgerRecord r) "pending_redaction_cleanup_event_ids" =
      some r.pendingRedactionCleanupEventIds := readStringsOr_eq (.inl (hget _))
  have hanchor := anchor_toLedgerRecord hcanonical hsources
  rcases hanchor with ⟨anchor, hsome, -, hname⟩
  have hcompleted : boolOrNone (toLedgerRecord r) "completed" = some r.completed := boolOrNone_eq (hget _)
  have htimestamp : Dict.num? (toLedgerRecord r) "timestamp" = some r.timestamp := by
    unfold Dict.num?
    rw [hget]
    rfl
  have hresponse : strOrNone (toLedgerRecord r) "response_event_id" = some r.responseEventId := strOrNone_eq (hget _)
  have hecho : optionalString (toLedgerRecord r) "visible_echo_event_id" = r.visibleEchoEventId :=
    optionalString_eq (.inl (hget _)) (ne_of_canonical (congrArg TurnRecord.visibleEchoEventId h))
  have hfallback : boolOrNone (toLedgerRecord r) "visible_echo_is_fallback" = r.visibleEchoIsFallback :=
    boolOrNone_eq (hget _)
  have hprompts : readMapping readStr (toLedgerRecord r) "source_event_prompts" = r.sourceEventPrompts :=
    readMapping_mappingOrNone (hget _) fun item _ => rfl
  have hrevisions : readMapping readRevision (toLedgerRecord r) "source_event_revisions" = r.sourceEventRevisions :=
    readMapping_mappingOrNone (hget _) fun item _ => readRevision_writeRevision item.value
  have hsuppressed : readMapping readRevision (toLedgerRecord r) "suppressed_source_event_revisions" =
      r.suppressedSourceEventRevisions :=
    readMapping_mappingOrNone (hget _) fun item _ => readRevision_writeRevision item.value
  have hreplay : readMapping readReplay (toLedgerRecord r) "revision_replay" = r.revisionReplay := by
    unfold readMapping Dict.obj?
    rw [hget]
    exact readItems_mapping fun item hitem => readReplay_writeReplay (hr.response item hitem)
  have hedit : positiveInt (toLedgerRecord r) "latest_edit_receipt_order" = r.latestEditReceiptOrder :=
    positiveInt_eq (hget _) hcanonical.latestEdit
  have hstop : positiveInt (toLedgerRecord r) "user_stop_receipt_order" = r.userStopReceiptOrder :=
    positiveInt_eq (hget _) hcanonical.userStop
  have hsettled : positiveInt (toLedgerRecord r) "user_stop_settled_receipt_order" = r.userStopSettledReceiptOrder := by
    apply positiveInt_eq (hget _)
    have hsettled := hcanonical.settled
    cases hn : r.userStopSettledReceiptOrder with
    | none => rfl
    | some n =>
      rw [hn] at hsettled
      exact Option.eq_some_of_filter_eq_some hsettled
  have hmetadata : ((Dict.obj? (toLedgerRecord r) "source_event_metadata").map (readItems readMetadata)) =
      r.sourceEventMetadata := by
    have hvalue : Dict.get? (toLedgerRecord r) "source_event_metadata" =
        r.sourceEventMetadata.map (mapping writeMetadata) := hget _
    unfold Dict.obj?
    rw [hvalue]
    cases hm : r.sourceEventMetadata with
    | none => rfl
    | some metadata =>
      refine congrArg some (readItems_mapping fun item hitem => readMetadata_writeMetadata ?_ ?_)
      · exact hr.sender metadata hm item hitem
      · exact hr.discovery metadata hm item hitem
  have howner : optionalString (toLedgerRecord r) "response_owner" = r.responseOwner :=
    optionalString_eq (.inl (hget _)) (ne_of_canonical (congrArg TurnRecord.responseOwner h))
  have hrequester : optionalString (toLedgerRecord r) "requester_id" = r.requesterId :=
    optionalString_eq (.inl (hget _)) (ne_of_canonical (congrArg TurnRecord.requesterId h))
  have hcorrelation : optionalString (toLedgerRecord r) "correlation_id" = r.correlationId :=
    optionalString_eq (.inl (hget _)) (ne_of_canonical (congrArg TurnRecord.correlationId h))
  have hstarted : isTrue (toLedgerRecord r) "command_execution_started" = r.commandExecutionStarted := by
    have hvalue : Dict.get? (toLedgerRecord r) "command_execution_started" =
        if r.commandExecutionStarted then some (Json.bool true) else none := hget _
    unfold isTrue
    rw [hvalue]
    cases hs : r.commandExecutionStarted with
    | true => simp
    | false => simp
  have hresult : optionalString (toLedgerRecord r) "command_result_text" = r.commandResultText :=
    optionalString_eq (.inl (hget _)) (ne_of_canonical (congrArg TurnRecord.commandResultText h))
  have hscope : (Dict.get? (toLedgerRecord r) "history_scope").bind readScope = r.historyScope := by
    rw [hget]
    change (r.historyScope.map writeScope).bind readScope = _
    cases r.historyScope with
    | none => rfl
    | some scope => exact readScope_writeScope scope
  have htarget : (Dict.get? (toLedgerRecord r) "conversation_target").bind readTarget = r.conversationTarget := by
    rw [hget]
    change (r.conversationTarget.map writeTarget).bind readTarget = _
    cases r.conversationTarget with
    | none => rfl
    | some target => exact readTarget_writeTarget target
  unfold readFields
  rw [hids, hdiscovery, hredacted, hpending, hname, hcompleted, htimestamp, hresponse]
  simp only [Option.bind_eq_bind, Option.bind_some, Option.pure_def]
  rw [← hsome, hecho, hfallback, hprompts, hrevisions, hreplay, hsuppressed, hedit, hstop, hsettled, hmetadata,
    howner, hrequester, hcorrelation, hstarted, hresult, hscope, htarget]

/-! ### The text -/

theorem proper_members {fields : List (String × Option Json)} (hkeys : (fields.map (·.1)).Nodup)
    (h : ∀ field ∈ fields, ∀ v ∈ field.2, Proper v) : Proper (.obj (members fields)) := by
  rw [proper_obj]
  refine ⟨hkeys.sublist (keys_members fields), ?_⟩
  intro member hmember
  unfold members at hmember
  rcases List.mem_filterMap.mp hmember with ⟨field, hfield, heq⟩
  rcases Option.map_eq_some_iff.mp heq with ⟨v, hv, rfl⟩
  exact h field hfield v hv

theorem proper_str (s : String) : Proper (.str s) := trivial

theorem proper_num (n : Int) : Proper (.num n) := trivial

theorem proper_bool (b : Bool) : Proper (.bool b) := trivial

theorem proper_strings (ids : List String) : Proper (strings ids) := by
  unfold strings Proper
  rw [properItems_iff]
  intro item hitem
  rcases List.mem_map.mp hitem with ⟨s, -, rfl⟩
  trivial

theorem proper_orNull (s : Option String) : Proper (orNull s) := by
  cases s <;> trivial

theorem proper_mapping {α : Type} {write : α → Json} (h : ∀ a, Proper (write a)) (m : Mapping String α) :
    Proper (mapping write m) := by
  unfold mapping
  rw [proper_obj]
  constructor
  · rw [List.map_map]
    exact m.primaryKey
  · intro member hmember
    rcases List.mem_map.mp hmember with ⟨item, -, rfl⟩
    exact h item.value

theorem proper_mappingOrNone {α : Type} {write : α → Json} (h : ∀ a, Proper (write a)) (m : Mapping String α) :
    ∀ v ∈ mappingOrNone write m, Proper v := by
  intro v hv
  unfold mappingOrNone at hv
  split at hv
  · cases hv
  · obtain rfl := Option.some.inj hv
    exact proper_mapping h m

theorem proper_optional {α : Type} {write : α → Json} (h : ∀ a, Proper (write a)) (o : Option α) :
    ∀ v ∈ o.map write, Proper v := by
  intro v hv
  rcases Option.map_eq_some_iff.mp hv with ⟨a, -, rfl⟩
  exact h a

theorem proper_writeMetadata (metadata : SourceEventMetadata) : Proper (writeMetadata metadata) := by
  apply proper_members (by simp [metadataFields])
  unfold metadataFields
  simp only [List.forall_mem_cons, List.not_mem_nil, false_imp_iff, implies_true, and_true]
  refine ⟨?_, proper_optional (fun n => proper_num n) _, proper_optional proper_str _⟩
  rintro v ⟨⟩
  exact proper_str _

theorem proper_writeReplay (revision : RevisionReplay) : Proper (writeReplay revision) := by
  unfold writeReplay
  rw [proper_obj]
  constructor
  · simp
  · simp only [List.forall_mem_cons, List.not_mem_nil, false_imp_iff, implies_true, and_true]
    exact ⟨trivial, trivial, trivial, trivial, proper_orNull _, trivial⟩

theorem proper_writeRevision (revision : SourceEventRevision) : Proper (writeRevision revision) :=
  ⟨trivial, trivial, trivial⟩

theorem proper_writeScope (scope : HistoryScope) : Proper (writeScope scope) := by
  unfold writeScope
  rw [proper_obj]
  constructor
  · simp
  · simp only [List.forall_mem_cons, List.not_mem_nil, false_imp_iff, implies_true, and_true]
    exact ⟨trivial, trivial⟩

theorem proper_writeTarget (target : MessageTarget) : Proper (writeTarget target) := by
  unfold writeTarget
  rw [proper_obj]
  constructor
  · simp
  · simp only [List.forall_mem_cons, List.not_mem_nil, false_imp_iff, implies_true, and_true]
    exact ⟨trivial, proper_orNull _, proper_orNull _, proper_orNull _, trivial⟩

/-- No object of a ledger record has two members of one name. -/
theorem proper_toLedgerRecord (r : TurnRecord) : Proper (.obj (toLedgerRecord r)) := by
  apply proper_members nodup_fields
  have hsome : ∀ {v : Json}, Proper v → ∀ w ∈ some v, Proper w := by
    rintro v hv w hw
    exact Option.some.inj hw ▸ hv
  unfold fields
  simp only [List.forall_mem_cons, List.not_mem_nil, false_imp_iff, implies_true, and_true]
  refine ⟨hsome (proper_orNull _), hsome (proper_strings _), hsome (proper_strings _), hsome (proper_strings _),
    hsome (proper_orNull _), hsome (proper_bool _), hsome (proper_num _),
    hsome (proper_mapping proper_writeReplay _), ?_, proper_optional proper_str _, proper_optional proper_bool _,
    proper_mappingOrNone proper_str _, proper_mappingOrNone proper_writeRevision _,
    proper_mappingOrNone proper_writeRevision _, proper_optional proper_num _, proper_optional proper_num _,
    proper_optional proper_num _, proper_optional (proper_mapping proper_writeMetadata) _,
    proper_optional proper_str _, proper_optional proper_str _, proper_optional proper_str _, ?_,
    proper_optional proper_str _, proper_optional proper_writeScope _, proper_optional proper_writeTarget _⟩
  · split
    · rintro v ⟨⟩
    · exact hsome (proper_strings _)
  · split
    · exact hsome (proper_bool true)
    · rintro v ⟨⟩

/-- A written record is read back under every event that indexes it. -/
theorem fromLedgerRecord_toLedgerRecord (h : r.canonicalize = r) (hsources : r.sourceEventIds ≠ []) (hr : Readable r)
    {i : String} (hi : i ∈ r.indexedEventIds) : fromLedgerRecord i (.obj (toLedgerRecord r)) = some r := by
  have hcanonical : r.Canonical := h ▸ r.canonicalize_canonical
  have hreplay : (Dict.get? (toLedgerRecord r) "revision_replay").isSome := by
    have hget : Dict.get? (toLedgerRecord r) "revision_replay" = some (mapping writeReplay r.revisionReplay) :=
      get?_members nodup_fields _
    rw [hget]
    rfl
  unfold fromLedgerRecord
  dsimp only
  rw [readFields_toLedgerRecord h hsources hr, Option.bind_eq_bind, Option.bind_some]
  rw [hcanonical.sources, if_neg hsources, h, if_neg (not_not.mpr hi), restoreLegacyRevisionReplay,
    if_pos (.inl hreplay)]

end

/-- `json.loads(json.dumps(_to_ledger_record(record)))`, decoded. -/
def reload (i : String) (r : TurnRecord) : Option TurnRecord :=
  (JsonText.loads (JsonText.dumps (.obj (toLedgerRecord r)))).bind (fromLedgerRecord i)

/-- A canonical record with a source survives the ledger, and canonicalising twice is canonicalising
once. -/
theorem ledger_round_trip : (∀ (r : TurnRecord) (i : String), r.canonicalize = r → r.sourceEventIds ≠ [] → Readable r →
      i ∈ r.indexedEventIds → reload i r = some r) ∧
    ∀ r : TurnRecord, r.canonicalize.canonicalize = r.canonicalize := by
  constructor
  · intro r i h hsources hr hi
    unfold reload
    rw [JsonText.loads_dumps (proper_toLedgerRecord r)]
    exact fromLedgerRecord_toLedgerRecord h hsources hr hi
  · exact TurnRecord.canonicalize_canonicalize

/-! ### Two sources, and an empty alias -/

namespace TwoSources

/-- A turn of two messages, the first of which was edited. -/
def record : TurnRecord where
  sourceEventIds := ["$a", "$b"]
  discoveryEventIds := ["$d"]
  anchorEventId := some "$b"
  responseEventId := some "$r"
  sourceEventPrompts := (∅ : Mapping String String).set "$a" "hello"
  sourceEventRevisions := (∅ : Mapping String SourceEventRevision).set "$a" (5, "$edit")
  revisionReplay := (∅ : Mapping String RevisionReplay).set "$edit"
    { sourceEventId := "$a", timestampMs := 5, responseEventId := some "$r" }
  sourceEventMetadata := some ((∅ : Mapping String SourceEventMetadata).set "$a"
    { sender := "@a", timestampMs := some 3, discoveryEventId := some "$d" })
  historyScope := some ⟨.agent, ⟨"helper", by decide⟩⟩
  timestamp := 7

theorem canonical_record : record.canonicalize = record := by decide +kernel

theorem readable_record : Readable record where
  sender := by decide +kernel
  discovery := by decide +kernel
  response := by decide +kernel

/-- It is read back under a source and under an alias. -/
theorem reload_record : reload "$a" record = some record ∧ reload "$d" record = some record ∧
    record.canonicalize.canonicalize = record.canonicalize :=
  ⟨ledger_round_trip.1 record "$a" canonical_record (by decide) readable_record (by decide),
    ledger_round_trip.1 record "$d" canonical_record (by decide) readable_record (by decide),
    ledger_round_trip.2 record⟩

/-- The same turn with metadata that names no alias by the empty string. -/
def unnamed : TurnRecord :=
  { record with
    sourceEventMetadata := some ((∅ : Mapping String SourceEventMetadata).set "$a"
      { sender := "@a", discoveryEventId := some "" }) }

/-- The empty string is read as no alias. -/
theorem not_reload_unnamed : ¬ ∀ (r : TurnRecord) (i : String), r.canonicalize = r → r.sourceEventIds ≠ [] →
    (∀ metadata ∈ r.sourceEventMetadata, ∀ item ∈ metadata.rows, item.value.sender ≠ "") →
    (∀ item ∈ r.revisionReplay.rows, item.value.responseEventId ≠ some "") →
    i ∈ r.indexedEventIds → reload i r = some r := by
  intro h
  have hreload := h unnamed "$a" (by decide +kernel) (by decide) (by decide +kernel) (by decide +kernel) (by decide)
  unfold reload at hreload
  rw [JsonText.loads_dumps (proper_toLedgerRecord unnamed)] at hreload
  exact absurd hreload (by decide +kernel)

end TwoSources

end TurnRecordCodec

end MindRoom
