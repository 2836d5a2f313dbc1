import MindRoom.TurnFiling

/-! # The handled-turn ledger

The ledger of an agent answers from a map of event ids to records, and every write of it is
awaited: the record is published, stored, and published again as the store has it. After a restart
the map is read from the rows. The calls here run one after another, so that the write lock and the
pending writes of the source are never contended; its indexes of the map, by conversation and by
owed cleanup, are left out.
-/

namespace MindRoom

/-- Source IDs whose content remains eligible for replay or regeneration. -/
def TurnRecord.replaySourceEventIds (record : TurnRecord) : List String :=
  let redacted := record.redactedSourceEventIds.map record.promptSourceEventId
  record.sourceEventIds.filter (· ∉ redacted)

namespace HandledTurnLedger

/-- The in-memory records of one agent, and the rows of the database. -/
structure LedgerState where
  responses : Mapping String TurnRecord := ∅
  records : Table TurnRecordRow := ∅

/-! ## Loading -/

def loadAll (agentName : String) (records : Table TurnRecordRow) : List TurnRecordRow :=
  (records.select (·.agentName = agentName)).insertionSort (·.indexEventId ≤ ·.indexEventId)

/-- `_decode_response_indexes`. -/
def decodeResponses (stored : List TurnRecordRow) : Mapping String TurnRecord :=
  (stored.filterMap fun row =>
    (TurnRecord.fromLedgerRecord row.indexEventId row.recordJson).map fun record =>
      (⟨row.indexEventId, record⟩ : Mapping.Item String TurnRecord)).foldl
    (fun responses item => responses.set item.key item.value) ∅

/-- The map a fresh process reads. -/
def load (agentName : String) (records : Table TurnRecordRow) : Mapping String TurnRecord :=
  decodeResponses (loadAll agentName records)

/-! ## Lookups -/

def getTurnRecord (responses : Mapping String TurnRecord) (sourceEventId : String) : Option TurnRecord :=
  responses.value? sourceEventId

def hasResponded (responses : Mapping String TurnRecord) (eventId : String) : Bool :=
  match responses.value? eventId with
  | none => false
  | some record => record.completed || eventId ∈ record.redactedSourceEventIds

def Shows (responseEventId : String) (record : TurnRecord) : Prop :=
  record.responseEventId = some responseEventId ∨ record.visibleEchoEventId = some responseEventId

instance (responseEventId : String) (record : TurnRecord) : Decidable (Shows responseEventId record) :=
  inferInstanceAs (Decidable (_ ∨ _))

def matchingTurns (responses : Mapping String TurnRecord) (responseEventId : String) :
    Mapping (List String) TurnRecord :=
  (responses.values.filter (Shows responseEventId ·)).foldl
    (fun matched record => matched.set record.indexedEventIds record) ∅

/-- The sole turn whose visible response has this event ID. -/
def turnRecordForResponseEventId (responses : Mapping String TurnRecord) (responseEventId : String) :
    Except StoreError (Option TurnRecord) :=
  let matched := matchingTurns responses responseEventId
  if 1 < matched.rows.length then
    throw (.runtimeError s!"Multiple turns own visible response '{responseEventId}'")
  else return matched.values.head?

/-! ## Writing -/

/-- `_PendingLedgerWrite`: one provisional mutation, and what its events had before. -/
structure PendingLedgerWrite where
  record : TurnRecord
  superseded : List (String × Option TurnRecord)

/-- Publish or restore one alias. -/
def setResponse (responses : Mapping String TurnRecord) (eventId : String) (record : Option TurnRecord) :
    Mapping String TurnRecord :=
  match record with
  | none => responses.pop eventId
  | some record => responses.set eventId record

def publish (responses : Mapping String TurnRecord) (record : TurnRecord) : Mapping String TurnRecord :=
  record.indexedEventIds.foldl (fun responses key => setResponse responses key (some record)) responses

/-- The canonical record of an update, with the time where the update gives none. -/
def candidate (responses : Mapping String TurnRecord) (lookupEventIds : List String)
    (update : Mapping String TurnRecord → Option TurnRecord) (now : Int) : Option TurnRecord :=
  (update (Mapping.collect lookupEventIds responses.value?)).map fun updated =>
    { updated with timestamp := if updated.timestamp ≠ 0 then updated.timestamp else now }.canonicalize

/-- Derive a write. `none` declines it before anything is published. -/
def reserveUpdate (responses : Mapping String TurnRecord) (lookupEventIds : List String)
    (update : Mapping String TurnRecord → Option TurnRecord) (now : Int) : Option PendingLedgerWrite := do
  let candidate ← candidate responses lookupEventIds update now
  if candidate.sourceEventIds = [] then none
  else
    let record ← resolveTurnRecord candidate responses
    return ⟨record, record.indexedEventIds.map fun key => (key, responses.value? key)⟩

/-- Undo one write's publication, leaving any later one alone. -/
def restoreSuperseded (responses : Mapping String TurnRecord) (pending : PendingLedgerWrite) :
    Mapping String TurnRecord :=
  pending.superseded.foldl (fun responses item =>
    if responses.value? item.1 = some pending.record then setResponse responses item.1 item.2
    else responses) responses

/-- Replace the provisional claim with the transaction's actual merged record. -/
def publishWriteResult (responses : Mapping String TurnRecord) (pending : PendingLedgerWrite)
    (result : Option TurnRecord) : Except StoreError (Option TurnRecord) × Mapping String TurnRecord :=
  let responses := restoreSuperseded responses pending
  match result with
  | none => (.ok none, responses)
  | some rawRecord =>
    match rawRecord.sourceEventIds.head?.bind (TurnRecord.fromLedgerRecord · rawRecord) with
    | none => (.error (.assertionError "Corrupt committed turn record"), responses)
    | some record => (.ok (some record), publish responses record)

def updateHandledTurn (agentName : String) (lookupEventIds : List String)
    (update : Mapping String TurnRecord → Option TurnRecord) (now : Int) (outbox : Table OutboxRow)
    (l : LedgerState) : Except StoreError (Option TurnRecord) × LedgerState :=
  let normalized := canonicalSourceEventIds lookupEventIds
  if normalized = [] then (.ok none, l)
  else
    match reserveUpdate l.responses normalized update now with
    | none => (.ok none, l)
    | some pending =>
      let responses := publish l.responses pending.record
      match pending.record.anchorEventId with
      | none => (.error (.assertionError ""), { l with responses })
      | some anchorEventId =>
        match TurnRecords.writeRecord outbox agentName pending.record.indexedEventIds anchorEventId
            pending.record l.records with
        -- a write that raises is rolled back, and its publication with it
        | .error err => (.error err, { l with responses := restoreSuperseded responses pending })
        | .ok (result, records) =>
          let published := publishWriteResult responses pending result
          (published.1, ⟨published.2, records⟩)

/-- Persist one exact record for every source event in the turn. -/
def recordHandledTurn (agentName : String) (turnRecord : TurnRecord) (now : Int) (outbox : Table OutboxRow)
    (l : LedgerState) : Except StoreError (Option TurnRecord) × LedgerState :=
  updateHandledTurn agentName turnRecord.indexedEventIds (fun _ => some turnRecord) now outbox l

/-! ## Cleanup -/

/-- `_ResponseGroup`: logical handled-turn group keyed by its complete indexed identity. -/
structure ResponseGroup where
  timestamp : Int := 0
  records : Mapping String TurnRecord := ∅

def addToGroup (groups : Mapping (List String) ResponseGroup) (item : Mapping.Item String TurnRecord) :
    Mapping (List String) ResponseGroup :=
  let group := (groups.value? item.value.indexedEventIds).getD {}
  groups.set item.value.indexedEventIds
    { timestamp := max group.timestamp item.value.timestamp
      records := group.records.set item.key item.value }

/-- Handled turns grouped by canonical sources and discovery aliases. -/
def groupResponses (responses : Mapping String TurnRecord) : Mapping (List String) ResponseGroup :=
  responses.rows.foldl addToGroup ∅

/-- `_response_groups`, oldest first. -/
def responseGroups (responses : Mapping String TurnRecord) : List ResponseGroup :=
  (groupResponses responses).values.insertionSort (·.timestamp ≤ ·.timestamp)

/-- The record still owns unfinished durable work, beside the source events it is indexed by. -/
def RecordRequiresRetention (unsettledSourceEventIds : List String) (record : TurnRecord) : Prop :=
  record.pendingRedactionCleanupEventIds ≠ [] ∨
    (∃ e ∈ unsettledSourceEventIds, e ∈ record.revisionReplay.keys) ∨
    (∃ value ∈ record.revisionReplay.values, value.cleanupPending = true) ∨
    (record.completed = false ∧ record.replaySourceEventIds ≠ []) ∨
    ∃ stop ∈ record.userStopReceiptOrder, record.userStopSettledReceiptOrder.getD 0 < stop

instance (unsettledSourceEventIds : List String) (record : TurnRecord) :
    Decidable (RecordRequiresRetention unsettledSourceEventIds record) :=
  inferInstanceAs (Decidable (_ ∨ (∃ e ∈ unsettledSourceEventIds, _) ∨ (∃ value ∈ record.revisionReplay.values, _) ∨
    _ ∨ ∃ stop ∈ record.userStopReceiptOrder, _))

/-- Whether one group still owns unfinished durable work. -/
def ResponseGroupRequiresRetention (unsettledSourceEventIds : List String) (group : ResponseGroup) : Prop :=
  (∃ e ∈ unsettledSourceEventIds, e ∈ group.records.keys) ∨
    ∃ record ∈ group.records.values, RecordRequiresRetention unsettledSourceEventIds record

instance (unsettledSourceEventIds : List String) (group : ResponseGroup) :
    Decidable (ResponseGroupRequiresRetention unsettledSourceEventIds group) :=
  inferInstanceAs (Decidable ((∃ e ∈ unsettledSourceEventIds, _) ∨ ∃ record ∈ group.records.values, _))

/-- The groups that stay: the fresh ones, and of these the newest where they are too many. -/
def freshGroups (responses : Mapping String TurnRecord) (maxEvents : Nat) (maxAgeDays now : Int)
    (unsettledSourceEventIds : List String) : List ResponseGroup :=
  let maxAgeSeconds := maxAgeDays * 24 * 60 * 60
  let fresh := (responseGroups responses).filter fun group =>
    ResponseGroupRequiresRetention unsettledSourceEventIds group ∨ now - group.timestamp < maxAgeSeconds
  if maxEvents < fresh.length then
    let retained := fresh.filter (ResponseGroupRequiresRetention unsettledSourceEventIds ·)
    let ordinary := fresh.filter (¬ ResponseGroupRequiresRetention unsettledSourceEventIds ·)
    (retained ++ ordinary.drop (ordinary.length - maxEvents)).insertionSort (·.timestamp ≤ ·.timestamp)
  else fresh

/-- Remove stale turn groups while keeping coalesced groups intact. -/
def cleanedResponses (responses : Mapping String TurnRecord) (maxEvents : Nat) (maxAgeDays now : Int)
    (unsettledSourceEventIds : List String) : Mapping String TurnRecord :=
  (freshGroups responses maxEvents maxAgeDays now unsettledSourceEventIds).foldl
    (fun cleaned group => cleaned.merge group.records) ∅

def forget (agentName : String) (indexEventIds : List String) (records : Table TurnRecordRow) :
    Table TurnRecordRow :=
  if indexEventIds = [] then records
  else records.delete fun r => r.agentName = agentName ∧ r.indexEventId ∈ indexEventIds

/-- Drop stale records by age and count, in memory and in the database. -/
def cleanupOldEvents (agentName : String) (maxEvents : Nat) (maxAgeDays now : Int)
    (unsettledSourceEventIds : List String) (l : LedgerState) : LedgerState :=
  let retained := cleanedResponses l.responses maxEvents maxAgeDays now unsettledSourceEventIds
  let dropped := l.responses.keys.filter (· ∉ retained.keys)
  ⟨retained, forget agentName dropped l.records⟩

/-- Compact terminal history while retaining truth still owned by dispatch. -/
def cleanup (agentName : String) (now : Int) (unsettledSourceEventIds : List String) (l : LedgerState) :
    LedgerState :=
  cleanupOldEvents agentName 10000 30 now unsettledSourceEventIds l

end HandledTurnLedger

end MindRoom
