import MindRoom.Schema

/-! # Durable turn records

One record is stored once per event that indexes it, under the anchor of its turn. A write
replaces the rows of every turn it touches. Turn records are scoped to the agent, not to the
journal principal.
-/

namespace MindRoom

/-! ## Resolving one candidate -/

namespace TurnRecord

/-- The sources of a turn that another completed turn has. -/
def conflictingSourceEventIds (turnRecord : TurnRecord) (existingRecords : Mapping String TurnRecord) :
    List String :=
  turnRecord.sourceEventIds.filter fun e =>
    (existingRecords.value? e).any fun existing =>
      existing.completed && ¬ SameTurnIdentity existing turnRecord

/-- The sources a redaction keeps when another completed turn owns the conflicting ones. -/
def retainedSourceEventIds (turnRecord : TurnRecord) (conflicting : List String) : List String :=
  let retained := turnRecord.sourceEventIds.filter (· ∉ conflicting)
  if retained = [] then turnRecord.redactedSourceEventIds.filter (· ∉ conflicting) else retained

/-- Detach redaction markers from source aliases now owned by another completed turn. -/
def projectRedactionAlias (turnRecord : TurnRecord) (conflicting : List String) : Option TurnRecord :=
  if turnRecord.redactedSourceEventIds = [] then none
  else
    let retained := turnRecord.retainedSourceEventIds conflicting
    if retained = [] then none
    else
      some { turnRecord with
        sourceEventIds := retained
        anchorEventId :=
          if turnRecord.anchorEventId.any (· ∈ retained) then turnRecord.anchorEventId
          else retained.getLast?
        -- an explicit empty source map keeps per-source replay ownership fail-closed
        sourceEventMetadata :=
          if turnRecord.isCoalesced ∧ turnRecord.sourceEventMetadata = none then some ∅
          else turnRecord.sourceEventMetadata }.canonicalize

/-- `(completed, timestamp)`, by which the record of one turn with the highest precedence is
chosen. -/
def precedence (record : TurnRecord) : Bool ×ₗ Int := toLex (record.completed, record.timestamp)

/-- `max(records, key=…, default=None)`: the first of the greatest. -/
def highestPrecedence : List TurnRecord → Option TurnRecord
  | [] => none
  | record :: records =>
    some (records.foldl
      (fun best record => if best.precedence < record.precedence then record else best) record)

end TurnRecord

/-- The newer of two records of one turn, with what the older one alone knows. -/
def keepOlder (newer older : TurnRecord) : TurnRecord :=
  { newer with
    discoveryEventIds := newer.discoveryEventIds ++ older.discoveryEventIds
    redactedSourceEventIds := newer.redactedSourceEventIds ++ older.redactedSourceEventIds
    visibleEchoEventId := stringOr newer.visibleEchoEventId older.visibleEchoEventId
    visibleEchoIsFallback := newer.visibleEchoIsFallback.or older.visibleEchoIsFallback
    commandExecutionStarted := newer.commandExecutionStarted || older.commandExecutionStarted
    commandResultText := stringOr newer.commandResultText older.commandResultText
    latestEditReceiptOrder := maxOrder newer.latestEditReceiptOrder older.latestEditReceiptOrder
    userStopReceiptOrder := maxOrder newer.userStopReceiptOrder older.userStopReceiptOrder
    userStopSettledReceiptOrder :=
      maxOrder newer.userStopSettledReceiptOrder older.userStopSettledReceiptOrder }.canonicalize

/-- Keep the newer same-turn record while preserving older echo and discovery facts. -/
def mergeSameIdentityRecords (candidate existing : TurnRecord) : TurnRecord :=
  let candidate := sanitizeRevisionReplay candidate (some existing) []
  let existing := sanitizeRevisionReplay existing (some candidate) []
  if candidate.completed ≠ existing.completed then
    if candidate.completed then keepOlder candidate existing else keepOlder existing candidate
  else if existing.timestamp < candidate.timestamp then keepOlder candidate existing
  else keepOlder existing candidate

/-- The provenance and the selected revisions of a candidate whose own event a stored record
lists as redacted. -/
def tombstonedRevisions (turnRecord : TurnRecord) (existingRecords : Mapping String TurnRecord) :
    List String :=
  (turnRecord.revisionReplay.keys ++ turnRecord.sourceEventRevisions.values.map (·.2)).dedup.filter
    fun e => (existingRecords.value? e).any fun record => e ∈ record.redactedSourceEventIds

/-- The candidate as far as it is not another completed turn's. -/
def detachConflicts (turnRecord : TurnRecord) (existingRecords : Mapping String TurnRecord) :
    Option TurnRecord :=
  let conflicting := turnRecord.conflictingSourceEventIds existingRecords
  if conflicting = [] then some turnRecord else turnRecord.projectRedactionAlias conflicting

/-- The candidate merged with the stored record of its own turn. -/
def joinStoredTurn (turnRecord : TurnRecord) (existingRecords : Mapping String TurnRecord) :
    TurnRecord :=
  let sameIdentityRecords := turnRecord.indexedEventIds.filterMap fun e =>
    (existingRecords.value? e).filter fun existing => SameTurnIdentity existing turnRecord
  match TurnRecord.highestPrecedence sameIdentityRecords with
  | some existing => mergeSameIdentityRecords turnRecord existing
  | none => turnRecord

/-- The discovery aliases of a record that no other completed turn has. -/
def keepDiscovery (resolved : TurnRecord) (existingRecords : Mapping String TurnRecord) : TurnRecord :=
  { resolved with
    discoveryEventIds := resolved.discoveryEventIds.filter fun e =>
      (existingRecords.value? e).all fun (existing : TurnRecord) =>
        !existing.completed || SameTurnIdentity existing resolved }.canonicalize

/-- Resolve one candidate against completed identities and newer same-turn rows. -/
def resolveTurnRecord (turnRecord : TurnRecord) (existingRecords : Mapping String TurnRecord) :
    Option TurnRecord :=
  let turnRecord := sanitizeRevisionReplay turnRecord none
    (tombstonedRevisions turnRecord existingRecords)
  (detachConflicts turnRecord existingRecords).map fun turnRecord =>
    keepDiscovery (joinStoredTurn turnRecord existingRecords) existingRecords

namespace TurnRecords

/-! ## Rows -/

def decodeRow (row : TurnRecordRow) : Except StoreError TurnRecord :=
  match TurnRecord.fromLedgerRecord row.indexEventId row.recordJson with
  | some record => pure record
  | none => throw (.assertionError "Corrupt turn record")

/-- The stored record of one event, added to those already claimed. -/
def claimRecord (rows : Table TurnRecordRow) (agentName : String) (records : Mapping String TurnRecord)
    (eventId : String) : Except StoreError (Mapping String TurnRecord) :=
  match rows.get? (agentName, eventId) with
  | some row => do
      let record ← decodeRow row
      return records.set eventId record
  | none => pure records

def claimRecords (rows : Table TurnRecordRow) (agentName : String) (eventIds : List String) :
    Except StoreError (Mapping String TurnRecord) :=
  eventIds.dedup.foldlM (claimRecord rows agentName) ∅

/-- The stored records of the turns a candidate touches: canonical sources first, then aliases
and revisions. -/
def claimTurnRecords (rows : Table TurnRecordRow) (agentName : String) (candidate : TurnRecord) :
    Except StoreError (Mapping String TurnRecord) := do
  let owners ← (rows.select fun r =>
    r.agentName = agentName ∧ r.indexEventId ∈ candidate.indexedEventIds).mapM decodeRow
  let sourceIds := candidate.sourceEventIds ++ owners.flatMap (·.sourceEventIds)
  let records ← claimRecords rows agentName sourceIds
  if ∃ owner ∈ records.values, ∃ e ∈ owner.sourceEventIds, e ∉ sourceIds then
    throw (.runtimeError "Canonical turn ownership changed while acquiring source rows")
  let eventIds := candidate.indexedEventIds ++ candidate.revisionReplay.keys ++
    records.values.flatMap fun owner => owner.indexedEventIds ++ owner.revisionReplay.keys
  let auxiliary ← claimRecords rows agentName (eventIds.filter (· ∉ sourceIds))
  return records.merge auxiliary

/-- Store one turn record under every event that indexes it. Rows the turns at these events used
to be indexed by are removed first, wherever their anchor was. -/
def upsert (rows : Table TurnRecordRow) (agentName : String) (indexEventIds : List String)
    (anchorEventId : String) (record : TurnRecord) : Table TurnRecordRow :=
  if indexEventIds = [] then rows
  else
    let previous := (rows.select fun r =>
      r.agentName = agentName ∧ r.indexEventId ∈ indexEventIds).map (·.anchorEventId)
    let anchors := anchorEventId :: previous
    let kept := rows.delete fun r =>
      r.agentName = agentName ∧ r.anchorEventId ∈ anchors ∧ r.indexEventId ∉ indexEventIds
    indexEventIds.foldl (fun rows e =>
      rows.upsert ⟨agentName, e, anchorEventId, record⟩ (fun _ => True)
        (fun r => { r with anchorEventId := anchorEventId, recordJson := record })) kept

/-- The first source of a candidate that has a stored record names the current one. -/
def currentRecord (records : Mapping String TurnRecord) (candidate : TurnRecord) : Option TurnRecord :=
  candidate.sourceEventIds.findSome? records.value?

/-! ## Writes -/

/-- The INITIAL delivery of a turn was redacted away and no FINAL can have answered it. -/
def InitialCleaned (outbox : Table OutboxRow) (deliveryId responseEventId : String) (unretired : Prop) :
    Prop :=
  outbox.Any fun initial =>
    initial.deliveryId = deliveryId ∧ initial.stage = .initial ∧
    initial.acknowledgedEventId = some responseEventId ∧ (initial.retired = true ∨ unretired) ∧
    ¬ outbox.Any fun final =>
      final.principalId = initial.principalId ∧ final.deliveryId = initial.deliveryId ∧
      final.stage = .final ∧ (final.acknowledgedEventId ≠ none ∨
        (final.retired = false ∧ final.permanentFailureReason = none))

instance (outbox : Table OutboxRow) (deliveryId responseEventId : String) (unretired : Prop)
    [Decidable unretired] : Decidable (InitialCleaned outbox deliveryId responseEventId unretired) :=
  inferInstanceAs (Decidable (Table.Any _ _))

/-- A redacted turn whose stop is settled and that has no answer. -/
def StopSettled (candidate : TurnRecord) : Prop :=
  candidate.responseEventId = none ∧ candidate.userStopReceiptOrder ≠ none ∧
    candidate.userStopSettledReceiptOrder = candidate.userStopReceiptOrder ∧
    candidate.SourcesRedacted

instance (candidate : TurnRecord) : Decidable (StopSettled candidate) :=
  inferInstanceAs (Decidable (_ ∧ _ ∧ _ ∧ _))

/-- A candidate keeps the proof of an answer its turn has. -/
def keepCommitted (current : Option TurnRecord) (candidate : TurnRecord) : Option TurnRecord :=
  match current with
  | some current =>
    if current.completed ∧ canonicalOptionalString current.responseEventId ≠ none ∧
        SameTurnIdentity current candidate ∧ ¬ StopSettled candidate then
      mergeCommittedResponse (some candidate) current []
    else some candidate
  | none => some candidate

/-- A redacted turn whose answer is known to be gone names no answer. -/
def forgetCleaned (outbox : Table OutboxRow) (current : Option TurnRecord) (candidate : TurnRecord) :
    TurnRecord :=
  match candidate.responseEventId, candidate.anchorEventId with
  | some responseEventId, some anchorEventId =>
    if candidate.SourcesRedacted ∧ InitialCleaned outbox anchorEventId responseEventId
        (candidate.completed = true ∧ candidate.userStopReceiptOrder = none ∧
          current.all (·.completed = false) = true) then
      { candidate with
        responseEventId := none
        completed := candidate.userStopReceiptOrder.isSome
        userStopSettledReceiptOrder := candidate.userStopReceiptOrder }
    else candidate
  | _, _ => candidate

/-- What a cached ledger write makes of a decoded candidate. -/
def writtenRecord (outbox : Table OutboxRow) (records : Mapping String TurnRecord)
    (candidate : TurnRecord) : Option TurnRecord := do
  let candidate ← resolveTurnRecord candidate records
  let current := currentRecord records candidate
  let candidate ← keepCommitted current candidate
  return forgetCleaned outbox current candidate

/-- Keep already-committed delivery proof when a cached ledger write arrives late. `none` is a
changed owner, for which nothing is stored. -/
def writeRecord (outbox : Table OutboxRow) (agentName : String) (indexEventIds : List String)
    (anchorEventId : String) (recordJson : TurnRecord) (rows : Table TurnRecordRow) :
    Except StoreError (Option TurnRecord × Table TurnRecordRow) :=
  match indexEventIds.head?.bind (TurnRecord.fromLedgerRecord · recordJson) with
  | none => throw (.assertionError "Corrupt turn record")
  | some candidate =>
    if candidate.anchorEventId ≠ some anchorEventId then
      throw (.assertionError "Mismatched turn anchor")
    else do
      let records ← claimTurnRecords rows agentName candidate
      match writtenRecord outbox records candidate with
      | none => return (none, rows)
      | some record =>
        match record.anchorEventId with
        | none => throw (.assertionError "")
        | some anchor => return (some record, upsert rows agentName record.indexedEventIds anchor record)

/-- One agent's terminal turn record, committed with a delivery acknowledgement. -/
structure TerminalTurnWrite where
  agentName : String
  indexEventIds : List String
  anchorEventId : String
  recordJson : TurnRecord

/-- A stop received after every edit the candidate answered stands. -/
def Stopped (current : Option TurnRecord) (candidate : TurnRecord) : Prop :=
  ∃ owner ∈ current, ∃ edit ∈ candidate.latestEditReceiptOrder, ∃ stop ∈ owner.userStopReceiptOrder, edit ≤ stop

instance (current : Option TurnRecord) (candidate : TurnRecord) : Decidable (Stopped current candidate) :=
  inferInstanceAs (Decidable (∃ owner ∈ current, ∃ edit ∈ candidate.latestEditReceiptOrder,
    ∃ stop ∈ owner.userStopReceiptOrder, edit ≤ stop))

/-- What a delivered answer makes of a decoded candidate. -/
def committedRecord (records : Mapping String TurnRecord) (candidate : TurnRecord) :
    Except StoreError (Option TurnRecord) :=
  let current := currentRecord records candidate
  if ∃ e ∈ candidate.indexedEventIds, ∃ owner ∈ records.value? e,
      owner.sourceEventIds ≠ candidate.sourceEventIds then return none
  else
    let tombstones := records.keys.filter fun e =>
      (records.value? e).any fun record => e ∈ record.redactedSourceEventIds
    let candidate := current.elim candidate fun owner =>
      { candidate with redactedSourceEventIds := owner.redactedSourceEventIds }.canonicalize
    if Stopped current candidate then return current
    else
      match candidate.responseEventId with
      | none => throw (.assertionError "")
      | some responseEventId =>
        return mergeCommittedResponse current (completedResponseRecord candidate responseEventId none)
          tombstones

/-- Merge final-delivery proof against transaction-current canonical ownership. -/
def commitTerminal (prepared : TerminalTurnWrite) (rows : Table TurnRecordRow) :
    Except StoreError (Option TerminalTurnWrite × Table TurnRecordRow) :=
  match prepared.indexEventIds.head?.bind (TurnRecord.fromLedgerRecord · prepared.recordJson) with
  | none => throw (.assertionError "Corrupt terminal turn record")
  | some candidate => do
      let records ← claimTurnRecords rows prepared.agentName candidate
      match ← committedRecord records candidate with
      | none => return (none, rows)
      | some record =>
        match record.anchorEventId with
        | none => return (none, rows)
        | some anchor =>
          let write := { prepared with
            indexEventIds := record.indexedEventIds
            anchorEventId := anchor
            recordJson := record }
          return (some write, upsert rows write.agentName write.indexEventIds write.anchorEventId write.recordJson)

end TurnRecords

end MindRoom
