import Mathlib.Algebra.Group.Int.Defs
import MindRoom.Fence

/-! # Admission

`event_journal/journal.py` with `membership_hooks.py`: one event or one ordered batch becomes
durable in a single transaction, with its projection, its membership effect and the recovery
obligation it proves. A batch is accepted once, by the sequence its stream is bound to.
-/

namespace MindRoom

/-! ## Membership hooks -/

/-- Record the current receipt frontier without backdating duplicate observations. -/
def recordBaseline (principalId roomId userId : String) (db : DB) : DB :=
  let frontier := (db.journalEvents.rows.map (·.receiptOrder)).max?
  { db with
    roomMemberJoins := db.roomMemberJoins.upsert ⟨principalId, roomId, userId, frontier, false⟩
      (fun r => r.baselineReceiptOrder.all fun baseline => frontier.any (· < baseline))
      (fun r => { r with baselineReceiptOrder := frontier }) }

/-- Persist completion only after the hook returns successfully. -/
def markCompleted (principalId roomId userId : String) (db : DB) : DB :=
  { db with
    roomMemberJoins := db.roomMemberJoins.upsert ⟨principalId, roomId, userId, none, true⟩
      (fun _ => True) (fun r => { r with completed := true }) }

/-! ## History recovery -/

def recoveryOfRow (r : HistoryRecoveryRow) : Option RoomHistoryRecovery :=
  match r.state with
  | .repairable => some ⟨r.roomId, .repairable, r.revision, r.attemptedPolicyRank⟩
  | .truncated => some ⟨r.roomId, .truncated, r.revision, r.attemptedPolicyRank⟩
  | .repaired => none

def roomHistoryRecovery (db : DB) (principalId roomId : String) : Option RoomHistoryRecovery :=
  (db.roomHistoryRecovery.get? (principalId, roomId)).bind recoveryOfRow

/-- Record one gap after the caller has locked its membership state. -/
def recordRoomHistoryRecoveryLocked (principalId roomId : String) (state : MembershipState)
    (db : DB) : Option RoomHistoryRecovery × DB :=
  if state.departureFenced = true then (none, db)
  else
    let db :=
      { db with
        roomHistoryRecovery := db.roomHistoryRecovery.upsert
          ⟨principalId, roomId, .repairable, 0, 0⟩ (fun _ => True)
          (fun r =>
            { r with state := .repairable, revision := r.revision + 1, attemptedPolicyRank := 0 }) }
    (roomHistoryRecovery db principalId roomId, db)

/-- Record one unknown gap while serialized with membership fencing. -/
def recordRoomHistoryRecovery (principalId roomId : String) : Tx (Option RoomHistoryRecovery) := do
  let state ← claimMembershipState principalId roomId
  modifyGet (recordRoomHistoryRecoveryLocked principalId roomId state)

/-- The exact recovery value is still the room's. -/
def ClaimsRoomHistoryRecovery (db : DB) (principalId : String) (recovery : RoomHistoryRecovery) :
    Prop :=
  roomHistoryRecovery db principalId recovery.roomId = some recovery

instance (db : DB) (principalId : String) (recovery : RoomHistoryRecovery) :
    Decidable (ClaimsRoomHistoryRecovery db principalId recovery) :=
  inferInstanceAs (Decidable (_ = _))

/-- Commit the terminal state of a previously claimed recovery obligation. -/
def settleRoomHistoryRecovery (principalId : String) (recovery : RoomHistoryRecovery)
    (exhaustedServer : Bool) (attemptedPolicyRank : Int) (db : DB) : HistoryRecoveryOutcome × DB :=
  let atRoom := fun r : HistoryRecoveryRow => key r = (principalId, recovery.roomId)
  if exhaustedServer = true then
    (.repaired, { db with
        roomHistoryRecovery := db.roomHistoryRecovery.update atRoom
          (fun r => { r with state := .repaired }) })
  else
    (.truncated, { db with
        roomHistoryRecovery := db.roomHistoryRecovery.update atRoom
          (fun r => { r with state := .truncated, attemptedPolicyRank := attemptedPolicyRank }) })

/-! ## Admission of one event -/

/-- The row an admitted event inserts. A context-only event is admitted settled and keeps no
payload. -/
def journalRow (principalId : String) (event : InboundEvent) (membershipEpoch : Int)
    (receiptOrder : Nat) : JournalRow where
  receiptOrder := receiptOrder
  principalId := principalId
  eventId := event.eventId
  roomId := event.roomId
  threadId := encodeThreadId event.threadId
  kind := event.kind
  sender := event.sender
  originServerTs := event.originServerTs
  sourceJson := if event.eventClass = .actionable then some event.source else none
  semanticConsumer := none
  membershipEpoch := membershipEpoch
  state := if event.eventClass = .actionable then .pending else .settled

/-- `INSERT INTO journal_events ... DO NOTHING RETURNING receipt_order`. The surrogate key
sequence moves whether or not the row was new. -/
def insertJournal (principalId : String) (event : InboundEvent) (membershipEpoch : Int) (db : DB) :
    Option Nat × DB :=
  let receiptOrder := db.receiptOrderSeq + 1
  match journalAt db principalId event.eventId with
  | some _ => (none, { db with receiptOrderSeq := receiptOrder })
  | none =>
    (some receiptOrder, { db with
        receiptOrderSeq := receiptOrder
        journalEvents := db.journalEvents.insertOrIgnore
          (journalRow principalId event membershipEpoch receiptOrder) })

/-- Project readable content and retire any source its redaction tombstones. -/
def projectAdmittedEvent (principalId : String) (projected : ProjectedEvent) (receiptOrder : Nat)
    (membershipEpoch : Int) (db : DB) : DB :=
  let (tombstonedEventId, db) := project principalId projected receiptOrder membershipEpoch db
  match tombstonedEventId with
  | none => db
  | some eventId => settleTombstonedTurnSource principalId projected.roomId eventId db

/-- `admit`: insert, deduplicate, and project one event in a single transaction. -/
def admitInbound (principalId : String) (event : InboundEvent) (projected : Option ProjectedEvent) :
    Tx AdmissionResult := do
  let state ← claimMembershipState principalId event.roomId
  let inserted ← modifyGet (insertJournal principalId event state.membershipEpoch)
  match inserted with
  | none => return .duplicate
  | some receiptOrder =>
    match projected with
    | none => return .admitted
    | some projected =>
      modify (projectAdmittedEvent principalId projected receiptOrder state.membershipEpoch)
      return .admitted

/-! ## Validation of a batch -/

/-- The own-membership effect of one record, every field present. -/
structure MembershipEffect where
  source : DepartureSource
  roomId : String
  previousMembership : Option MatrixMembership
  membership : MatrixMembership
  previousMembershipEpoch : Int
  membershipEpoch : Int
deriving DecidableEq

/-- The record's effect, where no field of it is missing. -/
def IngestionRecordAdmission.membershipEffect (item : IngestionRecordAdmission) :
    Option MembershipEffect := do
  let source ← item.source
  let roomId ← item.roomId
  let membership ← item.membership
  let previousMembershipEpoch ← item.previousMembershipEpoch
  let membershipEpoch ← item.membershipEpoch
  return {
    source := source
    roomId := roomId
    previousMembership := item.previousMembership
    membership := membership
    previousMembershipEpoch := previousMembershipEpoch
    membershipEpoch := membershipEpoch }

/-- The effect leaves a room that was joined, which ends a tenure. -/
def MembershipEffect.Departs (e : MembershipEffect) : Prop :=
  e.previousMembership = some .join ∧ e.membership ≠ .join

instance (e : MembershipEffect) : Decidable e.Departs := inferInstanceAs (Decidable (_ ∧ _))

/-- A complete effect is valid: a first observation reports epoch zero, any other one advances
the producer's epoch by the tenure it ends. -/
def MembershipEffect.Valid (e : MembershipEffect) : Prop :=
  e.roomId ≠ "" ∧ 0 ≤ e.previousMembershipEpoch ∧
    match e.previousMembership with
    | none => e.source = .reported ∧ e.previousMembershipEpoch = 0 ∧ e.membershipEpoch = 0
    | some previous =>
      (previous = e.membership → e.source = .local) ∧
        e.membershipEpoch = e.previousMembershipEpoch + (if e.Departs then 1 else 0)

instance (e : MembershipEffect) : Decidable e.Valid := by
  unfold MembershipEffect.Valid
  cases e.previousMembership <;> infer_instance

def validateMembershipEffect (item : IngestionRecordAdmission) : Except StoreError Unit :=
  let invalid : StoreError := .ingestionBatchValidation "Invalid own-membership effect"
  match item.membership with
  | none =>
    if item.source = none ∧ item.previousMembership = none ∧
        item.previousMembershipEpoch = none ∧ item.membershipEpoch = none then pure ()
    else throw invalid
  | some _ =>
    match item.membershipEffect with
    | none => throw invalid
    | some effect => if effect.Valid then pure () else throw invalid

def ProjectedEvent.Agrees (projected : ProjectedEvent) (event : InboundEvent) : Prop :=
  projected.eventId = event.eventId ∧ projected.roomId = event.roomId ∧
    projected.threadId = event.threadId ∧ projected.sender = event.sender ∧
    projected.originServerTs = event.originServerTs ∧
    projected.replacesEventId ≠ some "" ∧ projected.redactsEventId ≠ some ""

instance (projected : ProjectedEvent) (event : InboundEvent) :
    Decidable (projected.Agrees event) := inferInstanceAs (Decidable (_ ∧ _))

/-- A semantic record carries one well formed event of its room. -/
def SemanticRecordValid (item : IngestionRecordAdmission) : Prop :=
  (item.membership = none → item.roomId = none) ∧
    ∃ event ∈ item.event, (item.roomId = none ∨ item.roomId = some event.roomId) ∧
        event.eventId ≠ "" ∧ event.roomId ≠ "" ∧ event.sender ≠ "" ∧
        (event.kind = .opaqueHistory → event.eventClass = .contextOnly ∧ item.projected = none) ∧
        ∀ projected ∈ item.projected, projected.Agrees event

instance (item : IngestionRecordAdmission) : Decidable (SemanticRecordValid item) :=
  inferInstanceAs (Decidable (_ ∧ ∃ event ∈ item.event, _))

def validateIngestionRecord (item : IngestionRecordAdmission) : Except StoreError Unit := do
  let require (p : Prop) [Decidable p] : Except StoreError Unit :=
    if p then pure ()
    else throw (.ingestionBatchValidation "Invalid ingestion record admission")
  validateMembershipEffect item
  match item.disposition with
  | .semanticEvent => require (SemanticRecordValid item)
  | .historyLoss =>
    require (item.event = none ∧ item.projected = none)
    require (∃ roomId ∈ item.roomId, roomId ≠ "")
  | .roomLifecycle =>
    require (item.event = none ∧ item.projected = none)
    require (item.membership ≠ none)
  | .compatibilityOnly =>
    require (item.event = none ∧ item.projected = none)
    require (item.membership = none → item.roomId = none)

/-- Check sequence and application effects at the journal boundary. -/
def validateIngestionBatchAdmission (admission : IngestionBatchAdmission) :
    Except StoreError Unit := do
  if ¬ (1 ≤ admission.sequence ∧ admission.sequence ≤ 2 ^ 63 - 2) then
    throw (.ingestionBatchValidation "Invalid batch sequence or stream")
  admission.records.forM validateIngestionRecord

/-! ## Effects of a batch -/

/-- The last admitted producer position, independent of journal tenure. -/
def ingestionMembershipPosition (db : DB) (principalId roomId : String) :
    Except StoreError (Option RoomMembershipPosition) :=
  match db.matrixIngestionMembership.get? (principalId, roomId) with
  | none => pure none
  | some row =>
    if row.membershipEpoch < 0 then throw (.ingestionBatchIntegrity .producerState)
    else pure (some ⟨row.membership, row.membershipEpoch⟩)

/-- The producer position after one effect. -/
def setProducerPosition (principalId : String) (effect : MembershipEffect) (db : DB) : DB :=
  { db with
    matrixIngestionMembership := db.matrixIngestionMembership.upsert
      ⟨principalId, effect.roomId, effect.membership.canonical, effect.membershipEpoch⟩
      (fun _ => True)
      (fun r =>
        { r with
          membership := effect.membership.canonical
          membershipEpoch := effect.membershipEpoch }) }

/-- The stored producer position is the one the effect starts from. -/
def checkProducer (db : DB) (principalId : String) (effect : MembershipEffect) :
    Except StoreError Unit := do
  let producer ← ingestionMembershipPosition db principalId effect.roomId
  match producer with
  | none =>
    if effect.previousMembershipEpoch ≠ 0 then
      throw (.ingestionBatchIntegrity .producerEpoch)
  | some position =>
    if effect.previousMembershipEpoch ≠ position.membershipEpoch then
      throw (.ingestionBatchIntegrity .producerEpoch)
    if effect.previousMembership.map (·.canonical) ≠ some position.membership then
      throw (.ingestionBatchIntegrity .producerMembership)

/-- Apply the tenure change before any semantic effect on the same record. -/
def applyMembershipEffect (host : Host) (principalId : String) (effect : MembershipEffect) :
    Tx Unit := do
  let db ← get
  liftM (checkProducer db principalId effect)
  let state ← claimMembershipState principalId effect.roomId
  if effect.Departs then
    if state.departureFenced = true then
      throw (.ingestionBatchIntegrity .departureAlreadyFenced)
    let _ ← advanceMembershipEpoch host principalId effect.roomId
  modify (setDepartureFenced principalId effect.roomId (effect.membership ≠ .join))
  modify (setProducerPosition principalId effect)

/-- The retained row of a repeated event agrees with it. An opaque history marker identifies an
envelope only. -/
def requireMatchingSemanticEvent (db : DB) (principalId : String) (event : InboundEvent) :
    Except StoreError JournalRow :=
  match journalAt db principalId event.eventId with
  | none => throw (.ingestionBatchIntegrity .semanticEventMissing)
  | some row =>
    if ¬ (row.roomId = event.roomId ∧ row.sender = event.sender ∧
        row.originServerTs = event.originServerTs) then
      throw (.ingestionBatchIntegrity .semanticEnvelope)
    else if row.kind ≠ .opaqueHistory ∧ event.kind ≠ .opaqueHistory ∧
        ¬ (row.kind = event.kind ∧ row.threadId = encodeThreadId event.threadId) then
      throw (.ingestionBatchIntegrity .semanticKind)
    else pure row

/-- Retain a settled identity for turn work fenced out of this tenure. -/
def admitSuppressedSemanticIdentity (principalId : String) (event : InboundEvent) : Tx Unit := do
  let result ← admitInbound principalId { event with eventClass := .contextOnly } none
  if result = .duplicate then
    let db ← get
    let _ ← liftM (requireMatchingSemanticEvent db principalId event)

/-- The baseline a context-only join observation records. -/
def observeJoin (principalId : String) (event : InboundEvent) : Tx Unit := do
  if event.kind = .roomLifecycle ∧ event.eventClass = .contextOnly then
    match event.source.obj? "content" with
    | none => throw (.keyError "content")
    | some content =>
      if Dict.str? content "membership" = some "join" then
        match event.source.str? "state_key" with
        | none => throw (.keyError "state_key")
        | some userId => modify (recordBaseline principalId event.roomId userId)

/-- A repeated event fills in the projection of a row that was an opaque marker. -/
def projectRetained (principalId : String) (event : InboundEvent) (projected : Option ProjectedEvent)
    (membershipEpoch : Int) : Tx Unit := do
  let db ← get
  let retained ← liftM (requireMatchingSemanticEvent db principalId event)
  match projected with
  | none => pure ()
  | some projected =>
    if retained.kind = .opaqueHistory then
      modify (projectAdmittedEvent principalId projected retained.receiptOrder membershipEpoch)

/-- Admit or deduplicate one semantic event under the locked tenure. -/
def applySemanticIngestionDisposition (principalId : String) (event : InboundEvent)
    (projected : Option ProjectedEvent) : Tx Bool := do
  let state ← claimMembershipState principalId event.roomId
  if event.kind ∈ turnBackedKinds ∧ state.departureFenced = true then
    admitSuppressedSemanticIdentity principalId event
    return false
  let result ← admitInbound principalId event projected
  if result = .duplicate then
    projectRetained principalId event projected state.membershipEpoch
  observeJoin principalId event
  return decide (result = .admitted ∧ event.eventClass = .actionable)

/-- The record's tenure change, where it carries one. -/
def applyRecordEffect (host : Host) (principalId : String) (admission : IngestionRecordAdmission) :
    Tx Unit :=
  match admission.membershipEffect with
  | some effect => applyMembershipEffect host principalId effect
  | none => pure ()

/-- What the record's disposition does behind its tenure change. -/
def applyDisposition (principalId : String) (admission : IngestionRecordAdmission) : Tx Bool :=
  match admission.disposition with
  | .compatibilityOnly | .roomLifecycle => return false
  | .historyLoss => do
      let _ ← recordRoomHistoryRecovery principalId (admission.roomId.getD "")
      return false
  | .semanticEvent =>
    match admission.event with
    | none => return false
    | some event => applySemanticIngestionDisposition principalId event admission.projected

/-- Apply one validated record effect, returning whether it dispatches. -/
def applyIngestionDisposition (host : Host) (principalId : String)
    (admission : IngestionRecordAdmission) : Tx Bool := do
  applyRecordEffect host principalId admission
  applyDisposition principalId admission

/-- The facts of one record: every record of an accepted batch is a new receipt. -/
def recordFacts (semanticEventNew : Bool) : RecordFacts where
  receiptNew := true
  semanticEventNew := semanticEventNew
  semanticNeedsReceipt _ := rfl

/-- No new receipt, no new event. -/
def noFacts : RecordFacts where
  receiptNew := false
  semanticEventNew := false
  semanticNeedsReceipt h := h

/-- One record of an accepted batch: its effect, then the snapshot of a new event. -/
def applyRecord (host : Host) (principalId : String) (snapshot : InboundEvent → Tx Unit)
    (record : IngestionRecordAdmission) : Tx RecordFacts := do
  let semanticNew ← applyIngestionDisposition host principalId record
  match record.event with
  | some event => if semanticNew = true then snapshot event
  | none => pure ()
  return recordFacts semanticNew

/-- The consumer whose stream is at this sequence. -/
def acceptedConsumer (db : DB) (principalId : String) (admission : IngestionBatchAdmission) :
    Option SyncConsumerRow :=
  (db.matrixSyncConsumers.get? principalId).filter fun r =>
    r.streamId = some admission.streamId ∧ r.nextSequence = admission.sequence

/-- `UPDATE matrix_sync_consumers SET next_sequence = next_sequence + 1`. -/
def advanceSequence (principalId : String) (db : DB) : DB :=
  { db with
    matrixSyncConsumers := db.matrixSyncConsumers.update (fun r => key r = principalId)
      (fun r => { r with nextSequence := r.nextSequence + 1 }) }

/-- A batch that is not next: the last one again changes nothing, any other is refused. -/
def repeatedBatch (db : DB) (principalId : String) (admission : IngestionBatchAdmission) :
    Except StoreError AdmissionFacts :=
  match db.matrixSyncConsumers.get? principalId with
  | none => throw (.ingestionConsumerBinding "")
  | some state =>
    if state.streamId ≠ some admission.streamId then throw (.ingestionConsumerBinding "")
    else if admission.sequence ≠ state.nextSequence - 1 then throw .ingestionBatchSequence
    else pure { noFacts with recordFacts := admission.records.map fun _ => noFacts }

/-- Commit semantic effects and the consumer's acceptance in one transaction. -/
def admitIngestionBatch (host : Host) (principalId : String) (admission : IngestionBatchAdmission)
    (snapshot : InboundEvent → Tx Unit) : Tx AdmissionFacts := do
  liftM (validateIngestionBatchAdmission admission)
  let db ← get
  match acceptedConsumer db principalId admission with
  | none => liftM (repeatedBatch db principalId admission)
  | some _ =>
    modify (advanceSequence principalId)
    let facts ← admission.records.mapM (applyRecord host principalId snapshot)
    return { recordFacts (facts.any (·.semanticEventNew)) with recordFacts := facts }

end MindRoom
