import Mathlib.Data.List.Infix
import Mathlib.Logic.Relation
import MindRoom.Hydration

/-! # The principal store

`event_journal/store.py`: every write one principal may make, each a single transaction on the
shared database that commits whole or is rolled back whole. A run is any sequence of them, by
any principals.
-/

namespace MindRoom

/-! ## Consumers -/

/-- `_consumer` without a stream: the principal's consumer, created on first use. -/
def loadOrCreateIngestionConsumer (principalId newGeneration : String) (db : DB) : DB :=
  { db with
    matrixSyncConsumers := db.matrixSyncConsumers.insertOrIgnore
      ⟨principalId, newGeneration, none, 1⟩ }

/-- The one statement that binds a stream: no row of the table has it yet. -/
def bindStream (principalId generation streamId : String) (db : DB) : DB :=
  { db with
    matrixSyncConsumers := db.matrixSyncConsumers.update
      (fun r => r.principalId = principalId ∧ r.consumerGeneration = generation ∧
        (r.streamId = none ∨ r.streamId = some streamId) ∧
        ¬ db.matrixSyncConsumers.Any fun r => r.streamId = some streamId)
      (fun r => { r with streamId := some streamId }) }

/-- `_consumer` with a stream: the binding is refused unless it is the one asked for. -/
def bindIngestionStream (principalId generation streamId : String) : Tx Unit := do
  modify (bindStream principalId generation streamId)
  let db ← get
  match db.matrixSyncConsumers.get? principalId with
  | none => throw (.ingestionConsumerBinding "")
  | some row =>
    if ¬ (row.consumerGeneration = generation ∧ row.streamId = some streamId) then
      throw (.ingestionConsumerBinding "")

/-! ## Admission -/

/-- `text LIKE '%"key"%'`, which folds ASCII case. -/
def namesKey (text key : String) : Bool :=
  decide (("\"" ++ key ++ "\"").toLower.toList <:+: text.toLower.toList)

/-- Whether this membership may show an unprojected prompt or edit. -/
def HasAttemptedUnacknowledgedPromptDelivery (host : Host) (db : DB) (principalId roomId : String)
    (membershipEpoch : Int) : Prop :=
  db.matrixDeliveryOutbox.Any fun r => r.principalId = principalId ∧ r.roomId = roomId ∧
    r.membershipEpoch = membershipEpoch ∧ r.eventType = "m.room.message" ∧ r.attempted = true ∧
    r.retired = false ∧ r.acknowledgedEventId = none ∧ r.permanentFailureReason = none ∧
    (r.editsEventId ≠ none ∨
      namesKey (host.dumps (.obj r.payloadJson)) interactivePromptKey = true)

instance (host : Host) (db : DB) (principalId roomId : String) (membershipEpoch : Int) :
    Decidable (HasAttemptedUnacknowledgedPromptDelivery host db principalId roomId
      membershipEpoch) :=
  inferInstanceAs (Decidable (Table.Any _ _))

/-- Freeze an interactive source only after its visible target is durable. -/
def snapshotInteractiveSource (host : Host) (principalId : String) (event : InboundEvent) :
    Tx Unit := do
  let candidate ← modifyGet (snapshotSourceCandidate principalId event)
  let db ← get
  if candidate = true ∧ HasAttemptedUnacknowledgedPromptDelivery host db principalId event.roomId
      (currentMembershipEpoch db principalId event.roomId) then
    throw (.deliveryProjectionPending
      ("Matrix delivery projection is pending in room '" ++ event.roomId ++ "'"))

/-- `_admit`: admit one event after any already-visible delivery is projected. -/
def admitEvent (host : Host) (principalId : String) (event : InboundEvent)
    (projected : Option ProjectedEvent) : Tx AdmissionResult := do
  let result ← admitInbound principalId event projected
  if result = .admitted then
    snapshotInteractiveSource host principalId event
  return result

/-- `_admit_ingestion_batch`: one receipt with the interactive snapshots it admits. -/
def admitBatch (host : Host) (principalId : String) (admission : IngestionBatchAdmission) :
    Tx AdmissionFacts :=
  admitIngestionBatch host principalId admission (snapshotInteractiveSource host principalId)

/-! ## Deliveries -/

/-- The arguments of `enqueue_matrix_delivery`. -/
structure DeliveryRequest where
  deliveryId : String
  stage : DeliveryStage
  roomId : String
  threadId : Option ThreadId
  payload : Dict
  result : Option Dict := none
  eventType : String := "m.room.message"
  editsEventId : Option String := none
  settleSourceEventIds : List String := []
  permanentFailureReason : Option String := none

def DeliveryRequest.intent (request : DeliveryRequest) (membershipEpoch : Int) :
    DeliveryIntent where
  deliveryId := request.deliveryId
  stage := request.stage
  eventType := request.eventType
  roomId := request.roomId
  membershipEpoch := membershipEpoch
  threadId := request.threadId
  payload := request.payload
  editsEventId := request.editsEventId
  result := request.result
  permanentFailureReason := request.permanentFailureReason

/-- The membership that authorizes a delivery: the stored one of an attempted row, else the one
that admitted its event, else the room's, while it is active. -/
def deliveryMembership (principalId : String) (request : DeliveryRequest) (db : DB) :
    Option Int × DB :=
  match (outboxAt db principalId request.deliveryId request.stage).filter (·.attempted) with
  | some row => (some row.membershipEpoch, db)
  | none =>
    match admittedMembershipOwner db principalId request.deliveryId with
    | none => claimActiveMembershipEpoch principalId request.roomId db
    | some (admittedRoomId, admittedEpoch) =>
      if admittedRoomId ≠ request.roomId then (none, db)
      else
        let (current, db) := claimMembershipEpoch principalId request.roomId admittedEpoch db
        (if current = true then some admittedEpoch else none, db)

/-- `_enqueue_matrix_delivery`: record delivery intent unless the membership that authorized it
has ended, and settle the sources it discharges. -/
def enqueueMatrixDelivery (host : Host) (principalId : String) (request : DeliveryRequest) :
    Tx (Option String) := do
  let membership ← modifyGet (deliveryMembership principalId request)
  match membership with
  | none => return none
  | some membershipEpoch =>
    let transactionId ← enqueue host principalId (request.intent membershipEpoch)
    match transactionId with
    | none => return none
    | some transactionId =>
      modify (settleMany principalId request.settleSourceEventIds)
      return some transactionId

/-- Retain an obsolete send as an identity tombstone, or return its acknowledgement. -/
def retireMatrixDelivery (principalId deliveryId : String) (stage : DeliveryStage) (roomId : String)
    (membershipEpoch : Int) : Tx (Option String) := do
  let _ ← modifyGet (claimMembershipEpoch principalId roomId membershipEpoch)
  let delivery ← retire principalId deliveryId stage roomId membershipEpoch
  match delivery with
  | none => return none
  | some delivery =>
    match delivery.editsEventId with
    | some editsEventId =>
      if delivery.retired = true then
        modify (discardDeliveryEvent principalId editsEventId)
    | none => pure ()
    return delivery.acknowledgedEventId

/-- The write of a terminal turn record, which reads and writes the turn records only. -/
abbrev TerminalTurnWrite := Table TurnRecordRow → Except StoreError (Table TurnRecordRow)

/-- `commit_terminal`, where the acknowledgement completes a turn. -/
def commitTerminal (terminalTurn : Option TerminalTurnWrite) : Tx Unit := do
  match terminalTurn with
  | none => pure ()
  | some write =>
    let db ← get
    let turnRecords ← liftM (write db.turnRecords)
    set { db with turnRecords := turnRecords }

/-- The projections a winning acknowledgement made visible, in server order. -/
def projectDelivered (principalId : String) (deliveredProjections : List ProjectedEvent)
    (projectionEpoch : Int) (db : DB) : DB :=
  projectChunk principalId deliveredProjections projectionEpoch db

/-- Record the Matrix event one claimed delivery produced, if nothing else has. The result is
the event the row now names and whether this call bound it. -/
def acknowledgeMatrixDelivery (principalId deliveryId : String) (stage : DeliveryStage)
    (eventId : String) (deliveredProjections : List ProjectedEvent)
    (terminalTurn : Option TerminalTurnWrite) : Tx (Option String × Bool) := do
  let ownership ← modifyGet (claimActiveDeliveryOwnership principalId deliveryId stage none)
  let bound ← modifyGet (acknowledge principalId deliveryId stage eventId)
  if bound = true then
    match ownership with
    | some (_, projectionEpoch) =>
      commitTerminal terminalTurn
      modify (projectDelivered principalId deliveredProjections projectionEpoch)
    | none => modify (discardDeliveryEvent principalId eventId)
    return (some eventId, true)
  let db ← get
  return ((outboxAt db principalId deliveryId stage).bind (·.acknowledgedEventId), false)

/-! ## Operations -/

def RefreshRequest.refetchKey (request : RefreshRequest) : RefetchKey where
  roomId := request.roomId
  logicalEventId := request.logicalEventId
  expectedRevisionEventId := request.revisionEventId
  expectedRefreshToken := request.refreshToken
  expectedMembershipEpoch := request.membershipEpoch

/-- The write operations of `PrincipalStore`, with their arguments. -/
inductive Op where
  | loadOrCreateIngestionConsumer (newGeneration : String)
  | bindIngestionStream (generation streamId : String)
  | admitEvent (event : InboundEvent) (projected : Option ProjectedEvent)
  | admitIngestionBatch (admission : IngestionBatchAdmission)
  | markRoomMemberJoinCompleted (roomId userId : String)
  | settle (eventId : String)
  | settleMany (eventIds : List String)
  | claimSemanticConsumer (eventId : String) (consumer : SemanticConsumer)
  | interactivePromptIsCurrent (roomId questionEventId : String) (expected : InteractivePrompt)
  | claimInteractiveReaction (sourceEventId : String)
  | claimInteractiveText (sourceEventId : String)
  | installHydrationChunk (roomId : String) (events : List ProjectedEvent)
      (expectedMembershipEpoch : Int)
  | markConversationHydrated (roomId : String) (threadId : Option ThreadId) (complete : Bool)
      (attemptedPolicyRank expectedMembershipEpoch : Int)
  | recordRoomHistoryRecovery (roomId : String)
  | installRoomHistoryRecoveryChunk (recovery : RoomHistoryRecovery) (events : List ProjectedEvent)
      (expectedMembershipEpoch : Int)
  | settleRoomHistoryRecovery (recovery : RoomHistoryRecovery) (exhaustedServer : Bool)
      (attemptedPolicyRank expectedMembershipEpoch : Int)
  | installRefetchedRevision (request : RefreshRequest) (revision : RefetchedRevision)
  | dropRefetchedMessage (request : RefreshRequest)
  | enqueueMatrixDelivery (request : DeliveryRequest)
  | claimMatrixDelivery (deliveryId : String) (stage : DeliveryStage)
      (sendingDeviceId : Option String)
  | recordMatrixDeliveryDevice (deliveryId : String) (stage : DeliveryStage)
      (deviceId : Option String)
  | recordPermanentMatrixDeliveryFailure (deliveryId : String) (stage : DeliveryStage)
      (reason : String)
  | retireMatrixDelivery (deliveryId : String) (stage : DeliveryStage) (roomId : String)
      (membershipEpoch : Int)
  | acknowledgeMatrixDelivery (deliveryId : String) (stage : DeliveryStage) (eventId : String)
      (deliveredProjections : List ProjectedEvent) (terminalTurn : Option TerminalTurnWrite)
  | retireDeletedInitial (deliveryId : String)
  | reserveApprovalCardDeliveries (continuationPrincipalId continuationId : String)
      (expectedGeneration : Int) (cards : List ApprovalCardReservation)
  | reserveBackgroundApprovalCard (roomId : String) (threadId : Option ThreadId)
      (runId callId : String) (expiresAtNs : Int) (card : ApprovalCardReservation)
  | resolveBackgroundApprovalCall (runId callId : String) (requestedStatus : Decision)
      (reason : String)
  | resolvePendingBackgroundApprovalCalls (runId reason : String)
  | pruneBackgroundApprovals (runId : String)
  | resolveContinuationApprovalCard (cardEventId : String) (requestedStatus : Decision)
      (reason : Option String) (metadata : ApprovalDecisionMetadata)
  | createApprovalGrant (request : ApprovalGrants.GrantRequest)
  | maintainApprovalGrants (grantId : Option String)
  | revokeApprovalGrant (roomId cardEventId senderId grantId : String)
  | expireUnacknowledgedApprovalCard (deliveryId : String)
  | retireApprovalCard (deliveryId cardEventId : String)
  | rememberTerminalApprovalAlias (roomId cardEventId deliveryId : String)
  | createApprovalContinuation (continuation : ApprovalContinuation)
  | claimApprovalContinuation (approvalId runtimeGeneration : String)
      (legacyShowToolCalls : Option Bool)
  | advanceApprovalContinuation (approvalId : String) (claimantGeneration : Int)
      (next : ApprovalContinuations.Advance)
  | activateApprovalContinuation (approvalId : String) (expectedGeneration : Int)
  | requestApprovalFailure (approvalId reason : String) (expectedState : ContinuationState)
      (expectedGeneration : Int) (expectedRuntimeGeneration : Option String)
  | finishApprovalContinuation (approvalId : String)
  | enqueueUnavailableApprovalNotice (approvalId roomId : String) (threadId : Option ThreadId)
      (payload : Dict)
  | discardUnavailableApprovalContinuation (approvalId noticePrincipalId : String)

/-- A statement whose answer the caller does not use. -/
def write {α : Type} (f : DB → α × DB) : Tx Unit := do
  let _ ← modifyGet f

/-- A transaction whose answer the caller does not use. -/
def exec {α : Type} (m : Tx α) : Tx Unit := do
  let _ ← m

/-- The transaction of one operation. `settle_many` returns before it writes when it is given
nothing, and a recovery chunk is bounded before it is written. -/
def Op.run (host : Host) (p : String) : Op → Tx Unit
  | .loadOrCreateIngestionConsumer g => modify (MindRoom.loadOrCreateIngestionConsumer p g)
  | .bindIngestionStream g s => MindRoom.bindIngestionStream p g s
  | .admitEvent event projected => exec (MindRoom.admitEvent host p event projected)
  | .admitIngestionBatch admission => exec (admitBatch host p admission)
  | .markRoomMemberJoinCompleted r u => modify (markCompleted p r u)
  | .settle e => modify (MindRoom.settle p e)
  | .settleMany es => modify (MindRoom.settleMany p es)
  | .claimSemanticConsumer e c => exec (MindRoom.claimSemanticConsumer p e c)
  | .interactivePromptIsCurrent r q expected => write (promptIsCurrent p r q expected)
  | .claimInteractiveReaction e => exec (claimReaction p e)
  | .claimInteractiveText e => exec (claimText p e)
  | .installHydrationChunk r es epoch => write (MindRoom.installHydrationChunk p r es epoch)
  | .markConversationHydrated r t c rank epoch =>
    write (MindRoom.markConversationHydrated p r t c rank epoch)
  | .recordRoomHistoryRecovery r => exec (MindRoom.recordRoomHistoryRecovery p r)
  | .installRoomHistoryRecoveryChunk recovery es epoch =>
    if 256 < es.length then
      throw (.valueError
        "Room history recovery chunks may contain at most 256 projected events")
    else write (installRecoveryChunk p recovery es epoch)
  | .settleRoomHistoryRecovery recovery exhausted rank epoch =>
    write (settleHistoryRecovery p recovery exhausted rank epoch)
  | .installRefetchedRevision request revision =>
    write (MindRoom.installRefetchedRevision p request.refetchKey revision)
  | .dropRefetchedMessage request => write (MindRoom.dropRefetchedMessage p request.refetchKey)
  | .enqueueMatrixDelivery request => exec (MindRoom.enqueueMatrixDelivery host p request)
  | .claimMatrixDelivery d stage device => write (claim p d stage device)
  | .recordMatrixDeliveryDevice d stage device =>
    modify (MindRoom.recordMatrixDeliveryDevice p d stage device)
  | .recordPermanentMatrixDeliveryFailure d stage reason =>
    exec (recordPermanentFailure p d stage reason)
  | .retireMatrixDelivery d stage r epoch => exec (MindRoom.retireMatrixDelivery p d stage r epoch)
  | .acknowledgeMatrixDelivery d stage e projections terminal =>
    exec (MindRoom.acknowledgeMatrixDelivery p d stage e projections terminal)
  | .retireDeletedInitial d => MindRoom.retireDeletedInitial p d
  | .reserveApprovalCardDeliveries cp c g cards =>
    exec (Approvals.reserveDeliveries host p cp c g cards)
  | .reserveBackgroundApprovalCard r t run call expires card =>
    exec (BackgroundApprovals.reserveDelivery host p r t run call expires card)
  | .resolveBackgroundApprovalCall run call status reason =>
    exec (BackgroundApprovals.resolveCall host p run call status reason)
  | .resolvePendingBackgroundApprovalCalls run reason =>
    exec (BackgroundApprovals.resolvePendingCalls host p run reason)
  | .pruneBackgroundApprovals run => write (BackgroundApprovals.pruneCalls p run)
  | .resolveContinuationApprovalCard card status reason metadata =>
    exec (Approvals.resolveCard host p (some card) status reason (some metadata) none)
  | .createApprovalGrant request => exec (ApprovalGrants.create host p request)
  | .maintainApprovalGrants g => exec (ApprovalGrants.maintain host p g)
  | .revokeApprovalGrant r card sender g => exec (ApprovalGrants.revoke p r card sender g)
  | .expireUnacknowledgedApprovalCard d =>
    exec (Approvals.resolveCard host p none .expired none none (some d))
  | .retireApprovalCard d card => write (Approvals.retire p d card)
  | .rememberTerminalApprovalAlias r card d => modify (Approvals.rememberTerminalAlias p r card d)
  | .createApprovalContinuation c => exec (ApprovalContinuations.create p c)
  | .claimApprovalContinuation a g shown => exec (ApprovalContinuations.claim p a g shown)
  | .advanceApprovalContinuation a g next => exec (ApprovalContinuations.advance p a g next)
  | .activateApprovalContinuation a g => write (ApprovalContinuations.activate p a g)
  | .requestApprovalFailure a reason state g runtime =>
    write (ApprovalContinuations.requestFailure p a reason state g runtime)
  | .finishApprovalContinuation a => exec (ApprovalContinuations.finish p a)
  | .enqueueUnavailableApprovalNotice a r t payload =>
    exec (ApprovalContinuations.enqueueUnavailableNotice host p a r t payload)
  | .discardUnavailableApprovalContinuation a notice =>
    exec (ApprovalContinuations.discardUnavailable p a notice)

def step (host : Host) (principalId : String) (op : Op) (db : DB) : DB :=
  Transaction.commit (op.run host principalId) db

end MindRoom
