import MindRoom.Continuations

/-! # Card decisions and departures

`event_journal/approvals.py`: the first decision on a card settles its exact call and enqueues
the terminal edit in one transaction, a delivered card retires to an action tombstone, and a
departure decides and carries whatever its room still owed.
-/

namespace MindRoom.Approvals

/-! ## Cards joined with their deliveries -/

structure CardJoin where
  card : ApprovalCardRow
  initial : OutboxRow
  final : Option OutboxRow
  background : Option BackgroundCallRow

def backgroundOf (db : DB) (principalId deliveryId : String) : Option BackgroundCallRow :=
  db.backgroundApprovalCalls.find? fun r => r.principalId = principalId ∧ r.deliveryId = deliveryId

/-- `approval_cards JOIN` its INITIAL `LEFT JOIN` its FINAL and its background call. -/
def cardJoins (db : DB) : List CardJoin :=
  db.approvalCards.rows.filterMap fun card =>
    (outboxAt db card.principalId card.deliveryId .initial).map fun initial =>
      { card := card
        initial := initial
        final := outboxAt db card.principalId card.deliveryId .final
        background := backgroundOf db card.principalId card.deliveryId }

def HasSourceIn (db : DB) (principalId approvalId roomId : String) : Prop :=
  db.approvalContinuationSources.Any fun s =>
    s.principalId = principalId ∧ s.approvalId = approvalId ∧
      (journalAt db s.principalId s.eventId).any (·.roomId = roomId) = true

instance (db : DB) (principalId approvalId roomId : String) :
    Decidable (HasSourceIn db principalId approvalId roomId) :=
  inferInstanceAs (Decidable (Table.Any _ _))

/-- The card belongs to a run the principal paused on a source in the room. -/
def OwnedBySourceIn (db : DB) (principalId roomId : String) (row : CardJoin) : Prop :=
  row.background = none ∧
    ∃ continuation ∈ db.approvalContinuations.get? row.card.continuationId, continuation.principalId = principalId ∧
        HasSourceIn db principalId row.card.continuationId roomId

instance (db : DB) (principalId roomId : String) (row : CardJoin) :
    Decidable (OwnedBySourceIn db principalId roomId row) :=
  inferInstanceAs (Decidable (_ ∧
    ∃ continuation ∈ db.approvalContinuations.get? row.card.continuationId, _))

/-! ## Decisions -/

/-- The strict native-continuation identity of one card body. -/
def nativeIdentity (content : Dict) : Except StoreError (String × Int × String) :=
  match content.nonempty? "continuation_id", content.num? "continuation_generation",
      content.nonempty? "tool_call_id" with
  | some continuationId, some generation, some toolCallId =>
    pure (continuationId, generation, toolCallId)
  | _, _, _ => throw (.valueError "Approval card is missing native continuation identity.")

/-- Apply deadline and failure fences to one requested decision. -/
def effectiveContinuationDecision (requestedStatus : Decision) (requestedReason : Option String)
    (expired : Bool) (failureReason : Option String) : Decision × Option String :=
  if requestedStatus = .expired ∨ expired = true then (.expired, some timeoutReason)
  else if requestedStatus = .approved ∧ failureReason ≠ none then (.denied, failureReason)
  else (requestedStatus, requestedReason)

/-- The reason an approval is turned into a denial, while the run is failing. -/
def failureFence (continuation : ContinuationRow) : Option String :=
  if continuation.state = .failing then
    match continuation.failureReason with
    | some reason =>
      if reason = "" then some "Tool approval continuation failed safely." else some reason
    | none => some "Tool approval continuation failed safely."
  else none

/-- `UPDATE approval_continuation_calls SET decision = ?, reason = ?` for one undecided call. -/
def decideCall (principalId approvalId : String) (generation : Int) (toolCallId : String)
    (decision : Decision) (reason : Option String) (db : DB) : DB :=
  { db with
    approvalContinuationCalls := db.approvalContinuationCalls.update
      (fun r => key r = (principalId, approvalId, generation, toolCallId) ∧ r.decision = none)
      (fun r => { r with decision := some decision, reason := reason }) }

/-- A run without a publication lease is ready once every call of its generation is decided. -/
def markReady (principalId approvalId : String) (generation : Int) (db : DB) : DB :=
  ApprovalContinuations.updateRows
    (fun r => r.principalId = principalId ∧ r.approvalId = approvalId ∧
      r.generation = generation ∧ r.state = .waiting ∧ r.runtimeGeneration = none ∧
      ¬ ApprovalContinuations.Undecided db principalId approvalId generation)
    (fun r => { r with state := .ready }) (fun _ => rfl) db

/-- The undecided call a card stands for, while its run may still be decided. -/
def decidableCall (db : DB) (continuation : ContinuationRow) (card : ApprovalCardRow) :
    Option ContinuationCallRow :=
  if continuation.generation = card.continuationGeneration ∧
      (continuation.state = .waiting ∨ continuation.state = .failing) then
    (db.approvalContinuationCalls.get? (continuation.principalId, card.continuationId,
      card.continuationGeneration, card.toolCallId)).filter (·.decision = none)
  else none

/-- Commit one card and exact-call decision atomically. -/
def resolveContinuation (host : Host) (principalId : String) (cardEventId : Option String)
    (requestedStatus : Decision) (reason : Option String)
    (metadata : Option ApprovalDecisionMetadata) (deliveryId : Option String) :
    Tx RecordedApprovalDecision := do
  let db ← get
  match (cardJoins db).find? fun row =>
      row.card.principalId = principalId ∧ SelectsCard cardEventId deliveryId row.initial with
  | none => return .none
  | some row =>
    match row.final with
    | some final =>
      return {
        resolution := some (decodeObjectPayload final.payloadJson)
        recorded := false
        deliveryId := some row.card.deliveryId
        cardEventId := cardEventId }
    | none =>
      match db.approvalContinuations.get? row.card.continuationId with
      | none => return .none
      | some continuation =>
        match decidableCall db continuation row.card with
        | none => return .none
        | some call =>
          let now ← timeNs
          let expired := decide (call.expiresAtNs ≤ now)
          if metadata = none ∧ expired = false then
            return .none
          let (decision, decisionReason) := effectiveContinuationDecision requestedStatus
            reason expired (failureFence continuation)
          let stored ← liftM (storedResolution row.initial metadata requestedStatus decision
            decisionReason)
          modify (decideCall continuation.principalId row.card.continuationId
            row.card.continuationGeneration row.card.toolCallId decision decisionReason)
          enqueueResolution host principalId row.initial stored
          modify (markReady continuation.principalId row.card.continuationId
            row.card.continuationGeneration)
          let db ← get
          return {
            resolution := some stored
            recorded := true
            deliveryId := some row.card.deliveryId
            cardEventId := cardEventId
            continuationReady := (ApprovalContinuations.rowAt db continuation.principalId
              row.card.continuationId).any fun r =>
                r.generation = row.card.continuationGeneration ∧ r.state = .ready
            continuationEntityName := some continuation.entityName
            continuationRoomId := some row.initial.roomId
            sourceEventIds := ApprovalContinuations.sourcesOf db continuation.principalId
              row.card.continuationId }

/-- Resolve one typed approval target through the shared card lifecycle. -/
def resolveCard (host : Host) (principalId : String) (cardEventId : Option String)
    (requestedStatus : Decision) (reason : Option String)
    (metadata : Option ApprovalDecisionMetadata) (deliveryId : Option String) :
    Tx RecordedApprovalDecision := do
  let db ← get
  let background := BackgroundApprovals.selectCall db principalId fun initial =>
    if cardEventId = none then deliveryId = some initial.deliveryId
    else initial.acknowledgedEventId = cardEventId
  match background with
  | some _ =>
    BackgroundApprovals.resolve host principalId requestedStatus reason metadata cardEventId
      deliveryId
  | none =>
    resolveContinuation host principalId cardEventId requestedStatus reason metadata deliveryId

/-! ## Retirement -/

/-- `DELETE FROM matrix_delivery_outbox WHERE p`. -/
def deleteOutbox (p : OutboxRow → Prop) [DecidablePred p] (db : DB) : DB :=
  { db with matrixDeliveryOutbox := db.matrixDeliveryOutbox.delete p }

/-- `DELETE FROM approval_cards` for one delivery. -/
def deleteCard (principalId deliveryId : String) (db : DB) : DB :=
  { db with
    approvalCards := db.approvalCards.delete fun r => key r = (principalId, deliveryId) }

/-- `INSERT INTO approval_action_tombstones ... ON CONFLICT DO NOTHING`. -/
def rememberAction (row : ActionTombstoneRow) (db : DB) : DB :=
  { db with approvalActionTombstones := db.approvalActionTombstones.insertOrIgnore row }

/-- The tombstone a delivered card leaves: INITIAL acknowledged as the named event, FINAL
acknowledged. -/
def completedCard (db : DB) (principalId deliveryId cardEventId : String) :
    Option ActionTombstoneRow := do
  let _ ← db.approvalCards.get? (principalId, deliveryId)
  let initial ← outboxAt db principalId deliveryId .initial
  let final ← outboxAt db principalId deliveryId .final
  if initial.acknowledgedEventId = some cardEventId ∧ final.acknowledgedEventId ≠ none then
    return { principalId := principalId, roomId := initial.roomId, cardEventId := cardEventId }
  else none

/-- Remember the action of a delivered card before its payload is deleted. -/
def rememberCompleted (principalId deliveryId cardEventId : String) (db : DB) : DB :=
  match completedCard db principalId deliveryId cardEventId with
  | some row => rememberAction row db
  | none => db

/-- Retire delivered card payload while keeping its shared approval-only identity. -/
def retire (principalId deliveryId cardEventId : String) (db : DB) : Bool × DB :=
  let db := rememberCompleted principalId deliveryId cardEventId db
  if (db.approvalActionTombstones.get? (principalId, cardEventId)).isSome then
    (true, deleteOutbox (fun r => r.principalId = principalId ∧ r.deliveryId = deliveryId)
        (deleteCard principalId deliveryId db))
  else (false, db)

/-- Remember a transport-verified alias only when retained grant audit proves it terminal. -/
def rememberTerminalAlias (principalId roomId cardEventId deliveryId : String) (db : DB) : DB :=
  match db.approvalGrantCards.get? (principalId, deliveryId) with
  | none => db
  | some audit =>
    if audit.roomId = roomId ∧ audit.grantId ≠ none ∧
        db.approvalCards.get? (principalId, deliveryId) = none then
      rememberAction { principalId := principalId, roomId := roomId, cardEventId := cardEventId } db
    else db

/-! ## Departures -/

/-- Finish domain retirement that crashed after a terminal Matrix acknowledgement. -/
def retireCompletedCardsForDeparture (principalId roomId : String) (db : DB) : DB :=
  let rows := (cardJoins db).filter fun row =>
    row.initial.acknowledgedEventId ≠ none ∧
      (row.final.any (·.acknowledgedEventId ≠ none)) = true ∧
      ((row.card.principalId = principalId ∧ row.initial.roomId = roomId) ∨
        OwnedBySourceIn db principalId roomId row)
  rows.foldl (fun db row => (retire row.card.principalId row.card.deliveryId
    (row.initial.acknowledgedEventId.getD "") db).2) db

/-- Delete a card and every stage that provably never reached Matrix. -/
def deleteUnattemptedCardDelivery (principalId deliveryId : String) (db : DB) : DB :=
  deleteOutbox (fun r => r.principalId = principalId ∧ r.deliveryId = deliveryId ∧
    r.attempted = false) (deleteCard principalId deliveryId db)

/-- Transfer one card and its cleanup delivery to the membership that inherited it. -/
def carryCardDeliveryToMembership (principalId deliveryId : String) (membershipEpoch : Int)
    (db : DB) : DB :=
  { db with
    approvalCards := db.approvalCards.update (fun r => key r = (principalId, deliveryId))
      (fun r => { r with membershipEpoch := membershipEpoch })
    matrixDeliveryOutbox := db.matrixDeliveryOutbox.update
      (fun r => r.principalId = principalId ∧ r.deliveryId = deliveryId)
      (fun r => { r with membershipEpoch := membershipEpoch }) }

/-- `UPDATE approval_continuation_calls SET decision = 'denied'` where it has none. -/
def denyCallIfUndecided (card : ApprovalCardRow) (reason : String) (db : DB) : DB :=
  { db with
    approvalContinuationCalls := db.approvalContinuationCalls.update
      (fun r => r.approvalId = card.continuationId ∧ r.generation = card.continuationGeneration ∧
        r.toolCallId = card.toolCallId ∧ r.decision = none)
      (fun r => { r with decision := some .denied, reason := some reason }) }

def enqueueTerminal (host : Host) (row : CardJoin) (status : Decision) (reason : String) :
    Tx Unit := do
  let resolution ← liftM (terminalContent (decodeObjectPayload row.initial.payloadJson) status
    (some reason) none .edit)
  enqueueResolution host row.card.principalId row.initial resolution

/-- One card of a continuation whose owner left the room. -/
def expireCard (host : Host) (reason : String) (row : CardJoin) : Tx Unit := do
  if row.initial.attempted = false then
    modify (deleteUnattemptedCardDelivery row.card.principalId row.card.deliveryId)
  else if row.final = none then
    enqueueTerminal host row .expired reason

/-- Preserve router-owned Matrix cleanup when a responder leaves the room. -/
def expireCardsForDepartedContinuations (host : Host) (continuationPrincipalId roomId reason : String) :
    Tx Unit := do
  let db ← get
  ((cardJoins db).filter (OwnedBySourceIn db continuationPrincipalId roomId)).forM
    (expireCard host reason)

def HasUnresolvedCardIn (db : DB) (cardPrincipalId roomId approvalId : String) : Prop :=
  ∃ row ∈ cardJoins db, row.card.principalId = cardPrincipalId ∧ row.initial.roomId = roomId ∧
    row.card.continuationId = approvalId ∧ row.background.isNone ∧ row.final.isNone

instance (db : DB) (cardPrincipalId roomId approvalId : String) :
    Decidable (HasUnresolvedCardIn db cardPrincipalId roomId approvalId) :=
  inferInstanceAs (Decidable (∃ row ∈ cardJoins db, _))

def failRuns (cardPrincipalId roomId reason : String) (db : DB) : DB :=
  ApprovalContinuations.updateRows
    (fun r => (r.state = .waiting ∨ r.state = .ready) ∧
      HasUnresolvedCardIn db cardPrincipalId roomId r.approvalId)
    (fun r => { r with state := .failing, failureReason := some reason, runtimeGeneration := none })
    (fun _ => rfl) db

/-- One card whose author left the room, carried to `membershipEpoch`. -/
def failCard (host : Host) (cardPrincipalId reason : String) (membershipEpoch : Int)
    (row : CardJoin) : Tx Unit := do
  match row.background with
  | some _ =>
    let _ ← BackgroundApprovals.resolve host cardPrincipalId .denied (some reason) none
      row.initial.acknowledgedEventId (some row.card.deliveryId)
    if row.initial.attempted = false then
      modify (deleteUnattemptedCardDelivery cardPrincipalId row.card.deliveryId)
    else
      modify (carryCardDeliveryToMembership cardPrincipalId row.card.deliveryId membershipEpoch)
  | none =>
    if row.final = none then
      modify (denyCallIfUndecided row.card reason)
    if row.initial.attempted = false then
      modify (deleteUnattemptedCardDelivery cardPrincipalId row.card.deliveryId)
    else
      if row.final = none then
        enqueueTerminal host row .denied reason
      modify (carryCardDeliveryToMembership cardPrincipalId row.card.deliveryId membershipEpoch)

/-- Fail unresolved pauses and preserve attempted cards through terminal recovery. The room has
its membership row: the fence has just written it. -/
def failContinuationsForDepartedCardOwner (host : Host) (cardPrincipalId roomId reason : String) :
    Tx Unit := do
  modify (failRuns cardPrincipalId roomId reason)
  let db ← get
  ((cardJoins db).filter fun row => row.card.principalId = cardPrincipalId ∧
    row.initial.roomId = roomId ∧
      (db.roomMembership.get? (cardPrincipalId, roomId)).isSome).forM
    (failCard host cardPrincipalId reason (currentMembershipEpoch db cardPrincipalId roomId))

end MindRoom.Approvals
