import MindRoom.Approvals

/-! # Timed grants

`event_journal/approval_grants.py`: a card's scope is recorded when it is reserved, a grant
approves the cards of its scope until it expires or is revoked, and maintenance retires spent
payloads and delivers revocations. `reserve_deliveries`, which applies active grants to the
cards it reserves, closes the approval domain.
-/

namespace MindRoom

/-- Durable grant identity retained independently of retired approval cards. -/
structure ApprovalGrant where
  grantId : String
  roomId : String
  threadId : String
  cardEventId : String
  requesterId : String
  entityName : String
  invokingAgent : String
  operation : String
  expiresAtNs : Int
  revokedAtNs : Option Int
deriving DecidableEq

/-- The authoritative grant acknowledgement carried by a card edit. -/
def ApprovalGrant.wire (host : Host) (grant : ApprovalGrant) : Dict :=
  [("grant_id", .str grant.grantId), ("expires_at", .str (host.approvalTimestamp grant.expiresAtNs)),
    ("revoked_at", match grant.revokedAtNs with
      | none => .null
      | some revokedAtNs => .str (host.approvalTimestamp revokedAtNs))]

def autoApproveOptions : List Int := [300, 600, 1800]

namespace ApprovalGrants

/-! ## Scopes -/

def activeEpoch (db : DB) (principalId roomId : String) : Option Int :=
  if departureFenced db principalId roomId then none
  else some (currentMembershipEpoch db principalId roomId)

/-- Router and responder are still in the tenures the scope was recorded under. -/
def Current (db : DB) (principalId roomId : String) (membershipEpoch : Int)
    (responderPrincipalId : String) (responderEpoch : Int) : Prop :=
  activeEpoch db principalId roomId = some membershipEpoch ∧
    activeEpoch db responderPrincipalId roomId = some responderEpoch

instance (db : DB) (principalId roomId : String) (membershipEpoch : Int)
    (responderPrincipalId : String) (responderEpoch : Int) :
    Decidable (Current db principalId roomId membershipEpoch responderPrincipalId responderEpoch) :=
  inferInstanceAs (Decidable (_ ∧ _))

def ScopeCurrent (db : DB) (principalId : String) (row : GrantCardRow) : Prop :=
  Current db principalId row.roomId row.membershipEpoch row.responderPrincipalId row.responderEpoch

def GrantCurrent (db : DB) (principalId : String) (row : GrantRow) : Prop :=
  Current db principalId row.roomId row.membershipEpoch row.responderPrincipalId row.responderEpoch

instance (db : DB) (principalId : String) (row : GrantCardRow) :
    Decidable (ScopeCurrent db principalId row) := inferInstanceAs (Decidable (Current ..))

instance (db : DB) (principalId : String) (row : GrantRow) :
    Decidable (GrantCurrent db principalId row) := inferInstanceAs (Decidable (Current ..))

/-- The text a scope's identity is the digest of. -/
def scopeText (host : Host) (continuation : ApprovalContinuation) (invokingAgent operation : String)
    (membershipEpoch : Int) (continuationPrincipalId : String) (responderEpoch : Int)
    (threadId : ThreadId) : String :=
  host.dumps (.arr [.str continuation.context.roomId, .str threadId.val,
    .str continuation.context.requesterId, .str invokingAgent, .str operation, .num membershipEpoch,
    .str continuationPrincipalId, .num responderEpoch])

/-- The placeholder identity a prepared scope carries. -/
def placeholderScopeId : String := String.ofList (List.replicate 64 '0')

def scopeRow (principalId continuationPrincipalId : String) (continuation : ApprovalContinuation)
    (card : ApprovalCardReservation) (call : ApprovalCall) (operation scopeId : String)
    (membershipEpoch responderEpoch : Int) (threadId : ThreadId) : GrantCardRow where
  principalId := principalId
  deliveryId := card.deliveryId
  continuationId := continuation.approvalId
  continuationGeneration := continuation.generation
  toolCallId := card.toolCallId
  scopeKey := scopeId
  roomId := continuation.context.roomId
  threadId := threadId.val
  requesterId := continuation.context.requesterId
  entityName := continuation.entityName
  invokingAgent := call.invokingAgent
  operation := operation
  responderPrincipalId := continuationPrincipalId
  responderEpoch := responderEpoch
  membershipEpoch := membershipEpoch
  grantId := none

/-- Persist eligible card scope independently of its eventual retirement. -/
def reserveIdentity (host : Host) (principalId continuationPrincipalId : String)
    (continuation : ApprovalContinuation) (card : ApprovalCardReservation) (membershipEpoch : Int) :
    Tx ApprovalCardReservation := do
  match card.grantOperation, continuation.context.threadId with
  | some operation, some threadId =>
    match continuation.calls.find? (·.toolCallId = card.toolCallId) with
    | none => throw (.runtimeError "StopIteration")
    | some call =>
      let db ← get
      match activeEpoch db continuationPrincipalId continuation.context.roomId with
      | none =>
        return { card with
          payload := (card.payload.pop "approval_scope").pop "auto_approve_options"
          grantOperation := none }
      | some responderEpoch =>
        let scopeId := host.sha256 (scopeText host continuation call.invokingAgent
          (operation.key host) membershipEpoch continuationPrincipalId responderEpoch threadId)
        let scopeWire := operation.scopeWire scopeId continuation.entityName call.invokingAgent
        let prepared := scopeWire.set "id" (.str placeholderScopeId)
        if (card.payload.get? "approval_scope").all
            fun scope => Json.same scope (.obj prepared) = false then
          throw (.valueError "Prepared approval scope does not match its continuation")
        match db.approvalGrantCards.insert? (scopeRow principalId continuationPrincipalId
            continuation card call (operation.key host) scopeId membershipEpoch responderEpoch
            threadId) with
        | none => throw (.constraint "approval_grant_cards")
        | some rows =>
          set { db with approvalGrantCards := rows }
          return { card with payload := card.payload.set "approval_scope" (.obj scopeWire) }
  | _, _ => return card

/-! ## Grants -/

def grantOfRow (row : GrantRow) : ApprovalGrant where
  grantId := row.grantId
  roomId := row.roomId
  threadId := row.threadId
  cardEventId := row.cardEventId
  requesterId := row.requesterId
  entityName := row.entityName
  invokingAgent := row.invokingAgent
  operation := row.operation
  expiresAtNs := row.expiresAtNs
  revokedAtNs := row.revokedAtNs

/-- `UPDATE approval_grant_cards SET grant_id = ?` for one delivery. -/
def bindGrant (principalId deliveryId grantId : String) (db : DB) : DB :=
  { db with
    approvalGrantCards := db.approvalGrantCards.update (fun r => key r = (principalId, deliveryId))
      (fun r => { r with grantId := some grantId }) }

/-- `UPDATE approval_grants SET f` for one grant. -/
def updateGrant (principalId grantId : String) (f : GrantRow → GrantRow)
    (hf : ∀ r, key (f r) = key r := by intro _; rfl) (db : DB) : DB :=
  { db with
    approvalGrants := db.approvalGrants.update (fun r => key r = (principalId, grantId)) f hf }

/-- The stored resolution of a grant. The empty text of a spent grant does not decode. -/
def grantResolution (row : GrantRow) : Except StoreError Dict :=
  match row.resolutionJson with
  | some stored => pure (decodeObjectPayload stored)
  | none => throw (.valueError "Expecting value: line 1 column 1 (char 0)")

def grantProvenance (host : Host) (row : GrantRow) (resolution : Dict) : Dict :=
  match resolution.obj? "approval_provenance" with
  | some (entry :: entries) => entry :: entries
  | _ =>
    [("kind", .str "timed_grant"), ("grant_id", .str row.grantId),
      ("grant_card_event_id", .str row.cardEventId), ("granted_by", .str row.requesterId),
      ("granted_at", (resolution.get? "resolved_at").getD .null),
      ("expires_at", .str (host.approvalTimestamp row.expiresAtNs))]

/-- The unrevoked, unexpired grant of one scope that expires last. -/
def activeGrant (db : DB) (principalId scopeKey : String) (now : Int) : Option GrantRow :=
  ((db.approvalGrants.select fun r => r.principalId = principalId ∧ r.scopeKey = scopeKey ∧
    r.revokedAtNs = none ∧ now < r.expiresAtNs).insertionSort
      fun a b => b.expiresAtNs ≤ a.expiresAtNs).head?

/-- The undecided, unexpired call one scope stands for. -/
def grantableCall (db : DB) (row : GrantCardRow) (now : Int) : Option ContinuationCallRow :=
  (db.approvalContinuationCalls.get? (row.responderPrincipalId, row.continuationId,
    row.continuationGeneration, row.toolCallId)).filter fun r =>
      r.decision = none ∧ now < r.expiresAtNs

/-- `UPDATE approval_continuation_calls SET decision = 'approved'` for one scope. -/
def approveCall (row : GrantCardRow) (now : Int) (db : DB) : DB :=
  { db with
    approvalContinuationCalls := db.approvalContinuationCalls.update
      (fun r => key r = (row.responderPrincipalId, row.continuationId, row.continuationGeneration,
        row.toolCallId) ∧ r.decision = none ∧ now < r.expiresAtNs)
      (fun r => { r with decision := some .approved }) }

/-- Approve a new call and atomically reserve its terminal-only receipt. -/
def applyActive (host : Host) (principalId : String) (card : ApprovalCardReservation) : Tx Bool := do
  let db ← get
  match (db.approvalGrantCards.get? (principalId, card.deliveryId)).filter
      (ScopeCurrent db principalId ·) with
  | none => return false
  | some row =>
    let now ← timeNs
    match (activeGrant db principalId row.scopeKey now).filter (GrantCurrent db principalId ·) with
    | none => return false
    | some grant =>
      if grantableCall db row now = none then
        return false
      modify (approveCall row now)
      modify (bindGrant principalId card.deliveryId grant.grantId)
      let resolution ← liftM (grantResolution grant)
      let receipt ← liftM (terminalContent card.payload .approved none
        (some {
          resolvedBy := some grant.requesterId
          resolvedAt := some (host.approvalTimestamp now)
          provenance := some (grantProvenance host grant resolution)
          autoApproval := none }) .receipt)
      let _ ← enqueue host principalId
        { deliveryId := card.deliveryId
          stage := .initial
          eventType := card.eventType
          roomId := row.roomId
          membershipEpoch := row.membershipEpoch
          threadId := decodeThreadId row.threadId
          payload := receipt
          editsEventId := none }
      return true

def scopeJoins (db : DB) (principalId : String) : List (GrantCardRow × OutboxRow) :=
  (db.approvalGrantCards.select (·.principalId = principalId)).filterMap fun scope => do
    let _ ← db.approvalCards.get? (scope.principalId, scope.deliveryId)
    let initial ← outboxAt db scope.principalId scope.deliveryId .initial
    if (outboxAt db scope.principalId scope.deliveryId .final).isNone then
      return (scope, initial)
    else none

/-- The status member of a terminal payload. -/
def Approved (decision : RecordedApprovalDecision) : Prop :=
  decision.recorded = true ∧
    (decision.resolution.bind fun r => Dict.str? r "status") = some "approved"

instance (decision : RecordedApprovalDecision) : Decidable (Approved decision) :=
  inferInstanceAs (Decidable (_ ∧ _))

/-- The metadata a grant decides a card with: the click's own for the first card, the grant's
for the ones it covers. -/
def decisionMetadata (host : Host) (grant : ApprovalGrant) (provenance : Dict)
    (metadata : Option ApprovalDecisionMetadata) (now : Int) : ApprovalDecisionMetadata :=
  match metadata with
  | some metadata =>
    { metadata with autoApproval := some (grant.wire host), provenance := some provenance }
  | none =>
    { resolvedBy := some grant.requesterId
      resolvedAt := some (host.approvalTimestamp now)
      provenance := some provenance
      autoApproval := none }

def decide (host : Host) (principalId : String) (row : GrantCardRow × OutboxRow)
    (grant : ApprovalGrant) (provenance : Dict) (metadata : Option ApprovalDecisionMetadata)
    (reason : Option String) : Tx RecordedApprovalDecision := do
  let now ← match metadata with
    | some _ => pure 0
    | none => timeNs
  let result ← Approvals.resolveCard host principalId row.2.acknowledgedEventId .approved reason
    (some (decisionMetadata host grant provenance metadata now)) (some row.1.deliveryId)
  if Approved result then
    modify (bindGrant principalId row.1.deliveryId grant.grantId)
  return result

/-- The request that creates a grant, with the identity minted for it. -/
structure GrantRequest where
  roomId : String
  cardEventId : String
  senderId : String
  seconds : Int
  metadata : ApprovalDecisionMetadata
  reason : Option String
  currentBinding : Option String
  grantId : String

def GrantRequest.grant (request : GrantRequest) (scope : GrantCardRow) (now : Int) :
    ApprovalGrant where
  grantId := request.grantId
  roomId := request.roomId
  threadId := scope.threadId
  cardEventId := request.cardEventId
  requesterId := request.senderId
  entityName := scope.entityName
  invokingAgent := scope.invokingAgent
  operation := scope.operation
  expiresAtNs := now + request.seconds * 1000000000
  revokedAtNs := none

/-- The provenance of the decisions one grant makes. -/
def GrantRequest.provenance (host : Host) (request : GrantRequest) (grant : ApprovalGrant)
    (now : Int) : Dict :=
  [("kind", .str "timed_grant"), ("grant_id", .str grant.grantId),
    ("grant_card_event_id", .str request.cardEventId), ("granted_by", .str request.senderId),
    ("granted_at", .str (host.approvalTimestamp now)), ("duration_seconds", .num request.seconds),
    ("expires_at", .str (host.approvalTimestamp grant.expiresAtNs))]

def grantRow (principalId : String) (grant : ApprovalGrant) (scope : GrantCardRow)
    (resolution : Option Dict) : GrantRow where
  principalId := principalId
  grantId := grant.grantId
  scopeKey := scope.scopeKey
  roomId := grant.roomId
  threadId := grant.threadId
  cardEventId := grant.cardEventId
  requesterId := grant.requesterId
  entityName := grant.entityName
  invokingAgent := grant.invokingAgent
  operation := grant.operation
  responderPrincipalId := scope.responderPrincipalId
  responderEpoch := scope.responderEpoch
  membershipEpoch := scope.membershipEpoch
  expiresAtNs := grant.expiresAtNs
  revokedAtNs := none
  resolutionJson := resolution
  originalDeliveryId := scope.deliveryId

/-- Insert one grant: `PRIMARY KEY (principal_id, grant_id)`, `UNIQUE (principal_id,
card_event_id)`. -/
def insertGrant (row : GrantRow) : Tx Unit := do
  let db ← get
  if db.approvalGrants.Any fun r =>
      r.principalId = row.principalId ∧ r.cardEventId = row.cardEventId then
    throw (.constraint "approval_grants")
  match db.approvalGrants.insert? row with
  | none => throw (.constraint "approval_grants")
  | some rows => set { db with approvalGrants := rows }

def GrantRequest.Binds (request : GrantRequest) (db : DB) (principalId : String)
    (scope : GrantCardRow) : Prop :=
  scope.requesterId = request.senderId ∧ ScopeCurrent db principalId scope ∧
    ∀ binding ∈ request.currentBinding, startswith scope.operation (binding ++ ":")

instance (request : GrantRequest) (db : DB) (principalId : String) (scope : GrantCardRow) :
    Decidable (request.Binds db principalId scope) :=
  inferInstanceAs (Decidable (_ ∧ _ ∧ ∀ binding ∈ request.currentBinding, _))

/-- Accept a grant and all eligible pending calls in one commit. -/
def create (host : Host) (principalId : String) (request : GrantRequest) :
    Tx (List RecordedApprovalDecision) := do
  if request.seconds ∉ autoApproveOptions then
    return []
  let db ← get
  match (scopeJoins db principalId).find? fun row => row.1.roomId = request.roomId ∧
      row.2.acknowledgedEventId = some request.cardEventId with
  | none => return []
  | some row =>
    if ¬ request.Binds db principalId row.1 then
      return []
    let now ← timeNs
    let grant := request.grant row.1 now
    let provenance := request.provenance host grant now
    let first ← decide host principalId row grant provenance (some request.metadata) request.reason
    if ¬ Approved first then
      return [first]
    insertGrant (grantRow principalId grant row.1 first.resolution)
    let db ← get
    let candidates := ((scopeJoins db principalId).filter
      (·.1.scopeKey = row.1.scopeKey)).insertionSort fun a b => a.1.deliveryId ≤ b.1.deliveryId
    let covered ← candidates.mapM fun candidate =>
      decide host principalId candidate grant provenance none none
    return first :: covered

def revocationDeliveryId (grantId : String) : String := "approval-grant-revoked:" ++ grantId

/-- Ordered delivery identities returned by a durable revocation command. -/
structure ApprovalGrantRevocation where
  originalDeliveryId : String
  deliveryId : String
deriving DecidableEq

/-- Record revocation debt without rewriting the original FINAL delivery. -/
def revoke (principalId roomId cardEventId senderId grantId : String) :
    Tx (Option ApprovalGrantRevocation) := do
  let db ← get
  match (db.approvalGrants.get? (principalId, grantId)).filter fun r =>
      r.roomId = roomId ∧ r.cardEventId = cardEventId ∧ r.requesterId = senderId ∧
        GrantCurrent db principalId r with
  | none => return none
  | some row =>
    let revocation : ApprovalGrantRevocation :=
      ⟨row.originalDeliveryId, revocationDeliveryId grantId⟩
    if row.revokedAtNs ≠ none then
      return some revocation
    let now ← timeNs
    if row.expiresAtNs ≤ now then
      return none
    modify (updateGrant principalId grantId (fun r => { r with revokedAtNs := some now })
      (fun _ => rfl))
    return some revocation

/-! ## Maintenance -/

/-- An acknowledged INITIAL that a grant decided and whose card is gone. -/
def SpentReceipt (db : DB) (principalId : String) (r : OutboxRow) : Prop :=
  r.principalId = principalId ∧ r.stage = .initial ∧
    (db.approvalGrantCards.get? (principalId, r.deliveryId)).any (·.grantId ≠ none) = true ∧
    db.approvalCards.get? (principalId, r.deliveryId) = none

instance (db : DB) (principalId : String) (r : OutboxRow) :
    Decidable (SpentReceipt db principalId r) := inferInstanceAs (Decidable (_ ∧ _ ∧ _ ∧ _))

/-- The action tombstones of every spent receipt. -/
def rememberReceipts (principalId : String) (db : DB) : DB :=
  (db.matrixDeliveryOutbox.select (SpentReceipt db principalId ·)).foldl
    (fun db r => match r.acknowledgedEventId with
      | some event => Approvals.rememberAction ⟨r.principalId, r.roomId, event⟩ db
      | none => db) db

/-- Release acknowledged terminal originals while retaining their action identity. -/
def retireReceipts (principalId : String) (db : DB) : DB :=
  let db := rememberReceipts principalId db
  Approvals.deleteOutbox (fun r => SpentReceipt db principalId r ∧
    db.approvalActionTombstones.Any fun t => t.principalId = principalId ∧ t.roomId = r.roomId ∧
      r.acknowledgedEventId = some t.cardEventId) db

/-- `DELETE FROM approval_grant_cards` that no grant decided and no card needs. -/
def deleteUnusedScopes (principalId : String) (db : DB) : DB :=
  { db with
    approvalGrantCards := db.approvalGrantCards.delete fun r => r.principalId = principalId ∧
      r.grantId = none ∧ db.approvalCards.get? (principalId, r.deliveryId) = none }

/-- The grant's payload is spent: its tenure or time is over, or its revocation was delivered. -/
def Spent (db : DB) (principalId : String) (row : GrantRow) (now : Int) : Prop :=
  ¬ GrantCurrent db principalId row ∨ (row.revokedAtNs = none ∧ row.expiresAtNs ≤ now) ∨
    (outboxAt db principalId (revocationDeliveryId row.grantId) .final).any
      (·.acknowledgedEventId ≠ none) = true

instance (db : DB) (principalId : String) (row : GrantRow) (now : Int) :
    Decidable (Spent db principalId row now) := inferInstanceAs (Decidable (_ ∨ _ ∨ _))

/-- One grant under maintenance, judged by the database the pass began in: the delivery of its
revocation, if it has become deliverable. -/
def maintainGrant (host : Host) (principalId : String) (begun : DB) (now : Int) (row : GrantRow)
    (resolution : Dict) : Tx (Option String) := do
  if Spent begun principalId row now then
    modify (updateGrant principalId row.grantId (fun r => { r with resolutionJson := none })
      (fun _ => rfl))
    return none
  if row.revokedAtNs = none ∨ (outboxAt begun principalId row.originalDeliveryId .final).any
      (·.acknowledgedEventId = none) then
    return none
  let deliveryId := revocationDeliveryId row.grantId
  if (outboxAt begun principalId deliveryId .final).isSome then
    return some deliveryId
  let _ ← enqueue host principalId
    { deliveryId := deliveryId
      stage := .final
      eventType := "io.mindroom.tool_approval"
      roomId := row.roomId
      membershipEpoch := row.membershipEpoch
      threadId := decodeThreadId row.threadId
      payload := resolution.set "auto_approval" (.obj ((grantOfRow row).wire host))
      editsEventId := some row.cardEventId }
  return some deliveryId

/-- `DELETE FROM matrix_delivery_outbox` the delivered revocations of spent grants. -/
def deleteDeliveredRevocations (principalId : String) (db : DB) : DB :=
  Approvals.deleteOutbox (fun r => r.principalId = principalId ∧ r.stage = .final ∧
    r.acknowledgedEventId ≠ none ∧ db.approvalGrants.Any fun g => g.principalId = principalId ∧
      revocationDeliveryId g.grantId = r.deliveryId ∧ g.resolutionJson = none) db

/-- The grants a maintenance pass looks at, with the payloads they still hold. -/
def maintained (db : DB) (principalId : String) (grantId : Option String) :
    List (GrantRow × Dict) :=
  ((db.approvalGrants.select fun r => r.principalId = principalId ∧
    grantId.all (· = r.grantId) = true).insertionSort fun a b => a.grantId ≤ b.grantId).filterMap
      fun r => r.resolutionJson.map fun resolution => (r, resolution)

/-- Release spent grant payloads and prepare newly deliverable revocations. -/
def maintain (host : Host) (principalId : String) (grantId : Option String) :
    Tx (List String) := do
  if grantId = none then
    modify (retireReceipts principalId)
    modify (deleteUnusedScopes principalId)
  let db ← get
  let now ← timeNs
  let deliveries ← (maintained db principalId grantId).mapM fun row =>
    maintainGrant host principalId db now row.1 row.2
  if grantId = none then
    modify (deleteDeliveredRevocations principalId)
  return deliveries.filterMap id

end ApprovalGrants

/-! ## Reservation -/

namespace Approvals

def undecidedCalls (db : DB) (principalId approvalId : String) (generation : Int) : List String :=
  ((ApprovalContinuations.callRows db principalId approvalId generation).filter
    (·.decision = none)).map (·.toolCallId)

/-- The cards name exactly the undecided calls, each once. -/
def CoversUndecided (db : DB) (principalId approvalId : String) (generation : Int)
    (cards : List ApprovalCardReservation) : Prop :=
  (cards.map (·.toolCallId)).Nodup ∧
    (∀ card ∈ cards, card.toolCallId ∈ undecidedCalls db principalId approvalId generation) ∧
      ∀ call ∈ undecidedCalls db principalId approvalId generation, call ∈ cards.map (·.toolCallId)

instance (db : DB) (principalId approvalId : String) (generation : Int)
    (cards : List ApprovalCardReservation) :
    Decidable (CoversUndecided db principalId approvalId generation cards) :=
  inferInstanceAs (Decidable (_ ∧ _ ∧ _))

/-- A frozen card names the exact call it was reserved for. -/
def checkIdentity (continuationId : String) (expectedGeneration : Int)
    (card : ApprovalCardReservation) : Tx Unit := do
  let identity ← liftM (nativeIdentity card.payload)
  if identity ≠ (continuationId, expectedGeneration, card.toolCallId) then
    throw (.valueError
      ("Approval delivery '" ++ card.deliveryId ++ "' changed exact-call identity"))

/-- One card of the reservation: a receipt where a grant covers it, else a frozen card. -/
def reserveCard (host : Host) (cardPrincipalId continuationPrincipalId : String)
    (continuation : ApprovalContinuation) (membershipEpoch : Int) (card : ApprovalCardReservation) :
    Tx Unit := do
  let scopedCard ← ApprovalGrants.reserveIdentity host cardPrincipalId continuationPrincipalId
    continuation card membershipEpoch
  let applied ← ApprovalGrants.applyActive host cardPrincipalId scopedCard
  if applied = false then
    reserveDelivery host cardPrincipalId continuation.context.roomId continuation.context.threadId
      membershipEpoch (continuation.approvalId, continuation.generation, card.toolCallId) scopedCard

/-- Atomically own every exact call, frozen card, and publication lease. -/
def reserveDeliveries (host : Host) (cardPrincipalId continuationPrincipalId continuationId : String)
    (expectedGeneration : Int) (cards : List ApprovalCardReservation) : Tx Bool := do
  let db ← get
  match (ApprovalContinuations.load db continuationPrincipalId continuationId).filter fun c =>
      c.state = .waiting ∧ c.generation = expectedGeneration ∧ c.runtimeGeneration ≠ none with
  | none => return false
  | some continuation =>
    if cards = [] then
      return false
    if ¬ CoversUndecided db continuationPrincipalId continuationId expectedGeneration cards then
      return false
    cards.forM (checkIdentity continuationId expectedGeneration)
    let roomId := continuation.context.roomId
    let membershipEpoch := currentMembershipEpoch db cardPrincipalId roomId
    let current ← modifyGet (claimMembershipEpoch cardPrincipalId roomId membershipEpoch)
    if current = false then
      return false
    cards.forM (reserveCard host cardPrincipalId continuationPrincipalId continuation
      membershipEpoch)
    let activated ← modifyGet
      (ApprovalContinuations.activate continuationPrincipalId continuationId expectedGeneration)
    return activated.isSome

end Approvals

end MindRoom
