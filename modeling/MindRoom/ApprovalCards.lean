import MindRoom.Settlement

/-! # Approval cards

`event_journal/approval_card_state.py`, the values of `tool_approval_grants.py`, and
`event_journal/background_approvals.py`: one frozen Matrix card for each exact tool call, the
terminal edit its decision becomes, and the calls of background scripts.
-/

namespace MindRoom

/-! ## Values -/

def timeoutReason : String := "Tool approval request timed out."

structure ApprovalDecisionMetadata where
  resolvedBy : Option String
  resolvedAt : Option String
  provenance : Option Dict
  autoApproval : Option Dict
deriving DecidableEq

/-- One resolved operation shared by grant matching and human review. -/
structure ApprovalOperation where
  binding : String
  toolName : String
  mcpServerId : Option String
  mcpToolName : Option String
deriving DecidableEq

def ApprovalOperation.mcpTarget (o : ApprovalOperation) : Option (String × String) := do
  let server ← o.mcpServerId
  let tool ← o.mcpToolName
  return (server, tool)

def ApprovalOperation.key (host : Host) (o : ApprovalOperation) : String :=
  let target := match o.mcpTarget with
    | some (server, tool) => [Json.str server, Json.str tool]
    | none => []
  o.binding ++ ":" ++ host.dumps (.arr (.str o.toolName :: target))

/-- The resolved target as the card shows it. -/
def ApprovalOperation.scopeWire (o : ApprovalOperation) (scopeId entityName invokingAgent : String) :
    Dict :=
  let target := match o.mcpTarget with
    | some (server, tool) => [("mcp_server_id", Json.str server), ("mcp_tool_name", Json.str tool)]
    | none => []
  [("id", .str scopeId), ("entity_name", .str entityName), ("invoking_agent", .str invokingAgent),
    ("operation", .obj (("tool_name", .str o.toolName) :: target))]

/-- One exact-call approval card and its frozen Matrix payload. -/
structure ApprovalCardReservation where
  deliveryId : String
  toolCallId : String
  eventType : String
  payload : Dict
  grantOperation : Option ApprovalOperation
deriving DecidableEq

/-- What the durable row carries after one attempt to record a decision. -/
structure RecordedApprovalDecision where
  resolution : Option Dict
  recorded : Bool
  deliveryId : Option String := none
  cardEventId : Option String := none
  continuationReady : Bool := false
  continuationEntityName : Option String := none
  continuationRoomId : Option String := none
  sourceEventIds : List String := []
deriving DecidableEq

def RecordedApprovalDecision.none : RecordedApprovalDecision :=
  { resolution := Option.none, recorded := false }

/-! ## Payloads -/

def decodeObjectPayload (stored : Dict) : Dict := stored.pop durableDeliveryIdKey

inductive Publication where
  | edit
  | receipt
deriving DecidableEq, Repr

/-- The members of a card no terminal payload repeats. -/
def excludedMembers (publication : Publication) : List String :=
  ["auto_approve_options", "auto_approval", "approval_provenance", "resolved_at",
    "resolution_reason"] ++ if publication = .edit then ["full_arguments"] else []

/-- `{"kind": "once"}` unless the metadata carries a provenance. -/
def provenanceOf (metadata : ApprovalDecisionMetadata) : Dict :=
  match metadata.provenance with
  | some provenance => if provenance = [] then [("kind", .str "once")] else provenance
  | none => [("kind", .str "once")]

/-- A nullable text member. -/
def optionStr : Option String → Json
  | some s => .str s
  | none => .null

/-- The facts of an authenticated decision on its terminal payload. -/
def decisionFacts (status : Decision) (metadata : ApprovalDecisionMetadata)
    (publication : Publication) (resolution : Dict) : Dict :=
  if status = .approved then
    let resolution := resolution.set "approval_provenance" (.obj (provenanceOf metadata))
    match metadata.autoApproval with
    | some autoApproval =>
      if publication = .edit then resolution.set "auto_approval" (.obj autoApproval)
      else resolution
    | none => resolution
  else resolution

def terminalContent (content : Dict) (status : Decision) (reason : Option String)
    (metadata : Option ApprovalDecisionMetadata) (publication : Publication) :
    Except StoreError Dict :=
  if status = .approved ∧ metadata = none then
    throw (.valueError "An approved card requires its authenticated decision metadata.")
  else
    let resolution := content.filter fun kv => kv.1 ∉ excludedMembers publication
    let resolution := Dict.set resolution "status" (.str status.value)
    let resolution := resolution.set "approvable" (.bool false)
    let resolution := resolution.set "resolved_by" (optionStr (metadata.bind (·.resolvedBy)))
    let resolution := match metadata.bind (·.resolvedAt) with
      | some resolvedAt => resolution.set "resolved_at" (.str resolvedAt)
      | none => resolution
    let resolution := match reason with
      | some reason => resolution.set "resolution_reason" (.str reason)
      | none => resolution
    let resolution := match metadata with
      | some metadata => decisionFacts status metadata publication resolution
      | none => resolution
    let label :=
      if publication = .receipt ∧ status = .approved then "Auto-approved" else status.title
    let body := match resolution.str? "tool_name" with
      | some toolName => label ++ ": " ++ toolName
      | none => "Approval " ++ status.value
    pure (resolution.set "body" (.str body))

/-- The journal decision projected from its frozen original request. -/
def storedResolution (initial : OutboxRow) (metadata : Option ApprovalDecisionMetadata)
    (requestedStatus decision : Decision) (reason : Option String) : Except StoreError Dict :=
  terminalContent (decodeObjectPayload initial.payloadJson) decision reason
    (if decision = requestedStatus then metadata else none) .edit

/-! ## Deliveries -/

/-- Reserve one frozen card in the shared Matrix delivery lifecycle. -/
def reserveDelivery (host : Host) (principalId roomId : String) (threadId : Option ThreadId)
    (membershipEpoch : Int) (identity : String × Int × String) (card : ApprovalCardReservation) :
    Tx Unit := do
  let _ ← enqueue host principalId
    { deliveryId := card.deliveryId
      stage := .initial
      eventType := card.eventType
      roomId := roomId
      membershipEpoch := membershipEpoch
      threadId := threadId
      payload := card.payload
      editsEventId := none }
  let db ← get
  match db.approvalCards.insert?
      { principalId := principalId
        deliveryId := card.deliveryId
        continuationId := identity.1
        continuationGeneration := identity.2.1
        toolCallId := identity.2.2
        membershipEpoch := membershipEpoch } with
  | none => throw (.constraint "approval_cards")
  | some cards => set { db with approvalCards := cards }

/-- The terminal edit of one card, waiting for its INITIAL where that has no event yet. -/
def terminalEdit (initial : OutboxRow) (resolution : Dict) : DeliveryIntent where
  deliveryId := initial.deliveryId
  stage := .final
  eventType := initial.eventType
  roomId := initial.roomId
  membershipEpoch := initial.membershipEpoch
  threadId := decodeThreadId initial.threadId
  payload := resolution
  editsEventId := initial.acknowledgedEventId
  editTargetPending := initial.acknowledgedEventId = none

def enqueueResolution (host : Host) (principalId : String) (initial : OutboxRow)
    (resolution : Dict) : Tx Unit := do
  let _ ← enqueue host principalId (terminalEdit initial resolution)

/-- The INITIAL row a decision names: by the event it was acknowledged with, else by its
delivery while it has none. -/
def SelectsCard (cardEventId deliveryId : Option String) (initial : OutboxRow) : Prop :=
  match cardEventId with
  | some event => initial.acknowledgedEventId = some event
  | none => deliveryId = some initial.deliveryId ∧ initial.acknowledgedEventId = none

instance (cardEventId deliveryId : Option String) (initial : OutboxRow) :
    Decidable (SelectsCard cardEventId deliveryId initial) := by
  unfold SelectsCard
  cases cardEventId <;> infer_instance

/-! ## Background scripts -/

namespace BackgroundApprovals

/-- The strict exact-call identity of a background card. -/
def backgroundIdentity (content : Dict) : Except StoreError (String × String) :=
  if content.get? "approval_target" ≠ some (.str "background_script") then
    throw (.typeError "Approval card is missing background-script target identity.")
  else
    match content.nonempty? "background_run_id", content.nonempty? "background_call_id" with
    | some runId, some callId => pure (runId, callId)
    | _, _ => throw (.valueError "Approval card is missing background-script target identity.")

/-- Atomically reserve one exact background-call target and frozen card. -/
def reserveDelivery (host : Host) (principalId roomId : String) (threadId : Option ThreadId)
    (runId callId : String) (expiresAtNs : Int) (card : ApprovalCardReservation) : Tx Bool := do
  let changed : StoreError := .valueError
    ("Background approval delivery '" ++ card.deliveryId ++ "' changed exact-call identity")
  if card.toolCallId ≠ callId then
    throw changed
  let identity ← liftM (backgroundIdentity card.payload)
  if identity ≠ (runId, callId) then
    throw changed
  let db ← get
  let membershipEpoch := currentMembershipEpoch db principalId roomId
  let current ← modifyGet (claimMembershipEpoch principalId roomId membershipEpoch)
  if current = false then
    return false
  let db ← get
  if (db.backgroundApprovalCalls.get? (principalId, runId, callId)).isSome then
    return true
  -- `PRIMARY KEY (principal_id, delivery_id)`
  if db.backgroundApprovalCalls.Any fun r =>
      r.principalId = principalId ∧ r.deliveryId = card.deliveryId then
    throw (.constraint "background_approval_calls")
  modify fun db =>
    { db with
      backgroundApprovalCalls := db.backgroundApprovalCalls.insertOrIgnore
        { principalId := principalId
          deliveryId := card.deliveryId
          runId := runId
          callId := callId
          expiresAtNs := expiresAtNs
          decision := none
          reason := none } }
  MindRoom.reserveDelivery host principalId roomId threadId membershipEpoch (runId, -1, callId) card
  return true

/-- A background call with the INITIAL of its card. -/
def selectCall (db : DB) (principalId : String) (selects : OutboxRow → Prop)
    [DecidablePred selects] : Option (BackgroundCallRow × OutboxRow) :=
  ((db.backgroundApprovalCalls.select (·.principalId = principalId)).filterMap fun call =>
    (outboxAt db principalId call.deliveryId .initial).map fun initial => (call, initial)).find?
      fun row => selects row.2

/-- `UPDATE background_approval_calls SET decision = ?, reason = ?` for one undecided call. -/
def decideCall (principalId deliveryId : String) (decision : Decision) (reason : Option String)
    (db : DB) : DB :=
  { db with
    backgroundApprovalCalls := db.backgroundApprovalCalls.update
      (fun r => r.principalId = principalId ∧ r.deliveryId = deliveryId ∧ r.decision = none)
      (fun r => { r with decision := some decision, reason := reason }) }

/-- The deadline overrides whatever was requested. -/
def effectiveDecision (requestedStatus : Decision) (reason : Option String) (expired : Bool) :
    Decision × Option String :=
  if requestedStatus = .expired ∨ expired = true then (.expired, some timeoutReason)
  else (requestedStatus, reason)

/-- Commit the first terminal decision for one background-call card. -/
def resolve (host : Host) (principalId : String) (requestedStatus : Decision)
    (reason : Option String) (metadata : Option ApprovalDecisionMetadata)
    (cardEventId deliveryId : Option String) : Tx RecordedApprovalDecision := do
  let db ← get
  match selectCall db principalId (SelectsCard cardEventId deliveryId) with
  | none => return .none
  | some (call, initial) =>
    if call.decision ≠ none then
      return {
        resolution := (outboxAt db principalId call.deliveryId .final).map fun r =>
          decodeObjectPayload r.payloadJson
        recorded := false
        deliveryId := some call.deliveryId
        cardEventId := cardEventId }
    let now ← timeNs
    let (decision, decisionReason) :=
      effectiveDecision requestedStatus reason (decide (call.expiresAtNs ≤ now))
    let stored ← liftM (storedResolution initial metadata requestedStatus decision decisionReason)
    modify (decideCall principalId call.deliveryId decision decisionReason)
    enqueueResolution host principalId initial stored
    return {
      resolution := some stored
      recorded := true
      deliveryId := some call.deliveryId
      cardEventId := cardEventId }

/-- Resolve one trusted exact background target through the shared card path. -/
def resolveCall (host : Host) (principalId runId callId : String) (requestedStatus : Decision)
    (reason : String) : Tx RecordedApprovalDecision := do
  let db ← get
  match (db.backgroundApprovalCalls.get? (principalId, runId, callId)).bind fun call =>
      outboxAt db principalId call.deliveryId .initial with
  | none => return .none
  | some initial =>
    resolve host principalId requestedStatus (some reason) none initial.acknowledgedEventId
      (if initial.acknowledgedEventId = none then some initial.deliveryId else none)

/-- Deny every currently pending target for one run in one transaction. -/
def resolvePendingCalls (host : Host) (principalId runId reason : String) : Tx Nat := do
  let db ← get
  let calls := (db.backgroundApprovalCalls.select fun r =>
    r.principalId = principalId ∧ r.runId = runId ∧ r.decision = none).insertionSort
      fun a b => a.callId ≤ b.callId
  let decisions ← calls.mapM fun call =>
    resolveCall host principalId runId call.callId .denied reason
  return decisions.countP (·.recorded)

/-- Delete settled background targets only after their shared cards retire. -/
def pruneCalls (principalId runId : String) (db : DB) : Bool × DB :=
  if db.backgroundApprovalCalls.Any fun r => r.principalId = principalId ∧ r.runId = runId ∧
      (r.decision = none ∨ (db.approvalCards.get? (principalId, r.deliveryId)).isSome) then
    (false, db)
  else
    (true, { db with
        backgroundApprovalCalls := db.backgroundApprovalCalls.delete fun r =>
          r.principalId = principalId ∧ r.runId = runId })

end BackgroundApprovals

end MindRoom
