import MindRoom.ApprovalCards
import MindRoom.Projection

/-! # Paused runs

`event_journal/approval_continuations.py` and `legacy_approval_recovery.py`: a run that waits
for approvals is owned by its original journal sources. It is created while they are pending,
claimed for one execution attempt, advanced to its next pause, and released when its FINAL
delivery is terminal.
-/

namespace MindRoom

/-- One exact tool call in the current paused generation. -/
structure ApprovalCall where
  toolCallId : String
  toolName : String
  invokingAgent : String
  expiresAtNs : Int
  decision : Option Decision
  reason : Option String
  humanApprovalRequired : Option Bool
deriving DecidableEq

/-- The context required to continue one persisted pause. -/
structure ApprovalContinuation where
  approvalId : String
  entityName : String
  context : ContinuationContext
  sourceEventIds : List String
  calls : List ApprovalCall
  state : ContinuationState
  runtimeGeneration : Option String
  failureReason : Option String
  generation : Int
deriving DecidableEq

namespace ApprovalContinuations

/-! ## Reads -/

def rowAt (db : DB) (principalId approvalId : String) : Option ContinuationRow :=
  (db.approvalContinuations.get? approvalId).filter (·.principalId = principalId)

def sourcesOf (db : DB) (principalId approvalId : String) : List String :=
  ((db.approvalContinuationSources.select fun r =>
    r.principalId = principalId ∧ r.approvalId = approvalId).insertionSort
      fun a b => a.sourceOrdinal ≤ b.sourceOrdinal).map (·.eventId)

def callOfRow (r : ContinuationCallRow) : ApprovalCall where
  toolCallId := r.toolCallId
  toolName := r.toolName
  invokingAgent := r.invokingAgent
  expiresAtNs := r.expiresAtNs
  decision := r.decision
  reason := r.reason
  humanApprovalRequired := r.humanApprovalRequired

def callRows (db : DB) (principalId approvalId : String) (generation : Int) :
    List ContinuationCallRow :=
  (db.approvalContinuationCalls.select fun r =>
    r.principalId = principalId ∧ r.approvalId = approvalId ∧ r.generation = generation).insertionSort
      fun a b => a.callOrdinal ≤ b.callOrdinal

/-- One continuation with its exact ordered sources and calls. -/
def load (db : DB) (principalId approvalId : String) : Option ApprovalContinuation :=
  (rowAt db principalId approvalId).map fun row =>
    { approvalId := row.approvalId
      entityName := row.entityName
      context := row.contextJson
      sourceEventIds := sourcesOf db principalId approvalId
      calls := (callRows db principalId approvalId row.generation).map callOfRow
      state := row.state
      runtimeGeneration := row.runtimeGeneration
      failureReason := row.failureReason
      generation := row.generation }

def Undecided (db : DB) (principalId approvalId : String) (generation : Int) : Prop :=
  db.approvalContinuationCalls.Any fun r => r.principalId = principalId ∧
    r.approvalId = approvalId ∧ r.generation = generation ∧ r.decision = none

instance (db : DB) (principalId approvalId : String) (generation : Int) :
    Decidable (Undecided db principalId approvalId generation) :=
  inferInstanceAs (Decidable (Table.Any _ _))

/-! ## Statements -/

/-- `UPDATE approval_continuations SET f WHERE p`. -/
def updateRows (p : ContinuationRow → Prop) [DecidablePred p] (f : ContinuationRow → ContinuationRow)
    (hf : ∀ r, key (f r) = key r := by intro _; rfl) (db : DB) : DB :=
  { db with approvalContinuations := db.approvalContinuations.update p f hf }

/-- `DELETE FROM approval_continuations WHERE p`, with its sources and calls. -/
def deleteRows (p : ContinuationRow → Prop) [DecidablePred p] (db : DB) : DB :=
  { db with
    approvalContinuations := db.approvalContinuations.delete p
    approvalContinuationSources := db.approvalContinuationSources.delete fun s =>
      db.approvalContinuations.Any fun c =>
        p c ∧ c.principalId = s.principalId ∧ c.approvalId = s.approvalId
    approvalContinuationCalls := db.approvalContinuationCalls.delete fun k =>
      db.approvalContinuations.Any fun c =>
        p c ∧ c.principalId = k.principalId ∧ c.approvalId = k.approvalId }

def newCallRows (principalId approvalId : String) (generation : Int) (calls : List ApprovalCall) :
    List ContinuationCallRow :=
  calls.mapIdx fun ordinal call =>
    { principalId := principalId
      approvalId := approvalId
      generation := generation
      toolCallId := call.toolCallId
      callOrdinal := ordinal
      toolName := call.toolName
      invokingAgent := call.invokingAgent
      expiresAtNs := call.expiresAtNs
      decision := call.decision
      reason := call.reason
      humanApprovalRequired := call.humanApprovalRequired }

def insertCalls (principalId approvalId : String) (generation : Int) (calls : List ApprovalCall) :
    Tx Unit := do
  let db ← get
  match db.approvalContinuationCalls.insertAll?
      (newCallRows principalId approvalId generation calls) with
  | none => throw (.constraint "approval_continuation_calls")
  | some rows => set { db with approvalContinuationCalls := rows }

def insertSources (principalId approvalId : String) (eventIds : List String) : Tx Unit := do
  let db ← get
  match db.approvalContinuationSources.insertAll? (eventIds.mapIdx fun ordinal eventId =>
      { principalId := principalId
        approvalId := approvalId
        eventId := eventId
        sourceOrdinal := ordinal }) with
  | none => throw (.constraint "approval_continuation_sources")
  | some rows => set { db with approvalContinuationSources := rows }

/-! ## Lifecycle -/

/-- The stored context always says whether tool calls are shown. -/
def frozenContext (context : ContinuationContext) : ContinuationContext :=
  { context with showToolCalls := some (context.showToolCalls.getD true) }

def SourceMissing (db : DB) (principalId : String) (continuation : ApprovalContinuation) : Prop :=
  ∃ eventId ∈ continuation.sourceEventIds,
    ¬ (pendingAt db principalId eventId).any (·.roomId = continuation.context.roomId) = true

instance (db : DB) (principalId : String) (continuation : ApprovalContinuation) :
    Decidable (SourceMissing db principalId continuation) :=
  inferInstanceAs (Decidable (∃ eventId ∈ continuation.sourceEventIds, _))

def newRow (principalId : String) (continuation : ApprovalContinuation) (createdAtNs : Int) :
    ContinuationRow where
  principalId := principalId
  approvalId := continuation.approvalId
  entityName := continuation.entityName
  state := continuation.state
  generation := continuation.generation
  runtimeGeneration := continuation.runtimeGeneration
  failureReason := continuation.failureReason
  contextJson := frozenContext continuation.context
  createdAtNs := createdAtNs

/-- Create one paused-run owner only while all of its sources remain pending. -/
def create (principalId : String) (continuation : ApprovalContinuation) :
    Tx (Option ApprovalContinuation) := do
  match continuation.sourceEventIds with
  | [] => return none
  | deliveryId :: _ =>
    let epoch ← modifyGet (claimActiveMembershipEpoch principalId continuation.context.roomId)
    if epoch = none then
      return none
    let db ← get
    if (outboxAt db principalId deliveryId .initial).any (·.retired) then
      return none
    if SourceMissing db principalId continuation then
      return none
    let now ← timeNs
    let db ← get
    if (db.approvalContinuations.get? continuation.approvalId).isSome then
      return (load db principalId continuation.approvalId).filter (· = continuation)
    modify fun db =>
      { db with
        approvalContinuations := db.approvalContinuations.insertOrIgnore
          (newRow principalId continuation now) }
    insertSources principalId continuation.approvalId continuation.sourceEventIds
    insertCalls principalId continuation.approvalId continuation.generation continuation.calls
    let db ← get
    return load db principalId continuation.approvalId

/-- Freeze an older continuation against the policy available at its first claim. -/
def resolveLegacyVisibility (showToolCalls currentPolicy : Option Bool) : Except StoreError Bool :=
  match showToolCalls, currentPolicy with
  | some shown, _ => pure shown
  | none, some policy => pure policy
  | none, none =>
    throw (.runtimeError "Legacy approval continuation visibility must be resolved before claim")

/-- Move one ready paused run into its single execution attempt. -/
def claim (principalId approvalId runtimeGeneration : String) (legacyShowToolCalls : Option Bool) :
    Tx (Option ApprovalContinuation) := do
  let db ← get
  match load db principalId approvalId with
  | none => return none
  | some current =>
    if current.state ≠ .ready then
      return none
    let shown ← liftM (resolveLegacyVisibility current.context.showToolCalls legacyShowToolCalls)
    modify (updateRows
      (fun r => r.principalId = principalId ∧ r.approvalId = approvalId ∧ r.state = .ready)
      (fun r =>
        { r with
          state := .claimed
          runtimeGeneration := some runtimeGeneration
          contextJson := { current.context with showToolCalls := some shown } })
      (fun _ => rfl))
    let db ← get
    return load db principalId approvalId

/-- The next pause of one run, and what it replaces of the response so far. -/
structure Advance where
  runId : String
  sessionId : String
  calls : List ApprovalCall
  responseText : Option String
  responseToolTrace : Option (List Dict)
  responsePresentationState : Option Dict

def Advance.context (next : Advance) (current : ContinuationContext) : ContinuationContext :=
  { frozenContext current with
    runId := next.runId
    sessionId := next.sessionId
    responseText := next.responseText.getD current.responseText
    responseToolTrace := next.responseToolTrace.getD current.responseToolTrace
    responsePresentationState :=
      next.responsePresentationState.getD current.responsePresentationState }

/-- Replace one claimed generation with the next exact pause. -/
def advance (principalId approvalId : String) (claimantGeneration : Int) (next : Advance) :
    Tx (Option ApprovalContinuation) := do
  let db ← get
  match load db principalId approvalId with
  | none => return none
  | some current =>
    let nextGeneration := claimantGeneration + 1
    if ¬ (current.state = .claimed ∧ current.generation = claimantGeneration) then
      return none
    modify (updateRows
      (fun r => r.principalId = principalId ∧ r.approvalId = approvalId ∧
        r.state = .claimed ∧ r.generation = claimantGeneration)
      (fun r =>
        { r with
          state := .waiting
          generation := nextGeneration
          runtimeGeneration := current.runtimeGeneration
          failureReason := none
          contextJson := next.context current.context })
      (fun _ => rfl))
    insertCalls principalId approvalId nextGeneration next.calls
    let db ← get
    return load db principalId approvalId

/-- Release one publication lease and make its generation decidable or executable. -/
def activate (principalId approvalId : String) (expectedGeneration : Int) (db : DB) :
    Option ApprovalContinuation × DB :=
  let state : ContinuationState :=
    if Undecided db principalId approvalId expectedGeneration then .waiting else .ready
  match (rowAt db principalId approvalId).filter fun r =>
      r.state = .waiting ∧ r.generation = expectedGeneration ∧ r.runtimeGeneration ≠ none with
  | none => (none, db)
  | some _ =>
    let db := updateRows
      (fun r => r.principalId = principalId ∧ r.approvalId = approvalId ∧ r.state = .waiting ∧
        r.generation = expectedGeneration ∧ r.runtimeGeneration ≠ none)
      (fun r => { r with state := state, runtimeGeneration := none }) (fun _ => rfl) db
    (load db principalId approvalId, db)

/-- The FINAL delivery of the continuation's first source stands. -/
def FinalOwnsTurn (db : DB) (principalId approvalId : String) : Prop :=
  db.approvalContinuationSources.Any fun s =>
    s.principalId = principalId ∧ s.approvalId = approvalId ∧ s.sourceOrdinal = 0 ∧
      (outboxAt db principalId s.eventId .final).any
        (·.permanentFailureReason = none) = true

instance (db : DB) (principalId approvalId : String) :
    Decidable (FinalOwnsTurn db principalId approvalId) :=
  inferInstanceAs (Decidable (Table.Any _ _))

/-- Fence one observed continuation state against any later execution. -/
def requestFailure (principalId approvalId reason : String) (expectedState : ContinuationState)
    (expectedGeneration : Int) (expectedRuntimeGeneration : Option String) (db : DB) :
    Option ApprovalContinuation × DB :=
  match (rowAt db principalId approvalId).filter fun r =>
      r.state = expectedState ∧ r.generation = expectedGeneration ∧
        r.runtimeGeneration = expectedRuntimeGeneration ∧
        ¬ FinalOwnsTurn db principalId approvalId with
  | none => (none, db)
  | some _ =>
    let db := updateRows (fun r => r.principalId = principalId ∧ r.approvalId = approvalId)
      (fun r => { r with state := .failing, failureReason := some reason }) (fun _ => rfl) db
    (load db principalId approvalId, db)

/-! ## Release -/

/-- The old deletion state: a retired INITIAL whose sources and response are all redacted. -/
def DeletedDeliveryIsTerminal (db : DB) (principalId : String) (continuation : ApprovalContinuation)
    (deliveryId : String) : Prop :=
  continuation.state = .failing ∧ outboxAt db principalId deliveryId .final = none ∧
    ∃ initial ∈ outboxAt db principalId deliveryId .initial,
      initial.retired = true ∧ initial.roomId = continuation.context.roomId ∧
        initial.acknowledgedEventId = some continuation.context.responseEventId ∧
        ∀ eventId ∈ continuation.sourceEventIds ++ [continuation.context.responseEventId],
          IsTombstoned db principalId continuation.context.roomId eventId

instance (db : DB) (principalId : String) (continuation : ApprovalContinuation)
    (deliveryId : String) :
    Decidable (DeletedDeliveryIsTerminal db principalId continuation deliveryId) :=
  inferInstanceAs (Decidable (_ ∧ _ ∧ ∃ initial ∈ outboxAt db principalId deliveryId .initial, _))

def release (principalId : String) (continuation : ApprovalContinuation) (db : DB) : DB :=
  deleteRows (fun r => r.principalId = principalId ∧ r.approvalId = continuation.approvalId)
    (settleMany principalId continuation.sourceEventIds db)

/-- Release sources after terminal FINAL delivery or proven failed-response deletion. -/
def finish (principalId approvalId : String) : Tx Bool := do
  let db ← get
  match load db principalId approvalId with
  | none => return false
  | some continuation =>
    match continuation.sourceEventIds with
    | [] => throw (.runtimeError "tuple index out of range")
    | deliveryId :: _ =>
      let delivered := (outboxAt db principalId deliveryId .final).any fun r =>
        r.acknowledgedEventId ≠ none ∨ r.permanentFailureReason ≠ none
      if delivered = false ∧
          ¬ DeletedDeliveryIsTerminal db principalId continuation deliveryId then
        return false
      modify (release principalId continuation)
      return true

/-- One membership's delivery identity for an unavailable-owner notice. -/
def unavailableNoticeDeliveryId (approvalId : String) (membershipEpoch : Int) : String :=
  "approval-unavailable:" ++ approvalId ++ ":" ++ toString membershipEpoch

/-- Enqueue the current membership's physical attempt for one logical notice. -/
def enqueueUnavailableNotice (host : Host) (principalId approvalId roomId : String)
    (threadId : Option ThreadId) (payload : Dict) : Tx (Option String) := do
  let epoch ← modifyGet (claimActiveMembershipEpoch principalId roomId)
  match epoch with
  | none => return none
  | some membershipEpoch =>
    let deliveryId := unavailableNoticeDeliveryId approvalId membershipEpoch
    let transactionId ← enqueue host principalId
      { deliveryId := deliveryId
        stage := .final
        eventType := "m.room.message"
        roomId := roomId
        membershipEpoch := membershipEpoch
        threadId := threadId
        payload := payload
        editsEventId := none }
    return transactionId.map fun _ => deliveryId

/-- Release a permanently unavailable owner's sources after visible card cleanup. -/
def discardUnavailable (principalId approvalId noticePrincipalId : String) : Tx Bool := do
  let db ← get
  match load db principalId approvalId with
  | none => return false
  | some continuation =>
    if continuation.state ≠ .failing then
      return false
    let epoch ← modifyGet
      (claimActiveMembershipEpoch noticePrincipalId continuation.context.roomId)
    match epoch with
    | none => return false
    | some membershipEpoch =>
      let deliveryId := unavailableNoticeDeliveryId approvalId membershipEpoch
      let ownership ← modifyGet (claimActiveDeliveryOwnership noticePrincipalId deliveryId .final
        (some continuation.context.roomId))
      if ownership = none then
        return false
      let db ← get
      if (outboxAt db noticePrincipalId deliveryId .final).all
          (·.acknowledgedEventId = none) then
        return false
      modify (release principalId continuation)
      return true

end ApprovalContinuations

end MindRoom
