import MindRoom.Models
import MindRoom.TurnRecord

/-! # The durable schema

One row type for each table of `event_journal/schema.py`, keyed by the uniqueness constraint
its writers conflict on, and the database that holds them. A `TEXT` column that holds encoded
JSON is the decoded value; the empty text that releases a payload is `none`. The database
also carries the host clock its writers read and one history variable for the proofs.
-/

namespace MindRoom

/-! ## Journal -/

/-- `state IN ('pending', 'settled')`. -/
inductive JournalState where
  | pending
  | settled
deriving DecidableEq, Repr

/-- `matrix_sync_consumers`. -/
structure SyncConsumerRow where
  principalId : String
  consumerGeneration : String
  streamId : Option String
  nextSequence : Int
deriving DecidableEq

instance : Keyed SyncConsumerRow String := ⟨fun r => r.principalId⟩

/-- `journal_events`. -/
structure JournalRow where
  receiptOrder : Nat
  principalId : String
  eventId : String
  roomId : String
  threadId : String
  kind : EventKind
  sender : String
  originServerTs : Int
  sourceJson : Option Dict
  semanticConsumer : Option SemanticConsumer
  membershipEpoch : Int
  state : JournalState
deriving DecidableEq

instance : Keyed JournalRow (String × String) := ⟨fun r => (r.principalId, r.eventId)⟩

/-- `room_member_joins`. -/
structure RoomMemberJoinRow where
  principalId : String
  roomId : String
  userId : String
  baselineReceiptOrder : Option Nat
  completed : Bool
deriving DecidableEq

instance : Keyed RoomMemberJoinRow (String × String × String) :=
  ⟨fun r => (r.principalId, r.roomId, r.userId)⟩

/-- `matrix_ingestion_membership`: the last admitted producer position. -/
structure IngestionMembershipRow where
  principalId : String
  roomId : String
  membership : CanonicalMembership
  membershipEpoch : Int
deriving DecidableEq

instance : Keyed IngestionMembershipRow (String × String) := ⟨fun r => (r.principalId, r.roomId)⟩

/-- `room_membership`: the journal tenure. -/
structure RoomMembershipRow where
  principalId : String
  roomId : String
  membershipEpoch : Int
  departureFenced : Bool
deriving DecidableEq

instance : Keyed RoomMembershipRow (String × String) := ⟨fun r => (r.principalId, r.roomId)⟩

/-! ## Projection -/

/-- `visible_messages`: one row per logical message. -/
structure VisibleMessageRow where
  principalId : String
  roomId : String
  logicalEventId : String
  threadId : String
  sender : String
  createdTs : Int
  revisionEventId : String
  revisionTs : Int
  contentJson : Option Dict
  refreshToken : Option Nat
  membershipEpoch : Int
deriving DecidableEq

instance : Keyed VisibleMessageRow (String × String × String) :=
  ⟨fun r => (r.principalId, r.roomId, r.logicalEventId)⟩

/-- `unresolved_edits`: at most one held edit per target and sender. -/
structure UnresolvedEditRow where
  principalId : String
  roomId : String
  targetEventId : String
  sender : String
  editEventId : String
  editTs : Int
  contentJson : Dict
deriving DecidableEq

instance : Keyed UnresolvedEditRow (String × String × String × String) :=
  ⟨fun r => (r.principalId, r.roomId, r.targetEventId, r.sender)⟩

/-- `redaction_tombstones`. -/
structure TombstoneRow where
  principalId : String
  roomId : String
  redactedEventId : String
deriving DecidableEq

instance : Keyed TombstoneRow (String × String × String) :=
  ⟨fun r => (r.principalId, r.roomId, r.redactedEventId)⟩

/-- The payload `_prompt_json` stores, its mappings sorted by key. -/
structure PromptJson where
  questionText : String
  options : List (String × String)
  optionLabels : List (String × String)
deriving DecidableEq

/-- `interactive_questions`: one immutable prompt revision. -/
structure InteractiveQuestionRow where
  principalId : String
  questionEventId : String
  revisionEventId : String
  roomId : String
  questionJson : PromptJson
  consumedBySourceEventId : Option String
deriving DecidableEq

instance : Keyed InteractiveQuestionRow (String × String × String) :=
  ⟨fun r => (r.principalId, r.questionEventId, r.revisionEventId)⟩

/-- `interactive_selections`: the prompt snapshot of one source. -/
structure InteractiveSelectionRow where
  principalId : String
  sourceEventId : String
  questionEventId : String
  revisionEventId : String
  selectionKey : String
deriving DecidableEq

instance : Keyed InteractiveSelectionRow (String × String) :=
  ⟨fun r => (r.principalId, r.sourceEventId)⟩

/-- `conversation_hydration`. -/
structure HydrationRow where
  principalId : String
  roomId : String
  threadId : String
  membershipEpoch : Int
  complete : Bool
  attemptedPolicyRank : Int
deriving DecidableEq

instance : Keyed HydrationRow (String × String × String) :=
  ⟨fun r => (r.principalId, r.roomId, r.threadId)⟩

/-- `state IN ('repairable', 'truncated', 'repaired')`. -/
inductive RecoveryRowState where
  | repairable
  | truncated
  | repaired
deriving DecidableEq, Repr

/-- `room_history_recovery`. -/
structure HistoryRecoveryRow where
  principalId : String
  roomId : String
  state : RecoveryRowState
  revision : Nat
  attemptedPolicyRank : Int
deriving DecidableEq

instance : Keyed HistoryRecoveryRow (String × String) := ⟨fun r => (r.principalId, r.roomId)⟩

/-! ## Outbox -/

/-- `matrix_delivery_outbox`. -/
structure OutboxRow where
  principalId : String
  deliveryId : String
  stage : DeliveryStage
  eventType : String
  roomId : String
  membershipEpoch : Int
  threadId : String
  transactionId : String
  payloadJson : Dict
  resultJson : Option Dict
  editsEventId : Option String
  editTargetPending : Bool
  attempted : Bool
  retired : Bool
  permanentFailureReason : Option String
  sendingDeviceId : Option String
  acknowledgedEventId : Option String
  createdAtNs : Int
deriving DecidableEq

instance : Keyed OutboxRow (String × String × DeliveryStage) :=
  ⟨fun r => (r.principalId, r.deliveryId, r.stage)⟩

/-! ## Approvals -/

/-- `approval_cards`. -/
structure ApprovalCardRow where
  principalId : String
  deliveryId : String
  continuationId : String
  continuationGeneration : Int
  toolCallId : String
  membershipEpoch : Int
deriving DecidableEq

instance : Keyed ApprovalCardRow (String × String) := ⟨fun r => (r.principalId, r.deliveryId)⟩

/-- `background_approval_calls`, keyed by `UNIQUE (principal_id, run_id, call_id)`. -/
structure BackgroundCallRow where
  principalId : String
  deliveryId : String
  runId : String
  callId : String
  expiresAtNs : Int
  decision : Option Decision
  reason : Option String
deriving DecidableEq

instance : Keyed BackgroundCallRow (String × String × String) :=
  ⟨fun r => (r.principalId, r.runId, r.callId)⟩

/-- `approval_action_tombstones`. -/
structure ActionTombstoneRow where
  principalId : String
  roomId : String
  cardEventId : String
deriving DecidableEq

instance : Keyed ActionTombstoneRow (String × String) := ⟨fun r => (r.principalId, r.cardEventId)⟩

/-- `state IN ('waiting', 'ready', 'claimed', 'failing')`. -/
inductive ContinuationState where
  | waiting
  | ready
  | claimed
  | failing
deriving DecidableEq, Repr

/-- The stored response snapshot of a paused run: the members the journal reads or replaces,
and the rest of the object, which it only carries. `showToolCalls` is absent from the
snapshots that predate it. -/
structure ContinuationContext where
  runId : String
  sessionId : String
  roomId : String
  threadId : Option ThreadId
  requesterId : String
  responseEventId : String
  responseText : String
  responseToolTrace : List Dict
  responsePresentationState : Dict
  showToolCalls : Option Bool
  snapshot : Dict
deriving DecidableEq

/-- `approval_continuations`, keyed by `approval_id UNIQUE`. -/
structure ContinuationRow where
  principalId : String
  approvalId : String
  entityName : String
  state : ContinuationState
  generation : Int
  runtimeGeneration : Option String
  failureReason : Option String
  contextJson : ContinuationContext
  createdAtNs : Int
deriving DecidableEq

instance : Keyed ContinuationRow String := ⟨fun r => r.approvalId⟩

/-- `approval_continuation_sources`, keyed by `UNIQUE (principal_id, event_id)`. -/
structure ContinuationSourceRow where
  principalId : String
  approvalId : String
  eventId : String
  sourceOrdinal : Nat
deriving DecidableEq

instance : Keyed ContinuationSourceRow (String × String) := ⟨fun r => (r.principalId, r.eventId)⟩

/-- `approval_continuation_calls`. -/
structure ContinuationCallRow where
  principalId : String
  approvalId : String
  generation : Int
  toolCallId : String
  callOrdinal : Nat
  toolName : String
  invokingAgent : String
  expiresAtNs : Int
  decision : Option Decision
  reason : Option String
  humanApprovalRequired : Option Bool
deriving DecidableEq

instance : Keyed ContinuationCallRow (String × String × Int × String) :=
  ⟨fun r => (r.principalId, r.approvalId, r.generation, r.toolCallId)⟩

/-- `approval_grant_cards`. -/
structure GrantCardRow where
  principalId : String
  deliveryId : String
  continuationId : String
  continuationGeneration : Int
  toolCallId : String
  scopeKey : String
  roomId : String
  threadId : String
  requesterId : String
  entityName : String
  invokingAgent : String
  operation : String
  responderPrincipalId : String
  responderEpoch : Int
  membershipEpoch : Int
  grantId : Option String
deriving DecidableEq

instance : Keyed GrantCardRow (String × String) := ⟨fun r => (r.principalId, r.deliveryId)⟩

/-- `approval_grants`. -/
structure GrantRow where
  principalId : String
  grantId : String
  scopeKey : String
  roomId : String
  threadId : String
  cardEventId : String
  requesterId : String
  entityName : String
  invokingAgent : String
  operation : String
  responderPrincipalId : String
  responderEpoch : Int
  membershipEpoch : Int
  expiresAtNs : Int
  revokedAtNs : Option Int
  resolutionJson : Option Dict
  originalDeliveryId : String
deriving DecidableEq

instance : Keyed GrantRow (String × String) := ⟨fun r => (r.principalId, r.grantId)⟩

/-- `turn_records`. -/
structure TurnRecordRow where
  agentName : String
  indexEventId : String
  anchorEventId : String
  recordJson : TurnRecord
deriving DecidableEq

instance : Keyed TurnRecordRow (String × String) := ⟨fun r => (r.agentName, r.indexEventId)⟩

/-! ## The database -/

/-- Every table of the store. `receiptOrderSeq` is the surrogate key sequence of
`journal_events`, never reused after a rolled-back or ignored insert commits. `clock` is the
rest of the readings of `time.time_ns()`. `folded` is a history variable: the events the
projection folded, latest last, with the principal they were folded for. Nothing reads it. -/
structure DB where
  matrixSyncConsumers : Table SyncConsumerRow
  receiptOrderSeq : Nat
  journalEvents : Table JournalRow
  roomMemberJoins : Table RoomMemberJoinRow
  matrixIngestionMembership : Table IngestionMembershipRow
  roomMembership : Table RoomMembershipRow
  visibleMessages : Table VisibleMessageRow
  unresolvedEdits : Table UnresolvedEditRow
  redactionTombstones : Table TombstoneRow
  interactiveQuestions : Table InteractiveQuestionRow
  interactiveSelections : Table InteractiveSelectionRow
  conversationHydration : Table HydrationRow
  roomHistoryRecovery : Table HistoryRecoveryRow
  matrixDeliveryOutbox : Table OutboxRow
  approvalCards : Table ApprovalCardRow
  backgroundApprovalCalls : Table BackgroundCallRow
  approvalActionTombstones : Table ActionTombstoneRow
  approvalContinuations : Table ContinuationRow
  approvalContinuationSources : Table ContinuationSourceRow
  approvalContinuationCalls : Table ContinuationCallRow
  approvalGrantCards : Table GrantCardRow
  approvalGrants : Table GrantRow
  turnRecords : Table TurnRecordRow
  clock : ℕ → Int
  folded : List (String × ProjectedEvent)

/-- The store before its first transaction, on a host with the given clock. -/
def DB.init (clock : ℕ → Int) : DB where
  matrixSyncConsumers := ∅
  receiptOrderSeq := 0
  journalEvents := ∅
  roomMemberJoins := ∅
  matrixIngestionMembership := ∅
  roomMembership := ∅
  visibleMessages := ∅
  unresolvedEdits := ∅
  redactionTombstones := ∅
  interactiveQuestions := ∅
  interactiveSelections := ∅
  conversationHydration := ∅
  roomHistoryRecovery := ∅
  matrixDeliveryOutbox := ∅
  approvalCards := ∅
  backgroundApprovalCalls := ∅
  approvalActionTombstones := ∅
  approvalContinuations := ∅
  approvalContinuationSources := ∅
  approvalContinuationCalls := ∅
  approvalGrantCards := ∅
  approvalGrants := ∅
  turnRecords := ∅
  clock := clock
  folded := []

end MindRoom
