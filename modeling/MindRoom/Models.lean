import MindRoom.Json

/-! # Typed values crossing the event-journal boundary

Enumerations, requests and results of `event_journal/models.py`, with the leaf identity
helpers of `event_journal/identity.py`. Values that the source checks at construction carry
the check in their type.
-/

namespace MindRoom

/-! ## Identities -/

/-- A typed conversation thread. The empty string is reserved for the unthreaded conversation. -/
abbrev ThreadId := { s : String // s ≠ "" }

/-- The single canonical storage value for a conversation thread. -/
def encodeThreadId : Option ThreadId → String
  | none => ""
  | some t => t.val

/-- The typed thread identity for one stored value. -/
def decodeThreadId (storedThreadId : String) : Option ThreadId :=
  if h : storedThreadId = "" then none else some ⟨storedThreadId, h⟩

@[simp] theorem decodeThreadId_encodeThreadId (t : Option ThreadId) : decodeThreadId (encodeThreadId t) = t := by
  cases t with
  | none => rfl
  | some t => simp [decodeThreadId, encodeThreadId, t.property]

@[simp] theorem encodeThreadId_decodeThreadId (s : String) : encodeThreadId (decodeThreadId s) = s := by
  unfold decodeThreadId
  split
  · next h => exact h.symm
  · rfl

/-! ## Event vocabulary -/

/-- Whether an admitted event may start semantic work. -/
inductive EventClass where
  | actionable
  | contextOnly
deriving DecidableEq, Repr

/-- The one semantic purpose an admitted event carries. -/
inductive EventKind where
  | message
  | media
  | scheduleTrigger
  | reaction
  | approval
  | roomLifecycle
  | rtc
  | redaction
  | opaqueHistory
deriving DecidableEq, Repr

/-- `TURN_BACKED_KINDS`: kinds whose work outlives its callback. -/
def turnBackedKinds : List EventKind := [.message, .media, .scheduleTrigger]

/-- The one application consumer that claimed a multi-purpose event. -/
inductive SemanticConsumer where
  | approvalReply
  | configConfirmation
  | toolApprovalReaction
  | stopReaction
  | interactiveReaction
  | reactionHooks
deriving DecidableEq, Repr

inductive AdmissionResult where
  | admitted
  | duplicate
deriving DecidableEq, Repr

inductive IngestionRecordDisposition where
  | semanticEvent
  | roomLifecycle
  | historyLoss
  | compatibilityOnly
deriving DecidableEq, Repr

/-- The delivery points that must survive a crash. -/
inductive DeliveryStage where
  | initial
  | final
deriving DecidableEq, Repr

def DeliveryStage.value : DeliveryStage → String
  | .initial => "initial"
  | .final => "final"

/-- `stage in _DELIVERY_STAGE_VALUES`, with the member it names. -/
def DeliveryStage.ofValue? (s : String) : Option DeliveryStage :=
  if s = "initial" then some .initial else if s = "final" then some .final else none

/-- The producer source of one admitted membership transition. -/
inductive DepartureSource where
  | local
  | reported
deriving DecidableEq, Repr

/-- One terminal decision for an exact tool call. -/
inductive Decision where
  | approved
  | denied
  | expired
deriving DecidableEq, Repr

def Decision.value : Decision → String
  | .approved => "approved"
  | .denied => "denied"
  | .expired => "expired"

def Decision.title : Decision → String
  | .approved => "Approved"
  | .denied => "Denied"
  | .expired => "Expired"

/-- `_MATRIX_MEMBERSHIPS`. -/
inductive MatrixMembership where
  | ban
  | invite
  | join
  | knock
  | leave
deriving DecidableEq, Repr

/-- A canonical membership, `"join"` or `"leave"`. -/
inductive CanonicalMembership where
  | join
  | leave
deriving DecidableEq, Repr

/-- `"join" if m == "join" else "leave"`. -/
def MatrixMembership.canonical (m : MatrixMembership) : CanonicalMembership :=
  if m = .join then .join else .leave

/-- A canonical membership and epoch within its journal or producer domain. -/
structure RoomMembershipPosition where
  membership : CanonicalMembership
  membershipEpoch : Int
deriving DecidableEq

/-! ## Events -/

/-- One event's projection-relevant shape, extracted from its Matrix source. -/
structure ProjectedEvent where
  eventId : String
  roomId : String
  threadId : Option ThreadId
  sender : String
  originServerTs : Int
  content : Dict
  replacesEventId : Option String
  redactsEventId : Option String
  transactionId : Option String
deriving DecidableEq

/-- One Matrix event offered to durable admission. -/
structure InboundEvent where
  eventId : String
  roomId : String
  threadId : Option ThreadId
  kind : EventKind
  eventClass : EventClass
  sender : String
  originServerTs : Int
  source : Dict
deriving DecidableEq

structure IngestionRecordAdmission where
  disposition : IngestionRecordDisposition
  source : Option DepartureSource
  roomId : Option String
  previousMembership : Option MatrixMembership
  membership : Option MatrixMembership
  previousMembershipEpoch : Option Int
  membershipEpoch : Option Int
  event : Option InboundEvent
  projected : Option ProjectedEvent
deriving DecidableEq

/-- Ordered effects from one batch on the principal-bound stream. -/
structure IngestionBatchAdmission where
  streamId : String
  sequence : Int
  records : List IngestionRecordAdmission
deriving DecidableEq

/-- Receipt novelty and fresh semantic-dispatch eligibility of one record. A new semantic
effect requires a new receipt. -/
structure RecordFacts where
  receiptNew : Bool
  semanticEventNew : Bool
  semanticNeedsReceipt : semanticEventNew = true → receiptNew = true

/-- The facts of a whole batch, with those of its records in order. -/
structure AdmissionFacts extends RecordFacts where
  recordFacts : List RecordFacts

/-! ## Rooms and history -/

/-- Whether a room's unknown missing interval still needs a proof walk. -/
inductive HistoryRecoveryState where
  | repairable
  | truncated
deriving DecidableEq, Repr

/-- One room's durable obligation and the widest policy spent on it. -/
structure RoomHistoryRecovery where
  roomId : String
  state : HistoryRecoveryState
  revision : Nat
  attemptedPolicyRank : Int
deriving DecidableEq

/-- What one attempted settlement did to a recovery obligation. -/
inductive HistoryRecoveryOutcome where
  | repaired
  | truncated
  | superseded
deriving DecidableEq, Repr

/-- A logical message whose visible revision must be refetched. -/
structure RefreshRequest where
  roomId : String
  threadId : Option ThreadId
  logicalEventId : String
  revisionEventId : String
  refreshToken : Nat
  membershipEpoch : Int
deriving DecidableEq

/-! ## Errors -/

/-- The places an `IngestionBatchIntegrityError` is raised from, all without a text. -/
inductive IntegrityCheck where
  /-- `_require_matching_semantic_event`: no row -/
  | semanticEventMissing
  /-- `_require_matching_semantic_event`: room, sender or timestamp -/
  | semanticEnvelope
  /-- `_require_matching_semantic_event`: kind or thread -/
  | semanticKind
  /-- `_apply_membership_effect`: the producer's epoch -/
  | producerEpoch
  /-- `_apply_membership_effect`: the producer's membership -/
  | producerMembership
  /-- `_apply_membership_effect`: the room is already fenced -/
  | departureAlreadyFenced
  /-- `_claim_membership_state`: a negative epoch -/
  | membershipState
  /-- `ingestion_membership_position`: a negative epoch -/
  | producerState
deriving DecidableEq, Repr

/-- What a transaction raises. The transaction is then rolled back. -/
inductive StoreError where
  | valueError (msg : String)
  | typeError (msg : String)
  | runtimeError (msg : String)
  | keyError (key : String)
  | assertionError (msg : String)
  | ingestionBatchValidation (msg : String)
  | ingestionBatchIntegrity (check : IntegrityCheck)
  | ingestionBatchSequence
  | ingestionConsumerBinding (msg : String)
  | deliveryProjectionPending (msg : String)
  /-- a `UNIQUE`, `FOREIGN KEY` or `CHECK` constraint of the named table -/
  | constraint (table : String)
deriving DecidableEq, Repr

end MindRoom
