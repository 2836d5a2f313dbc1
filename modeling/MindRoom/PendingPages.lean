import MindRoom.Keyset
import MindRoom.Schema

/-! # Pages of pending events

`_pending_page` of `event_journal/journal.py`: the pending rows of one principal are read in receipt
order, a bounded page behind a cursor at a time. A row whose payload cannot be read is left out of the
page and still counts for the cursor. Here a row holds its columns as they are stored, so that it may be
unreadable.
-/

namespace MindRoom

/-- One row of `journal_events` with its text columns unread. -/
structure StoredEvent where
  receiptOrder : Int
  principalId : String
  eventId : String
  roomId : String
  threadId : String
  kind : String
  sender : String
  originServerTs : Int
  sourceJson : String
  semanticConsumer : Option String
  state : JournalState
deriving DecidableEq

instance : Keyed StoredEvent Int := ⟨fun r => r.receiptOrder⟩

structure JournalEvent where
  eventId : String
  roomId : String
  threadId : Option ThreadId
  kind : EventKind
  sender : String
  originServerTs : Int
  source : Dict
  receiptOrder : Int
  semanticConsumer : Option SemanticConsumer

def EventKind.value : EventKind → String
  | .message => "message"
  | .media => "media"
  | .scheduleTrigger => "schedule_trigger"
  | .reaction => "reaction"
  | .approval => "approval"
  | .roomLifecycle => "room_lifecycle"
  | .rtc => "rtc"
  | .redaction => "redaction"
  | .opaqueHistory => "opaque_history"

/-- `EventKind(value)`. -/
def EventKind.ofValue? (value : String) : Option EventKind :=
  [.message, .media, .scheduleTrigger, .reaction, .approval, .roomLifecycle, .rtc, .redaction,
    .opaqueHistory].find? fun kind => EventKind.value kind = value

def SemanticConsumer.value : SemanticConsumer → String
  | .approvalReply => "approval_reply"
  | .configConfirmation => "config_confirmation"
  | .toolApprovalReaction => "tool_approval_reaction"
  | .stopReaction => "stop_reaction"
  | .interactiveReaction => "interactive_reaction"
  | .reactionHooks => "reaction_hooks"

/-- `SemanticConsumer(value)`. -/
def SemanticConsumer.ofValue? (value : String) : Option SemanticConsumer :=
  [.approvalReply, .configConfirmation, .toolApprovalReaction, .stopReaction, .interactiveReaction,
    .reactionHooks].find? fun consumer => SemanticConsumer.value consumer = value

/-- The tables that one page is read from. -/
structure Backlog where
  journalEvents : Table StoredEvent
  approvalContinuationSources : Table ContinuationSourceRow
  approvalContinuations : Table ContinuationRow
  matrixDeliveryOutbox : Table OutboxRow

/-- One bounded pass over the pending backlog, and where that pass stopped. -/
structure PendingPage where
  events : List JournalEvent
  resumeAfter : Option Int
  reachedEnd : Bool
  unreadableRows : Nat

namespace PendingPages

/-! ## Decoding -/

def sourceObject? : Json → Option Dict
  | .obj fields => some fields
  | _ => none

/-- The source of a row: the empty text that releases a payload is the empty object. `loads` reads a text
as `json.loads` does, and gives nothing where that raises. -/
def sourceOf (loads : String → Option Json) (row : StoredEvent) : Option Dict :=
  if row.sourceJson = "" then some [] else (loads row.sourceJson).bind sourceObject?

def journalEvent (loads : String → Option Json) (row : StoredEvent) : Option JournalEvent := do
  let source ← sourceOf loads row
  let kind ← EventKind.ofValue? row.kind
  let semanticConsumer ← row.semanticConsumer.elim (some none) fun value =>
    (SemanticConsumer.ofValue? value).map some
  return {
    eventId := row.eventId
    roomId := row.roomId
    threadId := decodeThreadId row.threadId
    kind := kind
    sender := row.sender
    originServerTs := row.originServerTs
    source := source
    receiptOrder := row.receiptOrder
    semanticConsumer := semanticConsumer }

def decodeRows (loads : String → Option Json) (rows : List StoredEvent) : List JournalEvent :=
  rows.filterMap (journalEvent loads)

theorem receiptOrder_of_journalEvent {loads : String → Option Json} {row : StoredEvent} {event : JournalEvent}
    (h : journalEvent loads row = some event) : event.receiptOrder = row.receiptOrder := by
  unfold journalEvent at h
  simp only [Option.bind_eq_bind, Option.bind_eq_some_iff, Option.pure_def, Option.some.injEq] at h
  rcases h with ⟨source, _, kind, _, semanticConsumer, _, rfl⟩
  rfl

/-! ## Queries -/

/-- Whether a paused run may go on from its first source. -/
def Resumable (b : Backlog) (runtimeGeneration : String) (row : StoredEvent) (continuation : ContinuationRow) :
    Prop :=
  continuation.state = .ready ∨ continuation.state = .failing ∨
  (continuation.state = .waiting ∧ ∃ g ∈ continuation.runtimeGeneration, g ≠ runtimeGeneration) ∨
  (continuation.state = .claimed ∧
    (continuation.runtimeGeneration = none ∨ (∃ g ∈ continuation.runtimeGeneration, g ≠ runtimeGeneration) ∨
      b.matrixDeliveryOutbox.Any fun approvalFinal => approvalFinal.principalId = row.principalId ∧
        approvalFinal.deliveryId = row.eventId ∧ approvalFinal.stage = .final))

instance (b : Backlog) (runtimeGeneration : String) (row : StoredEvent) (continuation : ContinuationRow) :
    Decidable (Resumable b runtimeGeneration row continuation) := by
  unfold Resumable
  infer_instance

/-- `continuation_joins`: the source that a row is of a paused run. -/
def approvalSource (b : Backlog) (row : StoredEvent) : Option ContinuationSourceRow :=
  b.approvalContinuationSources.get? (row.principalId, row.eventId)

/-- `continuation_joins`: the paused run of a source. -/
def continuationOf (b : Backlog) (source : ContinuationSourceRow) : Option ContinuationRow :=
  (b.approvalContinuations.get? source.approvalId).filter (·.principalId = source.principalId)

/-- `continuation_clause`: a row that is no source of a paused run, or the first source of one that may go
on. -/
def ContinuationClause (b : Backlog) (runtimeGeneration : String) (row : StoredEvent) : Prop :=
  ∀ source ∈ approvalSource b row, source.sourceOrdinal = 0 ∧
    ∃ continuation ∈ continuationOf b source, Resumable b runtimeGeneration row continuation

instance (b : Backlog) (runtimeGeneration : String) (row : StoredEvent) :
    Decidable (ContinuationClause b runtimeGeneration row) := by
  unfold ContinuationClause
  infer_instance

/-- The rows that the pending query asks for, wherever its cursor stands. -/
structure Pending (b : Backlog) (principalId runtimeGeneration : String) (kind : Option EventKind)
    (roomId : Option String) (row : StoredEvent) : Prop where
  principalId : row.principalId = principalId
  state : row.state = .pending
  continuation : ContinuationClause b runtimeGeneration row
  kind : ∀ k ∈ kind, row.kind = k.value
  roomId : ∀ r ∈ roomId, row.roomId = r

instance (b : Backlog) (principalId runtimeGeneration : String) (kind : Option EventKind)
    (roomId : Option String) : DecidablePred (Pending b principalId runtimeGeneration kind roomId) := fun row =>
  decidable_of_iff (row.principalId = principalId ∧ row.state = .pending ∧
      ContinuationClause b runtimeGeneration row ∧ (∀ k ∈ kind, row.kind = k.value) ∧
      ∀ r ∈ roomId, row.roomId = r)
    ⟨fun h => ⟨h.1, h.2.1, h.2.2.1, h.2.2.2.1, h.2.2.2.2⟩,
      fun h => ⟨h.principalId, h.state, h.continuation, h.kind, h.roomId⟩⟩

/-- Receipt order, as the order of a page: the oldest row is read first. -/
def order (receiptOrder : Int) : Intᵒᵈ := OrderDual.toDual receiptOrder

def pendingRows (b : Backlog) (principalId : String) (limit : Nat) (afterReceiptOrder : Option Int)
    (roomId : Option String) (kind : Option EventKind) (runtimeGeneration : String) : List StoredEvent :=
  (Keyset.newest (fun row => order row.receiptOrder) (b.journalEvents.select fun row =>
    Pending b principalId runtimeGeneration kind roomId row ∧ ∀ c ∈ afterReceiptOrder, c < row.receiptOrder)).take
      limit

def pendingPage (loads : String → Option Json) (b : Backlog) (principalId : String) (limit : Nat)
    (afterReceiptOrder : Option Int) (roomId : Option String) (kind : Option EventKind)
    (runtimeGeneration : String) : PendingPage :=
  let rows := pendingRows b principalId limit afterReceiptOrder roomId kind runtimeGeneration
  let events := decodeRows loads rows
  { events := events
    resumeAfter := rows.getLast?.elim afterReceiptOrder fun row => some row.receiptOrder
    reachedEnd := rows.length < limit
    unreadableRows := rows.length - events.length }

/-! ## The backlog behind the pages -/

variable {loads : String → Option Json} {b : Backlog} {principalId runtimeGeneration : String} {limit : Nat}
  {afterReceiptOrder : Option Int} {roomId : Option String} {kind : Option EventKind} {row : StoredEvent}

def backlogRows (b : Backlog) (principalId : String) (roomId : Option String) (kind : Option EventKind)
    (runtimeGeneration : String) : List StoredEvent :=
  Keyset.newest (fun row => order row.receiptOrder)
    (b.journalEvents.select (Pending b principalId runtimeGeneration kind roomId))

theorem mem_backlogRows : row ∈ backlogRows b principalId roomId kind runtimeGeneration ↔
    row ∈ b.journalEvents ∧ Pending b principalId runtimeGeneration kind roomId row := by
  unfold backlogRows
  rw [Keyset.mem_newest, Table.mem_select]

/-- Receipt orders are the primary key, so no two rows of a query share one. -/
theorem nodup_select (p : StoredEvent → Prop) [DecidablePred p] :
    ((b.journalEvents.select p).map fun row => order row.receiptOrder).Nodup := by
  have hkeys : ((b.journalEvents.select p).map key).Nodup :=
    b.journalEvents.primaryKey.sublist (List.filter_sublist.map key)
  have hmap : ((b.journalEvents.select p).map fun row => order row.receiptOrder) =
      ((b.journalEvents.select p).map key).map OrderDual.toDual := by
    rw [List.map_map]
    rfl
  rw [hmap]
  exact hkeys.map OrderDual.toDual.injective

theorem descending_backlogRows : Keyset.Descending (fun row => order row.receiptOrder)
    (backlogRows b principalId roomId kind runtimeGeneration) :=
  Keyset.descending_newest (nodup_select _)

theorem length_backlogRows_le :
    (backlogRows b principalId roomId kind runtimeGeneration).length ≤ b.journalEvents.rows.length := by
  unfold backlogRows Keyset.newest
  rw [List.length_insertionSort]
  exact List.length_filter_le _ _

/-- A page is a page of the backlog's keyset. -/
theorem pendingRows_eq_page : pendingRows b principalId limit afterReceiptOrder roomId kind runtimeGeneration =
    Keyset.page order (fun row => row.receiptOrder) limit afterReceiptOrder
      (backlogRows b principalId roomId kind runtimeGeneration) := by
  unfold pendingRows Keyset.page
  congr 1
  apply (Keyset.descending_newest (nodup_select _)).eq_of_mem descending_backlogRows.older
  intro row
  rw [Keyset.mem_newest, Table.mem_select, Keyset.mem_older, mem_backlogRows, and_assoc]
  rfl

end PendingPages

end MindRoom
