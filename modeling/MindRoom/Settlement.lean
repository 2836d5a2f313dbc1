import MindRoom.Questions
import MindRoom.Outbox

/-! # Settlement and semantic consumers

The statements of `event_journal/journal.py` that end or hand over the semantic work of
admitted events. A journal row is never deleted: settling releases its payload and keeps it
as the proof that the event had its one turn.
-/

namespace MindRoom

/-- `UPDATE journal_events SET state = 'settled', source_json = '', semantic_consumer = NULL
WHERE state = 'pending' AND p`. -/
def settleRows (p : JournalRow → Prop) [DecidablePred p] (db : DB) : DB :=
  { db with
    journalEvents := db.journalEvents.update (fun r => r.state = .pending ∧ p r)
      (fun r => { r with state := .settled, sourceJson := none, semanticConsumer := none }) }

/-- Mark one event's semantic work terminal and release its replay payload. -/
def settle (principalId eventId : String) (db : DB) : DB :=
  let db := settleRows (fun r => key r = (principalId, eventId)) db
  { db with
    interactiveSelections := db.interactiveSelections.delete
      fun s => key s = (principalId, eventId) }

def settleMany (principalId : String) (eventIds : List String) (db : DB) : DB :=
  eventIds.foldl (fun db eventId => settle principalId eventId db) db

/-- Retire tombstoned turn ingress unless a durable continuation owns it. -/
def settleTombstonedTurnSource (principalId roomId eventId : String) (db : DB) : DB :=
  settleRows (fun r => key r = (principalId, eventId) ∧ r.roomId = roomId ∧
    r.kind ∈ turnBackedKinds ∧ ¬ ApprovalOwnsDelivery db principalId eventId) db

/-- `UPDATE journal_events SET semantic_consumer = COALESCE(semantic_consumer, ?)` for one
pending event. -/
def coalesceConsumer (principalId eventId : String) (consumer : SemanticConsumer) (db : DB) : DB :=
  { db with
    journalEvents := db.journalEvents.update
      (fun r => key r = (principalId, eventId) ∧ r.state = .pending)
      (fun r => { r with semanticConsumer := some (r.semanticConsumer.getD consumer) }) }

/-- Record the sole consumer, or retire a stale interactive reaction. -/
def claimSemanticConsumer (principalId eventId : String) (consumer : SemanticConsumer) :
    Tx (Option SemanticConsumer) := do
  let db ← get
  match pendingAt db principalId eventId with
  | none =>
    throw (.runtimeError
      ("Cannot claim a consumer for settled or missing event '" ++ eventId ++ "'"))
  | some row =>
    modify (coalesceConsumer principalId eventId consumer)
    let claimed := row.semanticConsumer.getD consumer
    if claimed = .interactiveReaction ∧ row.kind = .reaction ∧
        row.membershipEpoch ≠ currentMembershipEpoch db principalId row.roomId then
      modify (settle principalId eventId)
      return none
    return some claimed

/-- The room and membership that admitted one event, or nothing. -/
def admittedMembershipOwner (db : DB) (principalId eventId : String) : Option (String × Int) :=
  (journalAt db principalId eventId).map fun r => (r.roomId, r.membershipEpoch)

end MindRoom
