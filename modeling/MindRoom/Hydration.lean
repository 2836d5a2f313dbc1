import MindRoom.Journal

/-! # Hydration and recovery

The writers of `event_journal/reads.py` and the bounded installs of `event_journal/store.py`:
a walk of the server projects its events in chunks, each under the membership it was issued
for, and publishes what the walk covered once every chunk has committed.
-/

namespace MindRoom

/-! ## Coverage -/

/-- `DO UPDATE SET` of `publish_conversation_hydration`: coverage only grows within one
membership epoch, and a later membership clears it. -/
def growCoverage (excluded r : HydrationRow) : HydrationRow :=
  { r with
    membershipEpoch := excluded.membershipEpoch
    complete :=
      if r.membershipEpoch = excluded.membershipEpoch ∧ r.complete = true then true
      else excluded.complete
    attemptedPolicyRank :=
      if r.membershipEpoch = excluded.membershipEpoch ∧
          excluded.attemptedPolicyRank < r.attemptedPolicyRank then r.attemptedPolicyRank
      else excluded.attemptedPolicyRank }

/-- Publish hydration after the caller has claimed its membership epoch. -/
def publishConversationHydration (row : HydrationRow) (db : DB) : DB :=
  { db with
    conversationHydration := db.conversationHydration.upsert row (fun _ => True)
      (growCoverage row) }

def hydrationRow (principalId roomId : String) (threadId : Option ThreadId) (complete : Bool)
    (attemptedPolicyRank membershipEpoch : Int) : HydrationRow where
  principalId := principalId
  roomId := roomId
  threadId := encodeThreadId threadId
  membershipEpoch := membershipEpoch
  complete := complete
  attemptedPolicyRank := attemptedPolicyRank

/-- Publish a completed hydration, unless membership moved under it. -/
def markConversationHydrated (principalId roomId : String) (threadId : Option ThreadId)
    (complete : Bool) (attemptedPolicyRank expectedMembershipEpoch : Int) (db : DB) : Bool × DB :=
  let (current, db) := claimMembershipEpoch principalId roomId expectedMembershipEpoch db
  if current = false then (false, db)
  else
    (true, publishConversationHydration
        (hydrationRow principalId roomId threadId complete attemptedPolicyRank
          expectedMembershipEpoch) db)

/-! ## Reading the coverage -/

/-- The obligation of the room that is not repaired, in the state it is in. -/
def openRecoveryState (db : DB) (principalId roomId : String) : Option RecoveryRowState :=
  ((db.roomHistoryRecovery.get? (principalId, roomId)).filter (·.state ≠ .repaired)).map (·.state)

/-- `_current_hydration`: this conversation's hydration row with the room's open obligation, if it
still speaks for the room. A repairable obligation withholds every marker in the room. -/
def currentHydration (db : DB) (principalId roomId : String) (threadId : Option ThreadId) :
    Option (HydrationRow × Option RecoveryRowState) := do
  let row ← db.conversationHydration.get? (principalId, roomId, encodeThreadId threadId)
  let recoveryState := openRecoveryState db principalId roomId
  if row.membershipEpoch ≠ currentMembershipEpoch db principalId roomId then none
  else if recoveryState = some .repairable then none
  else some (row, recoveryState)

/-- `conversation_is_complete`: the walk that hydrated this conversation reached its end. -/
def conversationIsComplete (db : DB) (principalId roomId : String) (threadId : Option ThreadId) :
    Bool :=
  match currentHydration db principalId roomId threadId with
  | none => false
  | some (row, recoveryState) => row.complete && recoveryState.isNone

/-! ## Chunks -/

def projectChunk (principalId : String) (events : List ProjectedEvent) (membershipEpoch : Int)
    (db : DB) : DB :=
  events.foldl (fun db event => (project principalId event 0 membershipEpoch db).2) db

/-- `_install_hydration_chunk`: project one chunk only while its membership epoch is current. -/
def installHydrationChunk (principalId roomId : String) (events : List ProjectedEvent)
    (expectedMembershipEpoch : Int) (db : DB) : Bool × DB :=
  let (current, db) := claimMembershipEpoch principalId roomId expectedMembershipEpoch db
  if current = false then (false, db)
  else (true, projectChunk principalId events expectedMembershipEpoch db)

/-- `_install_room_history_recovery_chunk`: project one chunk only while its membership and
exact recovery stand. -/
def installRecoveryChunk (principalId : String) (recovery : RoomHistoryRecovery)
    (events : List ProjectedEvent) (expectedMembershipEpoch : Int) (db : DB) : Bool × DB :=
  let (current, db) := claimMembershipEpoch principalId recovery.roomId expectedMembershipEpoch db
  if current = false then (false, db)
  else if ¬ ClaimsRoomHistoryRecovery db principalId recovery then (false, db)
  else (true, projectChunk principalId events expectedMembershipEpoch db)

/-- `_settle_history_recovery`: publish a recovery and settle its exact obligation in one
transaction. -/
def settleHistoryRecovery (principalId : String) (recovery : RoomHistoryRecovery)
    (exhaustedServer : Bool) (attemptedPolicyRank expectedMembershipEpoch : Int) (db : DB) :
    HistoryRecoveryOutcome × DB :=
  let (current, db) := claimMembershipEpoch principalId recovery.roomId expectedMembershipEpoch db
  if current = false then (.superseded, db)
  else if ¬ ClaimsRoomHistoryRecovery db principalId recovery then (.superseded, db)
  else
    settleRoomHistoryRecovery principalId recovery exhaustedServer attemptedPolicyRank
      (publishConversationHydration
        (hydrationRow principalId recovery.roomId none exhaustedServer attemptedPolicyRank
          expectedMembershipEpoch) db)

end MindRoom
