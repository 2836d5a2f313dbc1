import MindRoom.Grants

/-! # The membership fence

`_advance_membership_epoch` of `event_journal/journal.py`: leaving a room ends the tenure
everything derived for it belonged to. The projection of the room is dropped, deliveries never
attempted are retired, approvals are decided and carried, and turn work that can no longer be
answered is settled.
-/

namespace MindRoom

/-- One room's application tenure and delivery fence. -/
structure MembershipState where
  membershipEpoch : Int
  departureFenced : Bool
deriving DecidableEq

/-- Create or lock one membership row and decode its exact durable state. -/
def claimMembershipState (principalId roomId : String) : Tx MembershipState := do
  let (membershipEpoch, departureFenced) ← modifyGet (claimMembershipRow principalId roomId)
  if membershipEpoch < 0 then
    throw (.ingestionBatchIntegrity .membershipState)
  return { membershipEpoch, departureFenced }

/-- `INSERT INTO room_membership ... DO UPDATE SET membership_epoch`. -/
def setMembershipEpoch (principalId roomId : String) (membershipEpoch : Int) (db : DB) : DB :=
  { db with
    roomMembership := db.roomMembership.upsert ⟨principalId, roomId, membershipEpoch, false⟩
      (fun _ => True) (fun r => { r with membershipEpoch := membershipEpoch }) }

/-- `UPDATE room_membership SET departure_fenced = ?`. -/
def setDepartureFenced (principalId roomId : String) (departureFenced : Bool) (db : DB) : DB :=
  { db with
    roomMembership := db.roomMembership.update (fun r => key r = (principalId, roomId))
      (fun r => { r with departureFenced := departureFenced }) }

theorem currentMembershipEpoch_setMembershipEpoch (p r : String) (epoch : Int) (db : DB) (p' r' : String) :
    currentMembershipEpoch (setMembershipEpoch p r epoch db) p' r' =
      if (p, r) = (p', r') then epoch else currentMembershipEpoch db p' r' := by
  have hk : key (⟨p, r, epoch, false⟩ : RoomMembershipRow) = (p, r) := rfl
  unfold currentMembershipEpoch membershipRow setMembershipEpoch
  simp only [Table.get?_upsert, hk]
  by_cases h : (p, r) = (p', r')
  · rw [if_pos h, if_pos h]
    cases db.roomMembership.get? (p', r') <;> rfl
  · rw [if_neg h, if_neg h]

theorem currentMembershipEpoch_setDepartureFenced (p r : String) (fenced : Bool) (db : DB) (p' r' : String) :
    currentMembershipEpoch (setDepartureFenced p r fenced db) p' r' =
      currentMembershipEpoch db p' r' := by
  unfold currentMembershipEpoch membershipRow setDepartureFenced
  rw [Table.get?_update]
  cases db.roomMembership.get? (p', r') with
  | none => rfl
  | some row =>
    simp only [Option.map_some, Option.getD_some]
    split <;> rfl

def dropProjection (principalId roomId : String) (db : DB) : DB :=
  let db := deleteVisible (fun r => r.principalId = principalId ∧ r.roomId = roomId) db
  { db with
    conversationHydration := db.conversationHydration.delete
      fun r => r.principalId = principalId ∧ r.roomId = roomId
    unresolvedEdits := db.unresolvedEdits.delete
      fun r => r.principalId = principalId ∧ r.roomId = roomId
    redactionTombstones := db.redactionTombstones.delete
      fun r => r.principalId = principalId ∧ r.roomId = roomId
    roomHistoryRecovery := db.roomHistoryRecovery.delete
      fun r => r.principalId = principalId ∧ r.roomId = roomId }

/-- Retire the room's deliveries that were never attempted and carry no approval card. -/
def retireUnattempted (principalId roomId : String) (db : DB) : DB :=
  { db with
    matrixDeliveryOutbox := db.matrixDeliveryOutbox.update
      (fun r => r.principalId = principalId ∧ r.roomId = roomId ∧ r.acknowledgedEventId = none ∧
        r.attempted = false ∧ db.approvalCards.get? (r.principalId, r.deliveryId) = none)
      (fun r => { r with retired := true }) OutboxRow.key_retired }

/-- Delete the runs paused on a source in the room, before their sources settle. -/
def deleteContinuationsOf (principalId roomId : String) (db : DB) : DB :=
  ApprovalContinuations.deleteRows (fun r => r.principalId = principalId ∧
    Approvals.HasSourceIn db r.principalId r.approvalId roomId) db

/-- Settle the room's turn work, and the reactions an interactive response already claimed. -/
def settleTurnWork (principalId roomId : String) (db : DB) : DB :=
  settleRows (fun r => r.principalId = principalId ∧ r.roomId = roomId ∧
    (r.kind ∈ turnBackedKinds ∨
      (r.kind = .reaction ∧ r.semanticConsumer = some .interactiveReaction))) db

/-- Invalidate everything derived for a room the bot has left. -/
def advanceMembershipEpoch (host : Host) (principalId roomId : String) : Tx Int := do
  let db ← get
  let epoch := currentMembershipEpoch db principalId roomId + 1
  modify (setMembershipEpoch principalId roomId epoch)
  modify (dropProjection principalId roomId)
  modify (Approvals.retireCompletedCardsForDeparture principalId roomId)
  Approvals.failContinuationsForDepartedCardOwner host principalId roomId
    "Approval transport left the room."
  modify (retireUnattempted principalId roomId)
  Approvals.expireCardsForDepartedContinuations host principalId roomId
    "Requesting agent left the room."
  modify (deleteContinuationsOf principalId roomId)
  modify (settleTurnWork principalId roomId)
  return epoch

end MindRoom
