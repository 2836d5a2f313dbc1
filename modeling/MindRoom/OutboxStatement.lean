import MindRoom.Store

/-! # Statements on deliveries

What one statement of `event_journal/outbox.py`, or of the fence, may do to the outbox, under
what the code has checked when it issues it. An attempted delivery is frozen: `Keeps` says what
is left to happen to it.
-/

namespace MindRoom

/-! ## Scopes -/

/-- What a transaction may fold, install, delete and decide. -/
structure Scope where
  /-- the events it may fold -/
  folds : ProjectedEvent → Prop
  /-- what it folds is of the room whose membership it was checked against -/
  rooms : Prop
  /-- the revisions it may install on a withheld row -/
  installs : RefetchKey → RefetchedRevision → Prop
  /-- the runs it may pause -/
  pauses : ApprovalContinuation → Prop
  /-- the outcomes it may settle an obligation with: exhaustion, and the policy spent -/
  settles : RoomHistoryRecovery → Bool → Int → Prop
  /-- the deliveries it may delete -/
  deletes : OutboxRow → Prop
  /-- the deliveries whose event it may record -/
  acks : OutboxRow → Prop
  /-- it may end tenures -/
  ends : Prop
  /-- it may record departures, returns and the producer's position -/
  fences : Prop
  /-- it may move a consumer -/
  binds : Prop
  /-- the deliveries it may reserve and resolve approval cards under -/
  approves : String → String → Prop
  /-- it may record calls that wait for a decision -/
  pausing : Prop
  /-- it may delete such calls -/
  releasing : Prop
  /-- it may write grants and their scopes -/
  grants : Prop
  /-- it may write turn records -/
  turns : Prop

/-- The store holds no card and no background call but under the deliveries of the scope. -/
structure Scope.Allows (b : Scope) (db : DB) : Prop where
  cards : ∀ card ∈ db.approvalCards, b.approves card.principalId card.deliveryId
  calls : ∀ call ∈ db.backgroundApprovalCalls, b.approves call.principalId call.deliveryId

theorem Scope.Allows.of_all {b : Scope} {db : DB} (h : ∀ p d, b.approves p d) : b.Allows db :=
  ⟨fun _ _ => h _ _, fun _ _ => h _ _⟩

theorem deliveryId_of_outboxAt {db : DB} {principalId deliveryId : String} {stage : DeliveryStage}
    {r : OutboxRow} (h : outboxAt db principalId deliveryId stage = some r) : r.deliveryId = deliveryId := by
  have hkey := (Table.get?_eq_some.mp h).2
  exact congrArg (fun k : String × String × DeliveryStage => k.2.1) hkey

/-! ## Guards -/

/-- INITIAL never waits for an edit target. -/
def DeliveryIntent.Sound (intent : DeliveryIntent) : Prop :=
  intent.stage = .initial → intent.editTargetPending = false

theorem resolveEditTarget_stage (db : DB) (principalId : String) (intent : DeliveryIntent) :
    (resolveEditTarget db principalId intent).stage = intent.stage := by
  unfold resolveEditTarget
  split
  · split
    · rfl
    · split
      · rfl
      · split <;> rfl
  · rfl

/-- Where an intent has its membership from: the room's, or an attempted row that is enqueued
again. -/
def DeliveryIntent.Authorized (db : DB) (principalId : String) (intent : DeliveryIntent) : Prop :=
  MembershipIsCurrent db principalId intent.roomId intent.membershipEpoch ∨
    ∃ row ∈ outboxAt db principalId intent.deliveryId intent.stage, row.attempted = true

/-- The delivery may be offered: FINAL waits for nothing, and neither stage passes the other. -/
structure Offered (db : DB) (principalId deliveryId : String) (stage : DeliveryStage)
    (row : OutboxRow) : Prop where
  stored : outboxAt db principalId deliveryId stage = some row
  unretired : row.retired = false
  unrefused : row.permanentFailureReason = none
  settled : stage = .final → row.editTargetPending = false
  withdrawn : stage = .initial → row.attempted = false → ¬ FinalStands db principalId deliveryId
  ordered : stage = .final → row.editsEventId = none → ¬ InitialUnresolved db principalId deliveryId

/-! ## Statements -/

/-- One statement on the outbox that deletes nothing which was attempted. -/
inductive Delivers (b : Scope) : DB → DB → Prop
  | intend (p : String) (intent : DeliveryIntent) (transactionId : String) (now : Int) {db : DB}
      (hs : intent.Sound) (howner : ¬ OwnerRefuses db p intent)
      (ha : intent.Authorized db p ∨ intent.stage = .final ∧ b.approves p intent.deliveryId) :
      Delivers b db
        (recordIntent ((resolveEditTarget db p intent).row p transactionId now) db)
  /-- FINAL stands, and an INITIAL that was never offered is withdrawn -/
  | withdraw (p d : String) (row : OutboxRow) {db : DB}
      (hrow : outboxAt db p d .initial = some row) (hretired : row.retired = false)
      (h : FinalStands db p d) :
      Delivers b db
        { db with
          matrixDeliveryOutbox := db.matrixDeliveryOutbox.delete
            (fun r => key r = (p, d, .initial) ∧ r.attempted = false) }
  /-- a waiting FINAL takes the event of its INITIAL for its target -/
  | target (p d eventId : String) (row : OutboxRow) {db : DB}
      (hrow : outboxAt db p d .final = some row) (hpending : row.editTargetPending = true)
      (hinitial : (outboxAt db p d .initial).bind (·.acknowledgedEventId) = some eventId) :
      Delivers b db
        (updateOutbox p d .final (fun _ => True)
          (fun r => { r with editsEventId := some eventId, editTargetPending := false })
          (fun _ => rfl) db)
  | offer (p d : String) (stage : DeliveryStage) (device : Option String) (row : OutboxRow)
      {db : DB} (h : Offered db p d stage row) :
      Delivers b db
        (updateOutbox p d stage (fun r => r.attempted = false)
          (fun r => { r with attempted := true, sendingDeviceId := device }) (fun _ => rfl) db)
  | device (p d : String) (stage : DeliveryStage) (device : Option String) {db : DB} :
      Delivers b db (recordMatrixDeliveryDevice p d stage device db)
  | bind (p d : String) (stage : DeliveryStage) (eventId : String) {db : DB}
      (h : ∀ row ∈ outboxAt db p d stage, b.acks row) :
      Delivers b db
        (updateOutbox p d stage (fun r => r.acknowledgedEventId = none)
          (fun r => { r with acknowledgedEventId := some eventId, permanentFailureReason := none })
          (fun _ => rfl) db)
  /-- INITIAL was acknowledged, and its unattempted FINAL need not wait -/
  | release (p d eventId : String) {db : DB}
      (hinitial : (outboxAt db p d .initial).bind (·.acknowledgedEventId) = some eventId) :
      Delivers b db
        (updateOutbox p d .final (fun r => r.attempted = false ∧ r.editTargetPending = true)
          (fun r =>
            { r with
              editsEventId := some eventId
              editTargetPending := false
              permanentFailureReason := none })
          (fun _ => rfl) db)
  | refuse (p d : String) (stage : DeliveryStage) (q : OutboxRow → Prop) [DecidablePred q]
      (reason : String) {db : DB} (hq : ∀ r, q r → MayFail r) :
      Delivers b db
        (updateOutbox p d stage q (fun r => { r with permanentFailureReason := some reason })
          (fun _ => rfl) db)
  | retire (p d : String) (stage : DeliveryStage) {db : DB} :
      Delivers b db (retireRow p d stage db)
  | fence (p r : String) {db : DB} : Delivers b db (retireUnattempted p r db)
  /-- an attempted card follows the membership that inherits it -/
  | carry (p d : String) (membershipEpoch : Int) {db : DB} (hb : b.approves p d) :
      Delivers b db
        { db with
          matrixDeliveryOutbox := db.matrixDeliveryOutbox.update
            (fun r => r.principalId = p ∧ r.deliveryId = d)
            (fun r => { r with membershipEpoch := membershipEpoch }) }
  | drop (p d : String) {db : DB} (hb : b.approves p d) :
      Delivers b db
        (Approvals.deleteOutbox
          (fun r => r.principalId = p ∧ r.deliveryId = d ∧ r.attempted = false) db)

end MindRoom
