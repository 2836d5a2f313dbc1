import MindRoom.Membership

/-! # Claim-before-send delivery

`event_journal/outbox.py`: delivery intent is enqueued, frozen by the claim that first offers
it to the homeserver, and acknowledged once. Reads are functions of the database, statements
are functions to the next database, and only what can raise is a transaction.
-/

namespace MindRoom

/-- The host functions the store computes with: digests, encoders and timestamps. -/
structure Host where
  /-- `uuid.uuid5` in the frozen transaction namespace -/
  uuid5 : String → String
  /-- `hashlib.sha256(...).hexdigest()` -/
  sha256 : String → String
  /-- `json.dumps` with the compact separators -/
  dumps : Json → String
  /-- `approval_timestamp` -/
  approvalTimestamp : Int → String

def durableDeliveryIdKey : String := "io.mindroom.delivery_id"

/-! ## Identities and payloads -/

/-- The deterministic Matrix transaction ID for one delivery stage. -/
def deliveryTransactionId (host : Host) (principalId deliveryId stage : String) :
    Except StoreError String :=
  if principalId = "" ∨ deliveryId = "" ∨ stage = "" then
    throw (.valueError "A delivery transaction requires a principal, delivery, and stage")
  else pure ("mindroom-" ++ host.uuid5 (principalId ++ ":" ++ deliveryId ++ ":" ++ stage))

/-- One frozen payload carrying its stable journal identity. -/
def matrixDeliveryPayload (principalId deliveryId : String) (stage : DeliveryStage)
    (payload : Dict) : Dict :=
  let identity : Json := .obj
    [("principal", .str principalId), ("delivery_id", .str deliveryId), ("stage", .str stage.value)]
  let frozen := payload.set durableDeliveryIdKey identity
  match payload.obj? "m.new_content" with
  | some replacement =>
    frozen.set "m.new_content" (.obj (Dict.set replacement durableDeliveryIdKey identity))
  | none => frozen

/-- The stable outbox identity carried by one Matrix payload. -/
def deliveryIdentity (content : Dict) : Option (String × String × DeliveryStage) := do
  let identity ← content.obj? durableDeliveryIdKey
  let principalId ← identity.nonempty? "principal"
  let deliveryId ← identity.nonempty? "delivery_id"
  let stage ← (identity.str? "stage").bind DeliveryStage.ofValue?
  return (principalId, deliveryId, stage)

/-! ## Rows -/

def outboxAt (db : DB) (principalId deliveryId : String) (stage : DeliveryStage) :
    Option OutboxRow :=
  db.matrixDeliveryOutbox.get? (principalId, deliveryId, stage)

def turnOwner (db : DB) (principalId deliveryId : String) : Option OutboxRow :=
  (outboxAt db principalId deliveryId .final).or (outboxAt db principalId deliveryId .initial)

/-- `UPDATE matrix_delivery_outbox SET f WHERE` one stage `AND p`. -/
def updateOutbox (principalId deliveryId : String) (stage : DeliveryStage) (p : OutboxRow → Prop)
    [DecidablePred p] (f : OutboxRow → OutboxRow)
    (hf : ∀ r, key (f r) = key r := by intro _; rfl) (db : DB) : DB :=
  { db with
    matrixDeliveryOutbox := db.matrixDeliveryOutbox.update
      (fun r => key r = (principalId, deliveryId, stage) ∧ p r) f hf }

/-! ## Enqueue -/

/-- The arguments of `enqueue`. -/
structure DeliveryIntent where
  deliveryId : String
  stage : DeliveryStage
  eventType : String
  roomId : String
  membershipEpoch : Int
  threadId : Option ThreadId
  payload : Dict
  editsEventId : Option String
  result : Option Dict := none
  editTargetPending : Bool := false
  permanentFailureReason : Option String := none

/-- An existing row of the delivery is retired or has another owner. -/
def OwnerRefuses (db : DB) (principalId : String) (intent : DeliveryIntent) : Prop :=
  ∃ owner ∈ turnOwner db principalId intent.deliveryId, owner.retired = true ∨ owner.roomId ≠ intent.roomId ∨
      owner.membershipEpoch ≠ intent.membershipEpoch

instance (db : DB) (principalId : String) (intent : DeliveryIntent) :
    Decidable (OwnerRefuses db principalId intent) :=
  inferInstanceAs (Decidable (∃ owner ∈ turnOwner db principalId intent.deliveryId, _))

/-- A FINAL that waits for its edit target takes what INITIAL already knows: its event, or the
refusal that makes the target impossible. -/
def resolveEditTarget (db : DB) (principalId : String) (intent : DeliveryIntent) :
    DeliveryIntent :=
  if intent.stage = .final ∧ intent.editTargetPending = true then
    match outboxAt db principalId intent.deliveryId .initial with
    | none => intent
    | some initial =>
      match initial.acknowledgedEventId with
      | some eventId => { intent with editsEventId := some eventId, editTargetPending := false }
      | none =>
        match intent.permanentFailureReason, initial.permanentFailureReason with
        | none, some reason =>
          { intent with
            permanentFailureReason :=
              some ("required edit target was permanently refused: " ++ reason) }
        | _, _ => intent
  else intent

def DeliveryIntent.row (intent : DeliveryIntent) (principalId transactionId : String)
    (createdAtNs : Int) : OutboxRow where
  principalId := principalId
  deliveryId := intent.deliveryId
  stage := intent.stage
  eventType := intent.eventType
  roomId := intent.roomId
  membershipEpoch := intent.membershipEpoch
  threadId := encodeThreadId intent.threadId
  transactionId := transactionId
  payloadJson := matrixDeliveryPayload principalId intent.deliveryId intent.stage intent.payload
  resultJson := intent.result
  editsEventId := intent.editsEventId
  editTargetPending := intent.editTargetPending
  attempted := false
  retired := false
  permanentFailureReason := intent.permanentFailureReason
  sendingDeviceId := none
  acknowledgedEventId := none
  createdAtNs := createdAtNs

/-- `DO UPDATE SET` of `enqueue`: `excluded` over the stored row. -/
def replaceIntent (excluded r : OutboxRow) : OutboxRow :=
  { r with
    roomId := excluded.roomId
    membershipEpoch := excluded.membershipEpoch
    threadId := excluded.threadId
    eventType := excluded.eventType
    payloadJson := excluded.payloadJson
    resultJson := excluded.resultJson
    editsEventId := excluded.editsEventId
    editTargetPending := excluded.editTargetPending
    permanentFailureReason := excluded.permanentFailureReason }

/-- The insert of `enqueue`, replacing intent that was never attempted. -/
def recordIntent (row : OutboxRow) (db : DB) : DB :=
  { db with
    matrixDeliveryOutbox := db.matrixDeliveryOutbox.upsert row
      (fun r => r.attempted = false ∧ r.permanentFailureReason = none) (replaceIntent row) }

/-- Record delivery intent without changing its durable membership owner. -/
def enqueue (host : Host) (principalId : String) (intent : DeliveryIntent) :
    Tx (Option String) := do
  if intent.permanentFailureReason = some "" then
    throw (.valueError "A permanent Matrix delivery failure requires a reason")
  let db ← get
  if OwnerRefuses db principalId intent then
    return none
  let intent := resolveEditTarget db principalId intent
  let transactionId ← liftM (deliveryTransactionId host principalId intent.deliveryId intent.stage.value)
  let now ← timeNs
  modify (recordIntent (intent.row principalId transactionId now))
  return some transactionId

/-! ## Claim -/

/-- FINAL exists and does not wait for INITIAL: an unattempted INITIAL is withdrawn. -/
def FinalStands (db : DB) (principalId deliveryId : String) : Prop :=
  ∃ final ∈ outboxAt db principalId deliveryId .final, final.editTargetPending = false

/-- INITIAL was offered and its outcome is unknown. -/
def InitialUnresolved (db : DB) (principalId deliveryId : String) : Prop :=
  ∃ initial ∈ outboxAt db principalId deliveryId .initial,
    initial.attempted = true ∧ initial.acknowledgedEventId = none ∧
      initial.retired = false ∧ initial.permanentFailureReason = none

instance (db : DB) (principalId deliveryId : String) :
    Decidable (FinalStands db principalId deliveryId) :=
  inferInstanceAs (Decidable (∃ final ∈ outboxAt db principalId deliveryId .final, _))

instance (db : DB) (principalId deliveryId : String) :
    Decidable (InitialUnresolved db principalId deliveryId) :=
  inferInstanceAs (Decidable (∃ initial ∈ outboxAt db principalId deliveryId .initial, _))

/-- The edit target a FINAL claim offers: `none` when it must wait, else the target and the
database in which it is settled. -/
def settleEditTarget (principalId deliveryId : String) (current : OutboxRow) (db : DB) :
    Option (Option String × DB) :=
  if current.editTargetPending = true then
    match (outboxAt db principalId deliveryId .initial).bind (·.acknowledgedEventId) with
    | none => none
    | some eventId =>
      some (some eventId, updateOutbox principalId deliveryId .final (fun _ => True)
          (fun r => { r with editsEventId := some eventId, editTargetPending := false })
          (fun _ => rfl) db)
  else some (current.editsEventId, db)

/-- The conditional update that marks the first attempt, and the delivery read back: its
`attempted` says whether an earlier claim had frozen it. -/
def offer (principalId deliveryId : String) (stage : DeliveryStage) (sendingDeviceId : Option String)
    (current : OutboxRow) (db : DB) : Option OutboxRow × DB :=
  let db := updateOutbox principalId deliveryId stage (fun r => r.attempted = false)
    (fun r => { r with attempted := true, sendingDeviceId := sendingDeviceId }) (fun _ => rfl) db
  ((outboxAt db principalId deliveryId stage).map
    (fun r => { r with attempted := current.attempted }), db)

/-- Freeze one delivery and atomically record its first device intent. -/
def claim (principalId deliveryId : String) (stage : DeliveryStage)
    (sendingDeviceId : Option String) (db : DB) : Option OutboxRow × DB :=
  match outboxAt db principalId deliveryId stage with
  | none => (none, db)
  | some current =>
    if current.retired = true ∨ current.permanentFailureReason ≠ none then (none, db)
    else
      match stage with
      | .initial =>
        if current.attempted = false ∧ FinalStands db principalId deliveryId then
          (none, { db with
              matrixDeliveryOutbox := db.matrixDeliveryOutbox.delete
                (fun r => key r = (principalId, deliveryId, .initial) ∧ r.attempted = false) })
        else offer principalId deliveryId .initial sendingDeviceId current db
      | .final =>
        match settleEditTarget principalId deliveryId current db with
        | none => (none, db)
        | some (editsEventId, db) =>
          if editsEventId = none ∧ InitialUnresolved db principalId deliveryId then (none, db)
          else offer principalId deliveryId .final sendingDeviceId current db

/-- Record the device whose transaction-ID namespace is about to be used. -/
def recordMatrixDeliveryDevice (principalId deliveryId : String) (stage : DeliveryStage)
    (deviceId : Option String) (db : DB) : DB :=
  updateOutbox principalId deliveryId stage (fun _ => True)
    (fun r => { r with sendingDeviceId := deviceId }) (fun _ => rfl) db

/-! ## Outcomes -/

/-- Record the Matrix event a claimed delivery produced, if nothing else has. Returns whether
this call bound the row; an INITIAL that binds settles a waiting FINAL's edit target. -/
def acknowledge (principalId deliveryId : String) (stage : DeliveryStage) (eventId : String)
    (db : DB) : Bool × DB :=
  match outboxAt db principalId deliveryId stage with
  | none => (false, db)
  | some row =>
    if row.acknowledgedEventId ≠ none then (false, db)
    else
      let db := updateOutbox principalId deliveryId stage (fun r => r.acknowledgedEventId = none)
        (fun r => { r with acknowledgedEventId := some eventId, permanentFailureReason := none })
        (fun _ => rfl) db
      (true, match stage with
        | .final => db
        | .initial =>
          updateOutbox principalId deliveryId .final
            (fun r => r.attempted = false ∧ r.editTargetPending = true)
            (fun r =>
              { r with
                editsEventId := some eventId
                editTargetPending := false
                permanentFailureReason := none })
            (fun _ => rfl) db)

/-- The row may still be refused: nothing acknowledged, retired or already failed. -/
def MayFail (r : OutboxRow) : Prop :=
  r.acknowledgedEventId = none ∧ r.retired = false ∧ r.permanentFailureReason = none

instance (r : OutboxRow) : Decidable (MayFail r) := inferInstanceAs (Decidable (_ ∧ _))

/-- Stop retrying one refused immutable payload: the two statements of
`record_permanent_failure`. -/
def failDelivery (principalId deliveryId : String) (stage : DeliveryStage) (reason : String)
    (db : DB) : DB :=
  match outboxAt db principalId deliveryId stage with
  | none => db
  | some row =>
    if MayFail row then
      let db := updateOutbox principalId deliveryId stage MayFail
        (fun r => { r with permanentFailureReason := some reason }) (fun _ => rfl) db
      match stage with
      | .final => db
      | .initial =>
        updateOutbox principalId deliveryId .final
          (fun r => MayFail r ∧ r.editTargetPending = true)
          (fun r =>
            { r with
              permanentFailureReason :=
                some ("required edit target was permanently refused: " ++ reason) })
          (fun _ => rfl) db
    else db

/-- Stop retrying one refused immutable payload, or return its concurrent acknowledgement. -/
def recordPermanentFailure (principalId deliveryId : String) (stage : DeliveryStage)
    (reason : String) : Tx (Option String) := do
  if reason = "" then
    throw (.valueError "A permanent Matrix delivery failure requires a reason")
  modify (failDelivery principalId deliveryId stage reason)
  let db ← get
  return (outboxAt db principalId deliveryId stage).bind (·.acknowledgedEventId)

def ApprovalOwnsDelivery (db : DB) (principalId deliveryId : String) : Prop :=
  db.approvalContinuationSources.Any fun r => r.principalId = principalId ∧ r.eventId = deliveryId

instance (db : DB) (principalId deliveryId : String) :
    Decidable (ApprovalOwnsDelivery db principalId deliveryId) :=
  inferInstanceAs (Decidable (Table.Any _ _))

theorem OutboxRow.key_retired (r : OutboxRow) : key { r with retired := true } = key r := rfl

/-- `UPDATE matrix_delivery_outbox SET retired = 1` for one stage. -/
def retireRow (principalId deliveryId : String) (stage : DeliveryStage) (db : DB) : DB :=
  updateOutbox principalId deliveryId stage (fun _ => True) (fun r => { r with retired := true })
    OutboxRow.key_retired db

def FinalAcquired (db : DB) (principalId deliveryId : String) : Prop :=
  ∃ final ∈ outboxAt db principalId deliveryId .final, final.acknowledgedEventId ≠ none ∨
      ¬ (final.retired = true ∨ final.permanentFailureReason ≠ none)

instance (db : DB) (principalId deliveryId : String) :
    Decidable (FinalAcquired db principalId deliveryId) :=
  inferInstanceAs (Decidable (∃ final ∈ outboxAt db principalId deliveryId .final, _))

/-- Retain exact acknowledgement identity while fencing sends after proven disappearance. -/
def retireDeletedInitial (principalId deliveryId : String) : Tx Unit := do
  let db ← get
  if ApprovalOwnsDelivery db principalId deliveryId then
    throw (.runtimeError "An approval continuation still owns this INITIAL")
  if FinalAcquired db principalId deliveryId then
    throw (.runtimeError "FINAL acquired deleted INITIAL during cleanup")
  modify (retireRow principalId deliveryId .initial)

/-- Retire one obsolete delivery and return its concurrent durable outcome. -/
def retire (principalId deliveryId : String) (stage : DeliveryStage) (roomId : String)
    (membershipEpoch : Int) : Tx (Option OutboxRow) := do
  let db ← get
  match outboxAt db principalId deliveryId stage with
  | none => return none
  | some delivery =>
    if delivery.roomId ≠ roomId ∨ delivery.membershipEpoch ≠ membershipEpoch then
      throw (.runtimeError
        ("Delivery owner changed while retiring '" ++ deliveryId ++ "'/'" ++ stage.value ++ "'"))
    if delivery.acknowledgedEventId ≠ none then
      return some delivery
    modify (retireRow principalId deliveryId stage)
    return some { delivery with retired := true }

/-! ## Membership ownership -/

/-- Claim one delivery's membership and row while both remain current. -/
def claimActiveDeliveryOwnership (principalId deliveryId : String) (stage : DeliveryStage)
    (expectedRoomId : Option String) (db : DB) : Option (String × Int) × DB :=
  match outboxAt db principalId deliveryId stage with
  | none => (none, db)
  | some row =>
    if expectedRoomId.any (· ≠ row.roomId) then (none, db)
    else
      let (membershipIsCurrent, db) :=
        claimMembershipEpoch principalId row.roomId row.membershipEpoch db
      (if membershipIsCurrent = true ∧ row.retired = false then
          some (row.roomId, row.membershipEpoch)
        else none, db)

/-- The delivery a projected event of the principal's own sender came from: the one its content
names, else the one that acknowledged it, else the one with its transaction. -/
def deliveryOfEvent (db : DB) (principalId roomId eventId sender : String)
    (transactionId : Option String) (content : Dict) : Option OutboxRow :=
  if endswith principalId ("@" ++ sender) then
    let marked : Option OutboxRow :=
      match deliveryIdentity content with
      | some (markedPrincipal, deliveryId, stage) =>
        if markedPrincipal = principalId then
          (outboxAt db principalId deliveryId stage).filter fun r => r.roomId = roomId
        else none
      | none => none
    let acknowledged := db.matrixDeliveryOutbox.find? fun r =>
      r.principalId = principalId ∧ r.roomId = roomId ∧ r.acknowledgedEventId = some eventId
    let sent := db.matrixDeliveryOutbox.find? fun r =>
      r.principalId = principalId ∧ r.roomId = roomId ∧ transactionId = some r.transactionId
    (marked.or acknowledged).or sent
  else none

def eventBelongsToMembership (principalId roomId eventId : String) (membershipEpoch : Int)
    (sender : String) (transactionId : Option String) (content : Dict) (db : DB) : Bool × DB :=
  match deliveryOfEvent db principalId roomId eventId sender transactionId content with
  | none => (true, db)
  | some delivery =>
    let (owner, db) :=
      claimActiveDeliveryOwnership principalId delivery.deliveryId delivery.stage (some roomId) db
    (decide (owner = some (roomId, membershipEpoch)), db)

end MindRoom
