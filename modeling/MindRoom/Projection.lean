import MindRoom.Outbox
import MindRoom.Questions

/-! # The visible-message projection

`event_journal/projection.py`: one row per logical message, kept by folding originals, edits
and redactions in whatever order they arrive. An edit overwrites the visible row, an edit
that beats its target here is held, and a redaction withholds the body it removed until a
refetch installs another.
-/

namespace MindRoom

/-! ## Reading Matrix content -/

/-- `content["m.relates_to"]` when it is an object, else an empty one. -/
def relation (content : Dict) : Dict := (content.obj? "m.relates_to").getD []

def replacementTarget (content : Dict) : Option String :=
  if (relation content).str? "rel_type" = some "m.replace" then
    (relation content).nonempty? "event_id"
  else none

/-- The body an edit installs, which lives under `m.new_content`. -/
def visibleContent (content : Dict) : Dict := (content.obj? "m.new_content").getD content

/-- A revision, in the order that decides which one is visible. -/
abbrev Revision := Int ×ₗ String

/-- Order revisions by `(origin_server_ts, event_id)`. -/
def IsNewerRevision (candidate current : Int × String) : Prop := toLex current < toLex candidate

instance (candidate current : Int × String) : Decidable (IsNewerRevision candidate current) :=
  inferInstanceAs (Decidable (toLex current < toLex candidate))

/-! ### Long-text sidecars -/

/-- One structurally complete Matrix content URI. -/
def validatedMxcUrl (value : Option Json) : Option String :=
  match value with
  | some (.str url) =>
    if startswith url "mxc://" then
      let rest := url.toList.drop "mxc://".length
      let serverName := rest.takeWhile (· ≠ '/')
      let mediaId := (rest.dropWhile (· ≠ '/')).drop 1
      if serverName ≠ [] ∧ mediaId ≠ [] then some url else none
    else none
  | _ => none

/-- The valid MXC URL for one supported v2 long-text sidecar. -/
def sidecarMxcUrl (content : Dict) : Option String :=
  match content.obj? "io.mindroom.long_text" with
  | none => none
  | some metadata =>
    if Dict.num? metadata "version" = some 2 ∧
        Dict.str? metadata "encoding" = some "matrix_event_content_json" then
      (validatedMxcUrl (content.get? "url")).or
        ((content.obj? "file").bind fun file => validatedMxcUrl (Dict.get? file "url"))
    else none

/-- Whether this content's text is a preview rather than the message. -/
def holdsUnresolvedSidecar (content : Dict) : Bool :=
  (sidecarMxcUrl content).isSome ||
    ((content.obj? "m.new_content").bind fun c => sidecarMxcUrl c).isSome

def storedBody (content : Dict) (receiptOrder : Nat) : Option Dict × Option Nat :=
  if holdsUnresolvedSidecar content then (none, some receiptOrder) else (some content, none)

/-! ## Tombstones -/

def IsTombstoned (db : DB) (principalId roomId eventId : String) : Prop :=
  db.redactionTombstones.Any fun r =>
    r.principalId = principalId ∧ r.roomId = roomId ∧ r.redactedEventId = eventId

instance (db : DB) (principalId roomId eventId : String) :
    Decidable (IsTombstoned db principalId roomId eventId) :=
  inferInstanceAs (Decidable (Table.Any _ _))

def recordTombstone (principalId roomId redactedEventId : String) (db : DB) : DB :=
  { db with
    redactionTombstones := db.redactionTombstones.insertOrIgnore
      { principalId, roomId, redactedEventId } }

/-! ## Revisions -/

/-- Install one revision on the row of its logical message. -/
def installRevision (principalId roomId logicalEventId revisionEventId : String) (revisionTs : Int)
    (content : Dict) (receiptOrder : Nat) (db : DB) : DB :=
  { db with
    visibleMessages := db.visibleMessages.update
      (fun r => key r = (principalId, roomId, logicalEventId))
      (fun r =>
        { r with
          revisionEventId := revisionEventId
          revisionTs := revisionTs
          contentJson := (storedBody content receiptOrder).1
          refreshToken := (storedBody content receiptOrder).2 }) }

/-- `DELETE FROM unresolved_edits WHERE p`. -/
def deleteUnresolved (p : UnresolvedEditRow → Prop) [DecidablePred p] (db : DB) : DB :=
  { db with unresolvedEdits := db.unresolvedEdits.delete p }

def heldAt (db : DB) (principalId roomId targetEventId sender : String) :
    Option UnresolvedEditRow :=
  db.unresolvedEdits.get? (principalId, roomId, targetEventId, sender)

/-- Apply the original sender's held edit, then drop every held edit. -/
def applyUnresolvedEdit (principalId : String) (event : ProjectedEvent) (receiptOrder : Nat)
    (membershipEpoch : Int) (db : DB) : DB :=
  let held := heldAt db principalId event.roomId event.eventId event.sender
  let db := deleteUnresolved (fun r => r.principalId = principalId ∧ r.roomId = event.roomId ∧
    r.targetEventId = event.eventId) db
  match held with
  | none => db
  | some held =>
    if IsTombstoned db principalId event.roomId held.editEventId then db
    else
      let content := visibleContent held.contentJson
      let db := recordProjectedPrompt principalId event.roomId event.eventId held.editEventId
        event.sender membershipEpoch content db
      installRevision principalId event.roomId event.eventId held.editEventId held.editTs content
        receiptOrder db

/-- The row a new logical message inserts. -/
def originalRow (principalId : String) (event : ProjectedEvent) (receiptOrder : Nat)
    (membershipEpoch : Int) : VisibleMessageRow where
  principalId := principalId
  roomId := event.roomId
  logicalEventId := event.eventId
  threadId := encodeThreadId event.threadId
  sender := event.sender
  createdTs := event.originServerTs
  revisionEventId := event.eventId
  revisionTs := event.originServerTs
  contentJson := (storedBody event.content receiptOrder).1
  refreshToken := (storedBody event.content receiptOrder).2
  membershipEpoch := membershipEpoch

def insertVisible (row : VisibleMessageRow) (db : DB) : DB :=
  { db with visibleMessages := db.visibleMessages.insertOrIgnore row }

/-- Install a new logical message and apply an edit that beat it here. -/
def projectOriginal (principalId : String) (event : ProjectedEvent) (receiptOrder : Nat)
    (membershipEpoch : Int) (db : DB) : DB :=
  let db := insertVisible (originalRow principalId event receiptOrder membershipEpoch) db
  let db := recordProjectedPrompt principalId event.roomId event.eventId event.eventId event.sender
    membershipEpoch event.content db
  applyUnresolvedEdit principalId event receiptOrder membershipEpoch db

/-- The row an edit without a target is held in. -/
def heldRow (principalId : String) (event : ProjectedEvent) (targetEventId : String) :
    UnresolvedEditRow where
  principalId := principalId
  roomId := event.roomId
  targetEventId := targetEventId
  sender := event.sender
  editEventId := event.eventId
  editTs := event.originServerTs
  contentJson := event.content

/-- Whether an incoming edit should replace the one already held. -/
def HeldEditYieldsTo (held : UnresolvedEditRow) (event : ProjectedEvent) : Prop :=
  IsNewerRevision (event.originServerTs, event.eventId) (held.editTs, held.editEventId)

instance (held : UnresolvedEditRow) (event : ProjectedEvent) :
    Decidable (HeldEditYieldsTo held event) :=
  inferInstanceAs (Decidable (IsNewerRevision _ _))

/-- Keep at most one latest edit per target and sender. -/
def holdUnresolvedEdit (principalId : String) (event : ProjectedEvent) (targetEventId : String)
    (db : DB) : DB :=
  match heldAt db principalId event.roomId targetEventId event.sender with
  | some held =>
    if ¬ HeldEditYieldsTo held event then db
    else
      { db with
        unresolvedEdits := db.unresolvedEdits.upsert (heldRow principalId event targetEventId)
          (fun _ => True)
          (fun r =>
            { r with
              editEventId := event.eventId
              editTs := event.originServerTs
              contentJson := event.content }) }
  | none =>
    { db with
      unresolvedEdits := db.unresolvedEdits.insertOrIgnore
        (heldRow principalId event targetEventId) }

/-- Replace the target's visible body, or hold the edit until it arrives. -/
def projectEdit (principalId : String) (event : ProjectedEvent) (targetEventId : String)
    (receiptOrder : Nat) (membershipEpoch : Int) (db : DB) : DB :=
  match visibleAt db principalId event.roomId targetEventId with
  | none =>
    if IsTombstoned db principalId event.roomId targetEventId then db
    else holdUnresolvedEdit principalId event targetEventId db
  | some current =>
    if current.sender ≠ event.sender then db
    else
      let content := visibleContent event.content
      let db := recordProjectedPrompt principalId event.roomId targetEventId event.eventId
        event.sender membershipEpoch content db
      if IsNewerRevision (event.originServerTs, event.eventId)
          (current.revisionTs, current.revisionEventId) then
        installRevision principalId event.roomId targetEventId event.eventId event.originServerTs
          content receiptOrder db
      else db

def projectRedaction (principalId : String) (event : ProjectedEvent) (target : String)
    (receiptOrder : Nat) (db : DB) : DB :=
  let db := recordTombstone principalId event.roomId target db
  let db := deleteQuestions (fun q => q.principalId = principalId ∧ q.roomId = event.roomId ∧
    q.revisionEventId = target) db
  let db := deleteUnresolved (fun r => r.principalId = principalId ∧ r.roomId = event.roomId ∧
    r.editEventId = target) db
  let db := deleteUnresolved (fun r => r.principalId = principalId ∧ r.roomId = event.roomId ∧
    r.targetEventId = target) db
  match visibleAt db principalId event.roomId target with
  | some _ => deleteVisible (fun r => key r = (principalId, event.roomId, target)) db
  | none =>
    -- the revision on screen: its body stops being readable and is owed
    { db with
      visibleMessages := db.visibleMessages.update
        (fun r => r.principalId = principalId ∧ r.roomId = event.roomId ∧
          r.revisionEventId = target)
        (fun r => { r with contentJson := none, refreshToken := some receiptOrder }) }

/-- Fold one event of this membership: the branches of `project` behind its ownership check. -/
def foldEvent (principalId : String) (event : ProjectedEvent) (receiptOrder : Nat)
    (membershipEpoch : Int) (db : DB) : Option String × DB :=
  match event.redactsEventId with
  | some target => (some target, projectRedaction principalId event target receiptOrder db)
  | none =>
    if IsTombstoned db principalId event.roomId event.eventId then (some event.eventId, db)
    else
      match replacementTarget event.content with
      | none => (none, projectOriginal principalId event receiptOrder membershipEpoch db)
      | some target =>
        (none, projectEdit principalId event target receiptOrder membershipEpoch db)

/-- Fold one event and report tombstone authority to admission: a redaction returns its
target, an event with a preexisting tombstone its own ID, every other projection nothing. -/
def project (principalId : String) (event : ProjectedEvent) (receiptOrder : Nat)
    (membershipEpoch : Int) (db : DB) : Option String × DB :=
  let (belongs, db) := eventBelongsToMembership principalId event.roomId event.eventId
    membershipEpoch event.sender event.transactionId event.content db
  if belongs = false then (none, db)
  else
    foldEvent principalId event receiptOrder membershipEpoch
      { db with folded := db.folded ++ [(principalId, event)] }

/-! ## Refetches -/

/-- The identity a refetch was issued under. -/
structure RefetchKey where
  roomId : String
  logicalEventId : String
  expectedRevisionEventId : String
  expectedRefreshToken : Nat
  expectedMembershipEpoch : Int
deriving DecidableEq

/-- The row is still the one the refetch was issued for. -/
def RefetchKey.Matches (k : RefetchKey) (principalId : String) (r : VisibleMessageRow) : Prop :=
  key r = (principalId, k.roomId, k.logicalEventId) ∧
    r.revisionEventId = k.expectedRevisionEventId ∧
    r.refreshToken = some k.expectedRefreshToken ∧
    r.membershipEpoch = k.expectedMembershipEpoch

instance (k : RefetchKey) (principalId : String) (r : VisibleMessageRow) :
    Decidable (k.Matches principalId r) :=
  inferInstanceAs (Decidable (_ ∧ _))

/-- The coverage of one conversation is revoked. -/
def deleteHydration (principalId roomId threadId : String) (db : DB) : DB :=
  { db with
    conversationHydration := db.conversationHydration.delete
      fun r => key r = (principalId, roomId, threadId) }

/-- Remove a logical message and revoke the coverage that included it. -/
def dropRefetchedMessage (principalId : String) (k : RefetchKey) (db : DB) : Bool × DB :=
  match db.visibleMessages.find? (k.Matches principalId) with
  | none => (false, db)
  | some row =>
    (true, deleteHydration principalId k.roomId row.threadId
        (deleteVisible (k.Matches principalId) db))

structure RefetchedRevision where
  revisionEventId : String
  revisionTs : Int
  revisionSender : String
  revisionTransactionId : Option String
  content : Dict
deriving DecidableEq

/-- The refetched body replaces the withheld one, and its prompt is recorded. -/
def recordRefetchedRevision (principalId : String) (k : RefetchKey) (revision : RefetchedRevision)
    (row : VisibleMessageRow) (db : DB) : DB :=
  let db :=
    { db with
      visibleMessages := db.visibleMessages.update (k.Matches principalId)
        (fun r =>
          { r with
            revisionEventId := revision.revisionEventId
            revisionTs := revision.revisionTs
            contentJson := some revision.content
            refreshToken := none }) }
  recordProjectedPrompt principalId k.roomId k.logicalEventId revision.revisionEventId row.sender
    row.membershipEpoch revision.content db

/-- Install a refetched revision only if nothing changed underneath it. -/
def installRefetchedRevision (principalId : String) (k : RefetchKey) (revision : RefetchedRevision)
    (db : DB) : Bool × DB :=
  let (membershipIsCurrent, db) :=
    claimMembershipEpoch principalId k.roomId k.expectedMembershipEpoch db
  if membershipIsCurrent = false then dropRefetchedMessage principalId k db
  else
    let (belongs, db) := eventBelongsToMembership principalId k.roomId revision.revisionEventId
      k.expectedMembershipEpoch revision.revisionSender revision.revisionTransactionId
      revision.content db
    if belongs = false then dropRefetchedMessage principalId k db
    else if holdsUnresolvedSidecar revision.content then (false, db)
    else if IsTombstoned db principalId k.roomId revision.revisionEventId then (false, db)
    else
      match db.visibleMessages.find? (k.Matches principalId) with
      | none => (false, db)
      | some row => (true, recordRefetchedRevision principalId k revision row db)

/-! ## Stale deliveries -/

/-- Remove a delivery event that raced into projection before a stale acknowledgement. -/
def discardDeliveryEvent (principalId eventId : String) (db : DB) : DB :=
  let db := deleteUnresolved (fun r => r.principalId = principalId ∧
    (r.targetEventId = eventId ∨ r.editEventId = eventId)) db
  let removed := db.visibleMessages.find? fun r => r.principalId = principalId ∧
    (r.logicalEventId = eventId ∨ r.revisionEventId = eventId)
  let db := deleteVisible (fun r => r.principalId = principalId ∧
    (r.logicalEventId = eventId ∨ r.revisionEventId = eventId)) db
  match removed with
  | none => db
  | some removed => deleteHydration principalId removed.roomId removed.threadId db

end MindRoom
