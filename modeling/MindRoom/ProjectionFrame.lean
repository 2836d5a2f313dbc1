import MindRoom.View

/-! # What the projection leaves alone

Folds, refetches and discards write the projection tables, the questions and the hydration
markers, and may materialize a membership row. Everything else in the database is as before,
and so is every reading of a room's tenure.
-/

namespace MindRoom

/-- `db'` differs from `db` at most in what the projection owns. -/
structure ProjectionFrame (db db' : DB) : Prop where
  matrixSyncConsumers : db'.matrixSyncConsumers = db.matrixSyncConsumers
  receiptOrderSeq : db'.receiptOrderSeq = db.receiptOrderSeq
  journalEvents : db'.journalEvents = db.journalEvents
  roomMemberJoins : db'.roomMemberJoins = db.roomMemberJoins
  matrixIngestionMembership : db'.matrixIngestionMembership = db.matrixIngestionMembership
  membershipRow : ∀ p r, membershipRow db' p r = membershipRow db p r
  tenanted : ∀ k, db.roomMembership.get? k ≠ none → db'.roomMembership.get? k ≠ none
  roomHistoryRecovery : db'.roomHistoryRecovery = db.roomHistoryRecovery
  matrixDeliveryOutbox : db'.matrixDeliveryOutbox = db.matrixDeliveryOutbox
  approvalCards : db'.approvalCards = db.approvalCards
  backgroundApprovalCalls : db'.backgroundApprovalCalls = db.backgroundApprovalCalls
  approvalActionTombstones : db'.approvalActionTombstones = db.approvalActionTombstones
  approvalContinuations : db'.approvalContinuations = db.approvalContinuations
  approvalContinuationSources : db'.approvalContinuationSources = db.approvalContinuationSources
  approvalContinuationCalls : db'.approvalContinuationCalls = db.approvalContinuationCalls
  approvalGrantCards : db'.approvalGrantCards = db.approvalGrantCards
  approvalGrants : db'.approvalGrants = db.approvalGrants
  turnRecords : db'.turnRecords = db.turnRecords
  clock : db'.clock = db.clock

namespace ProjectionFrame

instance : IsPreorder DB ProjectionFrame where
  refl db := by constructor <;> first | rfl | exact fun _ h => h | exact fun _ _ => rfl
  trans a b c hab hbc := by
    constructor
    case membershipRow => exact fun p r => (hbc.membershipRow p r).trans (hab.membershipRow p r)
    case tenanted => exact fun k hk => hbc.tenanted k (hab.tenanted k hk)
    all_goals first
      | exact hbc.matrixSyncConsumers.trans hab.matrixSyncConsumers
      | exact hbc.receiptOrderSeq.trans hab.receiptOrderSeq
      | exact hbc.journalEvents.trans hab.journalEvents
      | exact hbc.roomMemberJoins.trans hab.roomMemberJoins
      | exact hbc.matrixIngestionMembership.trans hab.matrixIngestionMembership
      | exact hbc.roomHistoryRecovery.trans hab.roomHistoryRecovery
      | exact hbc.matrixDeliveryOutbox.trans hab.matrixDeliveryOutbox
      | exact hbc.approvalCards.trans hab.approvalCards
      | exact hbc.backgroundApprovalCalls.trans hab.backgroundApprovalCalls
      | exact hbc.approvalActionTombstones.trans hab.approvalActionTombstones
      | exact hbc.approvalContinuations.trans hab.approvalContinuations
      | exact hbc.approvalContinuationSources.trans hab.approvalContinuationSources
      | exact hbc.approvalContinuationCalls.trans hab.approvalContinuationCalls
      | exact hbc.approvalGrantCards.trans hab.approvalGrantCards
      | exact hbc.approvalGrants.trans hab.approvalGrants
      | exact hbc.turnRecords.trans hab.turnRecords
      | exact hbc.clock.trans hab.clock

theorem refl (db : DB) : ProjectionFrame db db := refl_of ProjectionFrame db

theorem trans {a b c : DB} (hab : ProjectionFrame a b) (hbc : ProjectionFrame b c) :
    ProjectionFrame a c := trans_of ProjectionFrame hab hbc

/-- Any statement on the tables the projection owns. -/
theorem write (db : DB) (visible : Table VisibleMessageRow) (edits : Table UnresolvedEditRow)
    (tombstones : Table TombstoneRow) (questions : Table InteractiveQuestionRow)
    (selections : Table InteractiveSelectionRow) (hydration : Table HydrationRow)
    (folded : List (String × ProjectedEvent)) : ProjectionFrame db
      { db with
        visibleMessages := visible
        unresolvedEdits := edits
        redactionTombstones := tombstones
        interactiveQuestions := questions
        interactiveSelections := selections
        conversationHydration := hydration
        folded := folded } := by
  constructor <;> first | rfl | exact fun _ h => h | exact fun _ _ => rfl

theorem claim (p r : String) (db : DB) : ProjectionFrame db (claimed p r db) := by
  constructor
  case membershipRow => exact fun p' r' => membershipRow_claimed p r p' r' db
  case tenanted => exact fun k hk => tenanted_claimed p r k hk
  all_goals rfl

theorem onlyClaims {p : String} {db db' : DB} (h : OnlyClaims p db db') : ProjectionFrame db db' := by
  rcases h with rfl | ⟨r, rfl⟩
  · exact refl db'
  · exact claim p r db

theorem recordTombstone (p r target : String) (db : DB) :
    ProjectionFrame db (recordTombstone p r target db) := write db _ _ _ _ _ _ _

theorem deleteUnresolved (q : UnresolvedEditRow → Prop) [DecidablePred q] (db : DB) :
    ProjectionFrame db (deleteUnresolved q db) := write db _ _ _ _ _ _ _

theorem deleteQuestions (q : InteractiveQuestionRow → Prop) [DecidablePred q] (db : DB) :
    ProjectionFrame db (deleteQuestions q db) := write db _ _ _ _ _ _ _

theorem deleteVisible (q : VisibleMessageRow → Prop) [DecidablePred q] (db : DB) :
    ProjectionFrame db (deleteVisible q db) := write db _ _ _ _ _ _ _

theorem deleteHydration (p r t : String) (db : DB) :
    ProjectionFrame db (deleteHydration p r t db) := write db _ _ _ _ _ _ _

theorem recordProjectedPrompt (p r question revision sender : String) (epoch : Int) (content : Dict) (db : DB) :
    ProjectionFrame db (recordProjectedPrompt p r question revision sender epoch content db) := by
  rcases recordProjectedPrompt_cases (rfl : MindRoom.recordProjectedPrompt p r question revision
    sender epoch content db = _) with h | h | ⟨_, h⟩ <;> rw [h]
  · exact refl db
  · exact claim p r db
  · exact (claim p r db).trans (write _ _ _ _ _ _ _ _)

theorem holdUnresolvedEdit (p : String) (event : ProjectedEvent) (target : String) (db : DB) :
    ProjectionFrame db (holdUnresolvedEdit p event target db) := by
  obtain ⟨edits, h⟩ := holdUnresolvedEdit_eq p event target db
  rw [h]
  exact write db _ _ _ _ _ _ _

theorem applyUnresolvedEdit (p : String) (event : ProjectedEvent) (n : Nat) (epoch : Int) (db : DB) :
    ProjectionFrame db (applyUnresolvedEdit p event n epoch db) := by
  have hdel := write db db.visibleMessages (db.unresolvedEdits.delete fun r => r.principalId = p ∧
    r.roomId = event.roomId ∧ r.targetEventId = event.eventId) db.redactionTombstones
    db.interactiveQuestions db.interactiveSelections db.conversationHydration db.folded
  unfold MindRoom.applyUnresolvedEdit
  cases heldAt db p event.roomId event.eventId event.sender with
  | none => exact hdel
  | some held =>
    simp only
    split
    · exact hdel
    · exact hdel.trans ((recordProjectedPrompt p _ _ _ _ _ _ _).trans (write _ _ _ _ _ _ _ _))

theorem projectOriginal (p : String) (event : ProjectedEvent) (n : Nat) (epoch : Int) (db : DB) :
    ProjectionFrame db (projectOriginal p event n epoch db) :=
  (write db _ _ _ _ _ _ _).trans
    ((recordProjectedPrompt p _ _ _ _ _ _ _).trans (applyUnresolvedEdit p event n epoch _))

theorem projectEdit (p : String) (event : ProjectedEvent) (target : String) (n : Nat) (epoch : Int)
    (db : DB) : ProjectionFrame db (projectEdit p event target n epoch db) := by
  unfold MindRoom.projectEdit
  cases visibleAt db p event.roomId target with
  | none =>
    simp only
    split
    · exact refl db
    · exact holdUnresolvedEdit p event target db
  | some current =>
    simp only
    split
    · exact refl db
    · split
      · exact (recordProjectedPrompt p _ _ _ _ _ _ _).trans (write _ _ _ _ _ _ _ _)
      · exact recordProjectedPrompt p _ _ _ _ _ _ _

theorem projectRedaction (p : String) (event : ProjectedEvent) (target : String) (n : Nat)
    (db : DB) : ProjectionFrame db (projectRedaction p event target n db) := by
  have hcleared := (recordTombstone p event.roomId target db).trans ((deleteQuestions
    (fun q => q.principalId = p ∧ q.roomId = event.roomId ∧ q.revisionEventId = target) _).trans
    ((deleteUnresolved (fun r => r.principalId = p ∧ r.roomId = event.roomId ∧
      r.editEventId = target) _).trans (deleteUnresolved (fun r => r.principalId = p ∧
        r.roomId = event.roomId ∧ r.targetEventId = target) _)))
  unfold MindRoom.projectRedaction
  simp only
  split
  · exact hcleared.trans (deleteVisible _ _)
  · exact hcleared.trans (write _ _ _ _ _ _ _ _)

theorem foldEvent (p : String) (event : ProjectedEvent) (n : Nat) (epoch : Int) (db : DB) :
    ProjectionFrame db (foldEvent p event n epoch db).2 := by
  unfold MindRoom.foldEvent
  cases event.redactsEventId with
  | some target => exact projectRedaction p event target n db
  | none =>
    simp only
    split
    · exact refl db
    · cases replacementTarget event.content with
      | none => exact projectOriginal p event n epoch db
      | some target => exact projectEdit p event target n epoch db

theorem project (p : String) (event : ProjectedEvent) (n : Nat) (epoch : Int) (db : DB) :
    ProjectionFrame db (project p event n epoch db).2 := by
  have hclaim := onlyClaims (onlyClaims_eventBelongsToMembership p event.roomId event.eventId epoch
    event.sender event.transactionId event.content db)
  unfold MindRoom.project
  simp only
  split
  · exact hclaim
  · exact hclaim.trans ((write _ _ _ _ _ _ _ _).trans (foldEvent p event n epoch _))

theorem dropRefetchedMessage (p : String) (k : RefetchKey) (db : DB) :
    ProjectionFrame db (dropRefetchedMessage p k db).2 := by
  unfold MindRoom.dropRefetchedMessage
  split
  · exact refl db
  · exact (deleteVisible _ db).trans (deleteHydration _ _ _ _)

theorem recordRefetchedRevision (p : String) (k : RefetchKey) (revision : RefetchedRevision)
    (row : VisibleMessageRow) (db : DB) : ProjectionFrame db (recordRefetchedRevision p k revision row db) :=
  (write db _ _ _ _ _ _ _).trans (recordProjectedPrompt p _ _ _ _ _ _ _)

theorem fold (p : String) (event : ProjectedEvent) (n : Nat) (epoch : Int) (db : DB) : ProjectionFrame db
      (MindRoom.foldEvent p event n epoch { db with folded := db.folded ++ [(p, event)] }).2 :=
  (write db _ _ _ _ _ _ _).trans (foldEvent p event n epoch _)

theorem discardDeliveryEvent (p eventId : String) (db : DB) :
    ProjectionFrame db (discardDeliveryEvent p eventId db) := by
  unfold MindRoom.discardDeliveryEvent
  simp only
  split
  · exact (deleteUnresolved _ db).trans (deleteVisible _ _)
  · exact (deleteUnresolved _ db).trans ((deleteVisible _ _).trans (deleteHydration _ _ _ _))

end ProjectionFrame

end MindRoom
