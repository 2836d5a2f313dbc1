import MindRoom.ApprovalStatement
import MindRoom.ProjectionFrame

/-! # What one statement may do

Every transaction of the store is a sequence of statements on its tables, each guarded by what
the code has checked when it is issued. The inductive `Statement` says it once; the operations
are followed through their code once, and each invariant of a run is then a fact about single
statements.
-/

namespace MindRoom

open Transaction

/-! ## The record

The tables of the projection, the journal and the outbox. -/

structure Core where
  consumers : Table SyncConsumerRow
  journal : Table JournalRow
  producer : Table IngestionMembershipRow
  membership : Table RoomMembershipRow
  visible : Table VisibleMessageRow
  unresolved : Table UnresolvedEditRow
  tombstones : Table TombstoneRow
  questions : Table InteractiveQuestionRow
  selections : Table InteractiveSelectionRow
  hydration : Table HydrationRow
  recovery : Table HistoryRecoveryRow
  outbox : Table OutboxRow
  folded : List (String × ProjectedEvent)

def DB.core (db : DB) : Core where
  consumers := db.matrixSyncConsumers
  journal := db.journalEvents
  producer := db.matrixIngestionMembership
  membership := db.roomMembership
  visible := db.visibleMessages
  unresolved := db.unresolvedEdits
  tombstones := db.redactionTombstones
  questions := db.interactiveQuestions
  selections := db.interactiveSelections
  hydration := db.conversationHydration
  recovery := db.roomHistoryRecovery
  outbox := db.matrixDeliveryOutbox
  folded := db.folded

variable {db db' : DB}

theorem Delivers.eq {b : Scope} (h : Delivers b db db') :
    db' = { db with matrixDeliveryOutbox := db'.matrixDeliveryOutbox } := by
  cases h <;> rfl

theorem Amends.core {b : Scope} (h : Amends b db db') : db'.core = db.core := by
  cases h <;> rfl

/-! ## Journal rows -/

/-- What may become of one journal row: it keeps its identity, and while it is pending its
payload and its consumer; a settled row stays as it is. -/
structure JournalRow.Ages (r r' : JournalRow) : Prop where
  receiptOrder : r'.receiptOrder = r.receiptOrder
  principalId : r'.principalId = r.principalId
  eventId : r'.eventId = r.eventId
  roomId : r'.roomId = r.roomId
  threadId : r'.threadId = r.threadId
  kind : r'.kind = r.kind
  sender : r'.sender = r.sender
  originServerTs : r'.originServerTs = r.originServerTs
  membershipEpoch : r'.membershipEpoch = r.membershipEpoch
  settled : r.state = .settled → r' = r
  consumer : r'.state = .pending → ∀ c, r.semanticConsumer = some c → r'.semanticConsumer = some c

/-- A settled row has released its payload and its consumer. -/
def JournalRow.Released (r : JournalRow) : Prop :=
  r.state = .settled → r.sourceJson = none ∧ r.semanticConsumer = none

/-- What may become of the journal: no row is lost, each ages, and settling releases. -/
structure Ages (t t' : Table JournalRow) : Prop where
  rows : ∀ r ∈ t, ∃ r' ∈ t', r.Ages r'
  released : (∀ r ∈ t, r.Released) → ∀ r ∈ t', r.Released

theorem JournalRow.Ages.refl (r : JournalRow) : r.Ages r :=
  ⟨rfl, rfl, rfl, rfl, rfl, rfl, rfl, rfl, rfl, fun _ => rfl, fun _ _ h => h⟩

theorem JournalRow.Ages.trans {r r' r'' : JournalRow} (h : r.Ages r') (h' : r'.Ages r'') : r.Ages r'' where
  receiptOrder := h'.receiptOrder.trans h.receiptOrder
  principalId := h'.principalId.trans h.principalId
  eventId := h'.eventId.trans h.eventId
  roomId := h'.roomId.trans h.roomId
  threadId := h'.threadId.trans h.threadId
  kind := h'.kind.trans h.kind
  sender := h'.sender.trans h.sender
  originServerTs := h'.originServerTs.trans h.originServerTs
  membershipEpoch := h'.membershipEpoch.trans h.membershipEpoch
  settled hs := by
    have hr : r' = r := h.settled hs
    have hr' : r'' = r' := h'.settled (hr ▸ hs)
    exact hr'.trans hr
  consumer hp c hc := by
    cases hs : r'.state with
    | pending => exact h'.consumer hp c (h.consumer hs c hc)
    | settled =>
      have hr' : r'' = r' := h'.settled hs
      rw [hr', hs] at hp
      cases hp

theorem Ages.refl (t : Table JournalRow) : Ages t t :=
  ⟨fun r hr => ⟨r, hr, .refl r⟩, fun h => h⟩

theorem Ages.trans {t t' t'' : Table JournalRow} (h : Ages t t') (h' : Ages t' t'') : Ages t t'' where
  rows r hr := by
    obtain ⟨r', hr', ha⟩ := h.rows r hr
    obtain ⟨r'', hr'', ha'⟩ := h'.rows r' hr'
    exact ⟨r'', hr'', ha.trans ha'⟩
  released hs := h'.released (h.released hs)

/-- An update ages the journal when each row it touches ages and is released if it settles. -/
theorem ages_update {t : Table JournalRow} {p : JournalRow → Prop} [DecidablePred p]
    {f : JournalRow → JournalRow} {hf : ∀ r, key (f r) = key r}
    (h : ∀ r ∈ t, p r → r.Ages (f r) ∧ (r.Released → (f r).Released)) : Ages t (t.update p f hf) where
  rows r hr := by
    by_cases hp : p r
    · exact ⟨f r, Table.mem_update.mpr (.inl ⟨r, hr, hp, rfl⟩), (h r hr hp).1⟩
    · exact ⟨r, Table.mem_update.mpr (.inr ⟨hr, hp⟩), .refl r⟩
  released hs r hr := by
    rcases Table.mem_update.mp hr with ⟨r₀, hr₀, hp, rfl⟩ | ⟨hr', _⟩
    · exact (h r₀ hr₀ hp).2 (hs r₀ hr₀)
    · exact hs r hr'

theorem ages_insertOrIgnore {t : Table JournalRow} {r : JournalRow} (h : r.Released) : Ages t (t.insertOrIgnore r) where
  rows r' hr' := ⟨r', Table.mem_insertOrIgnore.mpr (.inl hr'), .refl r'⟩
  released hs r' hr' := by
    rcases Table.mem_insertOrIgnore.mp hr' with hold | ⟨rfl, _⟩
    · exact hs r' hold
    · exact h

/-! ## Statements -/

/-- `UPDATE interactive_questions SET consumed_by_source_event_id` for one revision, with the
competing snapshots of it. -/
def consumeRevision (p source : String) (stored : InteractiveSelection × String) (db : DB) : DB :=
  { db with
    interactiveQuestions := db.interactiveQuestions.update
      (fun q => key q = (p, stored.1.questionEventId, stored.2))
      (fun q => { q with consumedBySourceEventId := some source })
      (InteractiveQuestionRow.key_consumed source)
    interactiveSelections := db.interactiveSelections.delete fun s =>
      (s.principalId, s.questionEventId, s.revisionEventId) =
        (p, stored.1.questionEventId, stored.2) ∧ s.sourceEventId ≠ source }

/-- One statement, under the guard the code issues it with. -/
inductive Statement (b : Scope) : DB → DB → Prop
  | amend {db db' : DB} (h : Amends b db db') : Statement b db db'
  /-- a membership claim -/
  | claimed (p r : String) {db : DB} : Statement b db (claimed p r db)
  | outbox {db db' : DB} (h : Delivers b db db') : Statement b db db'
  | deleteOutbox (q : OutboxRow → Prop) [DecidablePred q] {db : DB}
      (h : ∀ r, q r → b.deletes r) : Statement b db (Approvals.deleteOutbox q db)
  | journal (rows : Table JournalRow) {db : DB} (ha : Ages db.journalEvents rows) :
      Statement b db { db with journalEvents := rows }
  /-- a pending source takes a snapshot of a prompt that is on view and unconsumed -/
  | snapshot (p e : String) (source : JournalRow) (row : QuestionJoin)
      (selection : InteractiveSelection) {db : DB} (hsource : pendingAt db p e = some source)
      (hrow : row ∈ exposedQuestions db p) (hopen : row.1.consumedBySourceEventId = none)
      (hepoch : row.2.membershipEpoch = source.membershipEpoch)
      (hselection : selection.questionEventId = row.1.questionEventId) :
      Statement b db (snapshotSelection p e row.1 selection db)
  /-- a settled source gives its snapshot up -/
  | unselect (p e : String) {db : DB} (h : pendingAt db p e = none) :
      Statement b db
        { db with interactiveSelections := db.interactiveSelections.delete fun s => key s = (p, e) }
  /-- a pending source consumes the revision it took a snapshot of -/
  | consume (p e : String) (source : JournalRow) (stored : InteractiveSelection × String)
      (question : InteractiveQuestionRow) {db : DB} (hsource : pendingAt db p e = some source)
      (hcurrent : MembershipIsCurrent db p source.roomId source.membershipEpoch)
      (hstored : storedSelection db p e = some stored)
      (hquestion : db.interactiveQuestions.get? (p, stored.1.questionEventId, stored.2) =
        some question)
      (hopen : ¬ question.consumedBySourceEventId.any (· ≠ e) = true) :
      Statement b db (consumeRevision p e stored db)
  | fold (p : String) (event : ProjectedEvent) (receiptOrder : Nat) (epoch : Int) {db : DB}
      (hb : b.folds event)
      (hepoch : b.rooms → currentMembershipEpoch db p event.roomId = epoch) :
      Statement b db
        (foldEvent p event receiptOrder epoch { db with folded := db.folded ++ [(p, event)] }).2
  | install (p : String) (k : RefetchKey) (revision : RefetchedRevision) (row : VisibleMessageRow)
      {db : DB} (hb : b.installs k revision)
      (hsidecar : holdsUnresolvedSidecar revision.content = false)
      (htombstone : ¬ IsTombstoned db p k.roomId revision.revisionEventId)
      (hrow : db.visibleMessages.find? (k.Matches p) = some row) :
      Statement b db (recordRefetchedRevision p k revision row db)
  | drop (p : String) (k : RefetchKey) {db : DB} : Statement b db (dropRefetchedMessage p k db).2
  | discard (p e : String) {db : DB} : Statement b db (discardDeliveryEvent p e db)
  | hydrate (row : HydrationRow) {db : DB}
      (h : currentMembershipEpoch db row.principalId row.roomId = row.membershipEpoch) :
      Statement b db (publishConversationHydration row db)
  /-- an unknown gap of the room's history, unless the room was left -/
  | gap (p r : String) {db : DB} (h : db.roomMembership.get? (p, r) ≠ none) :
      Statement b db
        (recordRoomHistoryRecoveryLocked p r
          ⟨currentMembershipEpoch db p r, departureFenced db p r⟩ db).2
  /-- the exact obligation of the room is settled -/
  | settle (p : String) (recovery : RoomHistoryRecovery) (exhausted : Bool) (rank : Int) {db : DB}
      (hb : b.settles recovery exhausted rank) (h : ClaimsRoomHistoryRecovery db p recovery) :
      Statement b db (settleRoomHistoryRecovery p recovery exhausted rank db).2
  /-- a tenure ends, and with it everything derived for it -/
  | fence (p r : String) {db : DB} (h : b.ends) :
      Statement b db
        (dropProjection p r (setMembershipEpoch p r (currentMembershipEpoch db p r + 1) db))
  | departureFenced (p r : String) (fenced : Bool) {db : DB} (h : b.fences) :
      Statement b db (setDepartureFenced p r fenced db)
  | producer (p : String) (effect : MembershipEffect) {db : DB} (h : b.fences) :
      Statement b db (setProducerPosition p effect db)
  | consumers (rows : Table SyncConsumerRow) {db : DB} (h : b.binds) :
      Statement b db { db with matrixSyncConsumers := rows }

/-! ## What statements leave alone -/

theorem ProjectionFrame.rest (h : ProjectionFrame db db') : db'.rest = db.rest := by
  unfold DB.rest
  rw [h.turnRecords, h.approvalCards, h.backgroundApprovalCalls, h.approvalActionTombstones,
    h.approvalContinuations, h.approvalContinuationSources, h.approvalContinuationCalls,
    h.approvalGrantCards, h.approvalGrants, h.clock]

def tenures (db : DB) : String → String → RoomMembershipRow := membershipRow db

theorem tenures_of_core (h : db'.roomMembership = db.roomMembership) : tenures db' = tenures db := by
  funext p r
  unfold tenures membershipRow
  rw [h]

theorem ProjectionFrame.tenures (h : ProjectionFrame db db') : tenures db' = MindRoom.tenures db := by
  funext p r
  exact h.membershipRow p r

theorem currentMembershipEpoch_of_tenures (h : tenures db' = tenures db)
    (p r : String) : currentMembershipEpoch db' p r = currentMembershipEpoch db p r :=
  congrArg RoomMembershipRow.membershipEpoch (congrFun (congrFun h p) r)

theorem departureFenced_of_tenures (h : tenures db' = tenures db) (p r : String) :
    departureFenced db' p r = departureFenced db p r :=
  congrArg RoomMembershipRow.departureFenced (congrFun (congrFun h p) r)

theorem membershipIsCurrent_of_tenures (h : tenures db' = tenures db) {p r : String}
    {epoch : Int} (hcur : MembershipIsCurrent db p r epoch) : MembershipIsCurrent db' p r epoch := by
  unfold MembershipIsCurrent
  rw [currentMembershipEpoch_of_tenures h, departureFenced_of_tenures h]
  exact hcur

section

variable {b : Scope} {db db' : DB}

theorem recordRoomHistoryRecoveryLocked_eq (p r : String) (state : MembershipState) (db : DB) :
    ∃ rows, (recordRoomHistoryRecoveryLocked p r state db).2 =
      { db with roomHistoryRecovery := rows } := by
  unfold recordRoomHistoryRecoveryLocked
  split
  · exact ⟨_, rfl⟩
  · exact ⟨_, rfl⟩

theorem settleRoomHistoryRecovery_eq (p : String) (recovery : RoomHistoryRecovery)
    (exhausted : Bool) (rank : Int) (db : DB) : ∃ rows, (settleRoomHistoryRecovery p recovery exhausted rank db).2 =
      { db with roomHistoryRecovery := rows } := by
  unfold settleRoomHistoryRecovery
  dsimp only
  split
  · exact ⟨_, rfl⟩
  · exact ⟨_, rfl⟩

/-- Only a fence moves a tenure, and a departure or a return only marks it. -/
theorem Statement.tenures_or (h : Statement b db db') : tenures db' = MindRoom.tenures db ∨
      (∃ p r fenced, b.fences ∧ db' = setDepartureFenced p r fenced db) ∨
      ∃ p r, b.ends ∧ db' =
        dropProjection p r (setMembershipEpoch p r (currentMembershipEpoch db p r + 1) db) := by
  cases h with
  | amend h => exact .inl (tenures_of_core (congrArg Core.membership h.core))
  | outbox h =>
    rw [h.eq]
    exact .inl (tenures_of_core rfl)
  | claimed p r => exact .inl (funext fun p' => funext fun r' => membershipRow_claimed p r p' r' db)
  | fold p event n epoch _ _ => exact .inl (ProjectionFrame.fold p event n epoch db).tenures
  | install p k revision row _ _ _ _ =>
    exact .inl (ProjectionFrame.recordRefetchedRevision p k revision row db).tenures
  | drop p k => exact .inl (ProjectionFrame.dropRefetchedMessage p k db).tenures
  | discard p e => exact .inl (ProjectionFrame.discardDeliveryEvent p e db).tenures
  | gap p r _ =>
    obtain ⟨rows, h⟩ := recordRoomHistoryRecoveryLocked_eq p r
      ⟨currentMembershipEpoch db p r, MindRoom.departureFenced db p r⟩ db
    rw [h]
    exact .inl (tenures_of_core rfl)
  | settle p recovery exhausted rank _ _ =>
    obtain ⟨rows, h⟩ := settleRoomHistoryRecovery_eq p recovery exhausted rank db
    rw [h]
    exact .inl (tenures_of_core rfl)
  | fence p r h => exact .inr (.inr ⟨p, r, h, rfl⟩)
  | departureFenced p r fenced h => exact .inr (.inl ⟨p, r, fenced, h, rfl⟩)
  | deleteOutbox | journal | snapshot | unselect | consume | hydrate | producer | consumers =>
    exact .inl (tenures_of_core rfl)

theorem Statement.tenures (he : ¬ b.ends) (hf : ¬ b.fences) (h : Statement b db db') :
    tenures db' = MindRoom.tenures db := by
  rcases h.tenures_or with h | ⟨_, _, _, hfences, _⟩ | ⟨_, _, hends, _⟩
  · exact h
  · exact absurd hfences hf
  · exact absurd hends he

theorem Statement.epoch (he : ¬ b.ends) (h : Statement b db db') (p r : String) :
    currentMembershipEpoch db' p r = currentMembershipEpoch db p r := by
  rcases h.tenures_or with h | ⟨_, _, _, _, rfl⟩ | ⟨_, _, hends, _⟩
  · exact currentMembershipEpoch_of_tenures h p r
  · exact currentMembershipEpoch_setDepartureFenced ..
  · exact absurd hends he

/-- Deliveries are written by the statements on deliveries only. -/
theorem Statement.outbox_or (h : Statement b db db') :
    Delivers b db db' ∨ (∀ r ∈ db'.matrixDeliveryOutbox, r ∈ db.matrixDeliveryOutbox) ∧
      ∀ r ∈ db.matrixDeliveryOutbox, r ∈ db'.matrixDeliveryOutbox ∨ b.deletes r := by
  have hsame : db'.matrixDeliveryOutbox = db.matrixDeliveryOutbox →
      Delivers b db db' ∨ (∀ r ∈ db'.matrixDeliveryOutbox, r ∈ db.matrixDeliveryOutbox) ∧
        ∀ r ∈ db.matrixDeliveryOutbox, r ∈ db'.matrixDeliveryOutbox ∨ b.deletes r := by
    intro heq
    rw [heq]
    exact .inr ⟨fun _ hr => hr, fun _ hr => .inl hr⟩
  cases h with
  | outbox h => exact .inl h
  | deleteOutbox q hq =>
    refine .inr ⟨fun r hr => (Table.mem_delete.mp hr).1, fun r hr => ?_⟩
    by_cases hqr : q r
    · exact .inr (hq r hqr)
    · exact .inl (Table.mem_delete.mpr ⟨hr, hqr⟩)
  | amend h => exact hsame (congrArg Core.outbox h.core)
  | claimed p r =>
    exact hsame (ProjectionFrame.claim p r db).matrixDeliveryOutbox
  | fold p event n epoch _ _ => exact hsame (ProjectionFrame.fold p event n epoch db).matrixDeliveryOutbox
  | install p k revision row _ _ _ _ =>
    exact hsame (ProjectionFrame.recordRefetchedRevision p k revision row db).matrixDeliveryOutbox
  | drop p k => exact hsame (ProjectionFrame.dropRefetchedMessage p k db).matrixDeliveryOutbox
  | discard p e => exact hsame (ProjectionFrame.discardDeliveryEvent p e db).matrixDeliveryOutbox
  | gap p r _ =>
    obtain ⟨rows, h⟩ := recordRoomHistoryRecoveryLocked_eq p r
      ⟨currentMembershipEpoch db p r, MindRoom.departureFenced db p r⟩ db
    exact hsame (by rw [h])
  | settle p recovery exhausted rank _ _ =>
    obtain ⟨rows, h⟩ := settleRoomHistoryRecovery_eq p recovery exhausted rank db
    exact hsame (by rw [h])
  | journal | snapshot | unselect | consume | hydrate | fence | departureFenced | producer
  | consumers => exact hsame rfl

/-- A statement either amends the approval domain or leaves it alone. -/
theorem Statement.amends_or (h : Statement b db db') : Amends b db db' ∨ db'.rest = db.rest := by
  cases h with
  | amend h => exact .inl h
  | outbox h =>
    rw [h.eq]
    exact .inr rfl
  | fold p event n epoch _ _ => exact .inr (ProjectionFrame.fold p event n epoch db).rest
  | install p k revision row _ _ _ _ =>
    exact .inr (ProjectionFrame.recordRefetchedRevision p k revision row db).rest
  | drop p k => exact .inr (ProjectionFrame.dropRefetchedMessage p k db).rest
  | discard p e => exact .inr (ProjectionFrame.discardDeliveryEvent p e db).rest
  | gap p r _ =>
    obtain ⟨rows, h⟩ := recordRoomHistoryRecoveryLocked_eq p r
      ⟨currentMembershipEpoch db p r, MindRoom.departureFenced db p r⟩ db
    rw [h]
    exact .inr rfl
  | settle p recovery exhausted rank _ _ =>
    obtain ⟨rows, h⟩ := settleRoomHistoryRecovery_eq p recovery exhausted rank db
    rw [h]
    exact .inr rfl
  | claimed | deleteOutbox | journal | snapshot | unselect | consume | hydrate | fence
  | departureFenced | producer | consumers => exact .inr rfl

/-- Cards and background calls are reserved only under the deliveries of the scope. -/
theorem Statement.allows (h : Statement b db db') (ha : b.Allows db) : b.Allows db' := by
  rcases h.amends_or with h | h
  · cases h with
    | card row cards hb hinsert =>
      refine ⟨fun card hcard => ?_, ha.calls⟩
      rcases (Table.mem_insert? hinsert).mp hcard with hold | rfl
      · exact ha.cards card hold
      · exact hb
    | deleteCard p d =>
      refine ⟨fun card hcard => ?_, ha.calls⟩
      exact ha.cards card (Table.mem_delete.mp hcard).1
    | carryCard p d epoch =>
      exact ⟨Table.forall_mem_update (by intro _; rfl) ha.cards fun _ _ _ hb => hb, ha.calls⟩
    | reserveCall row _ happroves _ _ _ =>
      refine ⟨ha.cards, fun call hcall => ?_⟩
      rcases Table.mem_insertOrIgnore.mp hcall with hold | ⟨rfl, _⟩
      · exact ha.calls call hold
      · exact happroves
    | decideBackground call decision reason _ _ _ =>
      exact ⟨ha.cards, Table.forall_mem_update (by intro _; rfl) ha.calls fun _ _ _ hb => hb⟩
    | prune p runId _ =>
      refine ⟨ha.cards, fun call hcall => ?_⟩
      exact ha.calls call (Table.mem_delete.mp hcall).1
    | _ => exact ⟨ha.cards, ha.calls⟩
  · refine ⟨fun card hcard => ?_, fun call hcall => ?_⟩
    · have hcards : db'.approvalCards = db.approvalCards := congrArg Rest.cards h
      exact ha.cards card (hcards ▸ hcard)
    · have hcalls : db'.backgroundApprovalCalls = db.backgroundApprovalCalls :=
        congrArg Rest.background h
      exact ha.calls call (hcalls ▸ hcall)

end

/-! ## Sequences of statements -/

/-- What a transaction of statements does, where its scope allows what the store holds. -/
structure Writes (b : Scope) (db db' : DB) : Prop where
  statements : b.Allows db → Relation.ReflTransGen (Statement b) db db'

section

variable {b : Scope} {db db' db'' : DB}

theorem Statement.writes (h : Statement b db db') : Writes b db db' :=
  ⟨fun _ => Relation.ReflTransGen.single h⟩

theorem Amends.writes (h : Amends b db db') : Writes b db db' := (Statement.amend h).writes

theorem Delivers.writes (h : Delivers b db db') : Writes b db db' := (Statement.outbox h).writes

theorem writes_refl (b : Scope) (db : DB) : Writes b db db := ⟨fun _ => Relation.ReflTransGen.refl⟩

/-- An invariant of every statement is an invariant of every sequence of them. -/
theorem statements_preserve {P : DB → Prop} (hP : ∀ s s', Statement b s s' → P s → P s')
    (h : Relation.ReflTransGen (Statement b) db db') (hdb : P db) : P db' := by
  induction h with
  | refl => exact hdb
  | tail _ hs ih => exact hP _ _ hs ih

/-- A preorder that contains every statement contains every sequence of them. -/
theorem statements_within {R : DB → DB → Prop} [IsPreorder DB R]
    (hR : ∀ s s', Statement b s s' → R s s') (h : Relation.ReflTransGen (Statement b) db db') :
    R db db' := by
  induction h with
  | refl => exact refl_of R _
  | tail _ hs ih => exact trans_of R ih (hR _ _ hs)

theorem Writes.trans (h : Writes b db db') (h' : Writes b db' db'') : Writes b db db'' := by
  refine ⟨fun ha => ?_⟩
  have hw := h.statements ha
  have ha' : b.Allows db' := statements_preserve (fun _ _ hs => hs.allows) hw ha
  exact hw.trans (h'.statements ha')

instance (b : Scope) : IsPreorder DB (Writes b) where
  refl := writes_refl b
  trans _ _ _ := Writes.trans

/-- A scope that allows everything a tenure contains. -/
def Scope.quiet : Scope where
  folds _ := True
  rooms := False
  installs _ _ := True
  pauses _ := True
  settles _ _ _ := True
  deletes _ := True
  acks _ := True
  ends := False
  fences := False
  binds := False
  approves _ _ := True
  pausing := True
  releasing := True
  grants := True
  turns := True

theorem Writes.tenures (h : Writes .quiet db db') : tenures db' = MindRoom.tenures db := by
  have hw := h.statements (.of_all fun _ _ => trivial)
  have hfix : Fixes MindRoom.tenures db db' := statements_within (fun _ _ hs => hs.tenures id id) hw
  exact hfix

theorem writes_claimed (p r : String) : Writes b db (claimed p r db) :=
  (Statement.claimed p r).writes

theorem writes_journal {rows : Table JournalRow} (ha : Ages db.journalEvents rows) :
    Writes b db { db with journalEvents := rows } :=
  (Statement.journal rows ha).writes

end

end MindRoom
