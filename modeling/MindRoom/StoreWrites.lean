import MindRoom.ApprovalWrites

/-! # The store's operations as statements

Admission, the fence, hydration and the rest of `event_journal/store.py`, followed through
their code once. `Op.writes` is the result: what an operation does to the database is a
sequence of statements, whatever its arguments, as long as the caller keeps its promises.
-/

namespace MindRoom

open Transaction

variable {b : Scope}

/-! ## Projection -/

/-- The event may be folded under the membership of the room. -/
def Scope.FoldsIn (b : Scope) (roomId : String) (event : ProjectedEvent) : Prop :=
  b.folds event ∧ (b.rooms → event.roomId = roomId)

variable {projected : Option ProjectedEvent} {epoch : Int}

theorem writes_project (p : String) {event : ProjectedEvent} {receiptOrder : Nat} {db : DB} (hb : b.folds event)
    (hepoch : b.rooms → currentMembershipEpoch db p event.roomId = epoch) :
    Writes b db (project p event receiptOrder epoch db).2 := by
  have hclaims := onlyClaims_eventBelongsToMembership p event.roomId event.eventId epoch
    event.sender event.transactionId event.content db
  have hepoch' := fun hr => (currentMembershipEpoch_of_tenures
    (ProjectionFrame.onlyClaims hclaims).tenures p event.roomId).trans (hepoch hr)
  unfold project
  dsimp only
  split
  · exact writes_onlyClaims hclaims
  · exact (writes_onlyClaims hclaims).trans
      (Statement.fold p event receiptOrder epoch hb hepoch').writes

theorem writes_projectChunk (p : String) {roomId : String} {events : List ProjectedEvent}
    (hb : ∀ event ∈ events, b.FoldsIn roomId event) {db : DB} (hepoch : currentMembershipEpoch db p roomId = epoch) :
    Writes b db (projectChunk p events epoch db) := by
  unfold projectChunk
  induction events generalizing db with
  | nil => exact writes_refl b db
  | cons event rest ih =>
    obtain ⟨hfold, hroom⟩ := hb event List.mem_cons_self
    have hproject : Writes b db (project p event 0 epoch db).2 :=
      writes_project p hfold fun hr => hroom hr ▸ hepoch
    refine hproject.trans (ih (fun e he => hb e (List.mem_cons_of_mem _ he)) ?_)
    rw [currentMembershipEpoch_of_tenures (ProjectionFrame.project p event 0 epoch db).tenures]
    exact hepoch

theorem writes_projectAdmittedEvent (p : String) {projected : ProjectedEvent} {receiptOrder : Nat}
    {db : DB} (hb : b.folds projected) (hepoch : b.rooms → currentMembershipEpoch db p projected.roomId = epoch) :
    Writes b db (projectAdmittedEvent p projected receiptOrder epoch db) := by
  unfold projectAdmittedEvent
  dsimp only
  split
  · exact writes_project p hb hepoch
  · exact (writes_project p hb hepoch).trans (writes_settleRows ..)

/-! ## Admission -/

/-- A claimed membership state is the room's, and the claim is all that happened. -/
theorem claimMembershipState_eq_ok {p r : String} {state : MembershipState} {db db' : DB}
    (h : claimMembershipState p r db = .ok (state, db')) :
    state = ⟨currentMembershipEpoch db p r, departureFenced db p r⟩ ∧ db' = claimed p r db ∧
      0 ≤ currentMembershipEpoch db p r := by
  unfold claimMembershipState at h
  obtain ⟨claim, t, hclaim, hrest⟩ := bind_eq_ok.mp h
  rw [modifyGet_eq_ok, claimMembershipRow_eq, Prod.mk.injEq] at hclaim
  obtain ⟨rfl, rfl⟩ := hclaim
  dsimp only at hrest
  split at hrest
  · obtain ⟨_, _, hthrow, _⟩ := bind_eq_ok.mp hrest
    exact absurd hthrow throw_eq_ok
  · next hneg =>
    obtain ⟨rfl, rfl⟩ := pure_eq_ok.mp hrest
    exact ⟨rfl, rfl, not_lt.mp hneg⟩

theorem journalRow_released (p : String) (event : InboundEvent) (epoch : Int) (n : Nat) :
    (journalRow p event epoch n).Released := by
  intro h
  unfold journalRow at h ⊢
  dsimp only at h ⊢
  split at h
  · cases h
  · next hclass => exact ⟨if_neg hclass, rfl⟩

theorem writes_insertJournal (p : String) (event : InboundEvent) (epoch : Int) (db : DB) :
    Writes b db (insertJournal p event epoch db).2 := by
  unfold insertJournal
  dsimp only
  split
  · exact (Amends.idle _ db.roomMemberJoins).writes
  · have hreleased := journalRow_released p event epoch (db.receiptOrderSeq + 1)
    exact (writes_journal (ages_insertOrIgnore hreleased)).trans
      (Amends.idle _ db.roomMemberJoins).writes

theorem insertJournal_tenures (p : String) (event : InboundEvent) (epoch : Int) (db : DB) :
    tenures (insertJournal p event epoch db).2 = tenures db := by
  unfold insertJournal
  dsimp only
  split <;> exact tenures_of_core rfl

/-- The projection an admission carries may be folded in the event's room. -/
def Carries (b : Scope) (event : InboundEvent) (projected : Option ProjectedEvent) : Prop :=
  ∀ q ∈ projected, b.FoldsIn event.roomId q

theorem respects_admitInbound (p : String) {event : InboundEvent}
    (h : Carries b event projected) : Respects (Writes b) (admitInbound p event projected) := by
  unfold admitInbound
  refine Respects.of_at fun db =>
    ((respects_claimMembershipState p event.roomId).at db).bind fun state t ht => ?_
  obtain ⟨rfl, rfl, _⟩ := claimMembershipState_eq_ok ht
  refine respectsAt_modifyGet_bind (writes_insertJournal ..) ?_
  split
  · exact respectsAt_pure
  · split
    · exact respectsAt_pure
    · next q =>
      obtain ⟨hb, hroom⟩ := h q rfl
      refine respectsAt_modify_bind (writes_projectAdmittedEvent p hb fun hr => ?_) respectsAt_pure
      rw [currentMembershipEpoch_of_tenures (insertJournal_tenures ..), hroom hr, currentMembershipEpoch_claimed]

theorem admitInbound_tenures (p : String) (event : InboundEvent) (projected : Option ProjectedEvent) :
    Respects (Fixes tenures) (admitInbound p event projected) :=
  have hq : Carries .quiet event projected := fun _ _ => ⟨trivial, fun hr => nomatch hr⟩
  (respects_admitInbound p hq).mono fun _ _ hw => hw.tenures

theorem respects_admitEvent (host : Host) (p : String) {event : InboundEvent} (h : Carries b event projected) :
    Respects (Writes b) (admitEvent host p event projected) := by
  unfold admitEvent
  refine (respects_admitInbound p h).bind fun result => ?_
  dsimp only
  exact respects_ite
    (fun _ => (respects_snapshotInteractiveSource ..).bind fun _ => respects_pure)
    (fun _ => respects_pure)

theorem carries_none (b : Scope) (event : InboundEvent) : Carries b event none :=
  fun _ h => nomatch h

theorem respects_admitSuppressedSemanticIdentity (p : String) (event : InboundEvent) :
    Respects (Writes b) (admitSuppressedSemanticIdentity p event) := by
  unfold admitSuppressedSemanticIdentity
  refine (respects_admitInbound p (carries_none b _)).bind fun result => ?_
  exact respects_ite
    (fun _ => respects_get.bind fun _ => respects_liftM.bind fun _ => respects_pure)
    (fun _ => respects_pure)

theorem respects_observeJoin (p : String) (event : InboundEvent) : Respects (Writes b) (observeJoin p event) := by
  unfold observeJoin
  refine respects_ite (fun _ => ?_) (fun _ => respects_pure)
  split
  · exact respects_throw
  · refine respects_ite (fun _ => ?_) (fun _ => respects_pure)
    split
    · exact respects_throw
    · exact respects_modify fun s => (Amends.idle s.receiptOrderSeq _).writes

theorem respectsAt_projectRetained (p : String) {event : InboundEvent} {db : DB} (h : Carries b event projected)
    (hepoch : currentMembershipEpoch db p event.roomId = epoch) :
    RespectsAt (Writes b) db (projectRetained p event projected epoch) := by
  unfold projectRetained
  refine respectsAt_get_bind (respectsAt_liftM_bind fun retained _ => ?_)
  split
  · exact respectsAt_pure
  · next q =>
    obtain ⟨hb, hroom⟩ := h q rfl
    split
    · exact respectsAt_modify (writes_projectAdmittedEvent p hb fun hr => hroom hr ▸ hepoch)
    · exact respectsAt_pure

theorem respects_applySemanticIngestionDisposition (p : String) {event : InboundEvent} (h : Carries b event projected) :
    Respects (Writes b) (applySemanticIngestionDisposition p event projected) := by
  unfold applySemanticIngestionDisposition
  refine Respects.of_at fun db =>
    ((respects_claimMembershipState p event.roomId).at db).bind fun state t ht => ?_
  obtain ⟨rfl, rfl, _⟩ := claimMembershipState_eq_ok ht
  split
  · exact (Respects.bind (respects_admitSuppressedSemanticIdentity ..)
      fun _ => respects_pure).at _
  · refine ((respects_admitInbound p h).at _).bind fun result s hs => ?_
    have hten := (admitInbound_tenures p event projected).ok _ _ _ hs
    have hepoch : currentMembershipEpoch s p event.roomId =
        currentMembershipEpoch db p event.roomId := by
      rw [currentMembershipEpoch_of_tenures hten, currentMembershipEpoch_claimed]
    have hobserve : Respects (Writes b) (do
        observeJoin p event
        return decide (result = .admitted ∧ event.eventClass = .actionable)) :=
      Respects.bind (respects_observeJoin ..) fun _ => respects_pure
    dsimp only
    split
    · exact (respectsAt_projectRetained p h hepoch).bind fun _ _ _ => hobserve.at _
    · exact hobserve.at _

theorem respects_recordRoomHistoryRecovery (p roomId : String) :
    Respects (Writes b) (recordRoomHistoryRecovery p roomId) := by
  unfold recordRoomHistoryRecovery
  refine Respects.of_at fun db =>
    ((respects_claimMembershipState p roomId).at db).bind fun state t ht => ?_
  obtain ⟨rfl, rfl, _⟩ := claimMembershipState_eq_ok ht
  refine respectsAt_modifyGet (Statement.writes ?_)
  have hgap : Statement b (claimed p roomId db) _ :=
    Statement.gap p roomId (tenanted_claim p roomId db)
  rw [currentMembershipEpoch_claimed, departureFenced_claimed] at hgap
  exact hgap

/-! ## The fence -/

theorem writes_retireUnattempted (p roomId : String) (db : DB) : Writes b db (retireUnattempted p roomId db) :=
  (Delivers.fence p roomId).writes

/-- What a scope allows that lets a tenure end. -/
structure Scope.Ends (b : Scope) : Prop where
  deletes : ∀ r : OutboxRow, b.approves r.principalId r.deliveryId → b.deletes r
  ends : b.ends
  releasing : b.releasing

/-- What a fence does behind the projection it drops: it fails what waited for the room, retires
its unattempted deliveries, and lets go of the runs its work was paused in. -/
theorem advance_cases
    (hd : ∀ r : OutboxRow, b.approves r.principalId r.deliveryId → b.deletes r) (hr : b.releasing)
    {host : Host} {p roomId : String} {db s' : DB} (h : advanceMembershipEpoch host p roomId db = .ok (epoch, s')) :
    ∃ s, Writes b
        (dropProjection p roomId
          (setMembershipEpoch p roomId (currentMembershipEpoch db p roomId + 1) db)) s ∧
      Writes b (retireUnattempted p roomId s) s' := by
  unfold advanceMembershipEpoch at h
  obtain ⟨_, t, ht, h⟩ := bind_eq_ok.mp h
  obtain ⟨rfl, rfl⟩ := get_eq_ok.mp ht
  obtain ⟨_, t, ht, h⟩ := bind_eq_ok.mp h
  obtain rfl := modify_eq_ok.mp ht
  obtain ⟨_, t, ht, h⟩ := bind_eq_ok.mp h
  obtain rfl := modify_eq_ok.mp ht
  obtain ⟨_, t, ht, h⟩ := bind_eq_ok.mp h
  obtain rfl := modify_eq_ok.mp ht
  obtain ⟨_, s, hfail, h⟩ := bind_eq_ok.mp h
  obtain ⟨_, t, ht, h⟩ := bind_eq_ok.mp h
  obtain rfl := modify_eq_ok.mp ht
  refine ⟨s, ?_, ?_⟩
  · have hretire := Approvals.writes_retireCompletedCardsForDeparture hd p roomId
      (dropProjection p roomId
        (setMembershipEpoch p roomId (currentMembershipEpoch db p roomId + 1) db))
    exact hretire.trans
      ((Approvals.respects_failContinuationsForDepartedCardOwner ..).ok _ _ _ hfail)
  · have htail : Respects (Writes b) (do
        Approvals.expireCardsForDepartedContinuations host p roomId
          "Requesting agent left the room."
        modify (deleteContinuationsOf p roomId)
        modify (settleTurnWork p roomId)
        return currentMembershipEpoch db p roomId + 1) := by
      refine Respects.bind (Approvals.respects_expireCardsForDepartedContinuations ..) fun _ => ?_
      refine Respects.bind (respects_modify fun s => (Amends.release _ hr).writes) fun _ => ?_
      exact Respects.bind (respects_modify fun s => writes_settleRows ..) fun _ => respects_pure
    exact htail.ok _ _ _ h

theorem writes_behind_fence (he : b.Ends) {host : Host} {p roomId : String}
    {db s' : DB} (h : advanceMembershipEpoch host p roomId db = .ok (epoch, s')) : Writes b
      (dropProjection p roomId
        (setMembershipEpoch p roomId (currentMembershipEpoch db p roomId + 1) db)) s' := by
  obtain ⟨s, hfirst, hrest⟩ := advance_cases he.deletes he.releasing h
  exact hfirst.trans ((writes_retireUnattempted p roomId s).trans hrest)

theorem respects_advanceMembershipEpoch (he : b.Ends) (host : Host)
    (p roomId : String) : Respects (Writes b) (advanceMembershipEpoch host p roomId) :=
  -- the tenure and what was derived for it go together
  ⟨fun _ _ _ h => (Statement.fence p roomId he.ends).writes.trans (writes_behind_fence he h)⟩

/-- What a batch is followed by: the statements of a scope, and fences taken whole. -/
structure Scope.Bounds (b : Scope) (host : Host) (p : String) (R : DB → DB → Prop) : Prop where
  writes : ∀ s s', Writes b s s' → R s s'
  fences : b.fences
  binds : b.binds
  advance : ∀ roomId, Respects R (advanceMembershipEpoch host p roomId)

theorem Scope.Ends.bounds (he : b.Ends) (hf : b.fences) (hb : b.binds) (host : Host) (p : String) :
    b.Bounds host p (Writes b) :=
  ⟨fun _ _ h => h, hf, hb, respects_advanceMembershipEpoch he host p⟩

section

variable {R : DB → DB → Prop} [IsPreorder DB R] {host : Host} {p : String}

theorem respects_applyMembershipEffect (hr : b.Bounds host p R) (effect : MembershipEffect) :
    Respects R (applyMembershipEffect host p effect) := by
  have hset : Respects R (do
      modify (setDepartureFenced p effect.roomId (effect.membership ≠ .join))
      modify (setProducerPosition p effect) : Tx Unit) :=
    Respects.bind
      (respects_modify fun s => hr.writes _ _ (Statement.departureFenced p _ _ hr.fences).writes)
      fun _ => respects_modify fun s => hr.writes _ _ (Statement.producer p effect hr.fences).writes
  unfold applyMembershipEffect
  refine respects_get.bind fun db => Respects.bind respects_liftM fun _ => ?_
  refine ((respects_claimMembershipState p effect.roomId).mono hr.writes).bind fun state => ?_
  dsimp only
  refine respects_ite (fun _ => ?_) (fun _ => hset)
  refine respects_ite (fun _ => respects_throw.bind fun _ => ?_) (fun _ => ?_)
  all_goals
    exact Respects.bind (hr.advance _) fun _ => hset

end

/-! ## Batches -/

/-- The projections a record carries may be folded. -/
def IngestionRecordAdmission.Carried (b : Scope) (record : IngestionRecordAdmission) : Prop :=
  ∀ q ∈ record.projected, b.folds q

theorem validateIngestionRecord_semantic {record : IngestionRecordAdmission}
    (h : validateIngestionRecord record = .ok ())
    (hd : record.disposition = .semanticEvent) : SemanticRecordValid record := by
  unfold validateIngestionRecord at h
  simp only [hd] at h
  cases hv : validateMembershipEffect record with
  | error e =>
    rw [hv] at h
    cases h
  | ok u =>
    rw [hv] at h
    by_contra hno
    change (if SemanticRecordValid record then pure () else throw _) = _ at h
    rw [if_neg hno] at h
    cases h

theorem validated_records {admission : IngestionBatchAdmission}
    (h : validateIngestionBatchAdmission admission = .ok ()) :
    ∀ record ∈ admission.records, validateIngestionRecord record = .ok () := by
  have hforM : ∀ records : List IngestionRecordAdmission, records.forM validateIngestionRecord = .ok () →
        ∀ record ∈ records, validateIngestionRecord record = .ok () := by
    intro records
    induction records with
    | nil => exact fun _ _ hr => nomatch hr
    | cons record rest ih =>
      intro hall r hr
      cases hv : validateIngestionRecord record with
      | error e =>
        change (validateIngestionRecord record >>= fun _ => rest.forM _) = _ at hall
        rw [hv] at hall
        cases hall
      | ok u =>
        change (validateIngestionRecord record >>= fun _ => rest.forM _) = _ at hall
        rw [hv] at hall
        rcases List.mem_cons.mp hr with rfl | hr
        · exact hv
        · exact ih hall r hr
  unfold validateIngestionBatchAdmission at h
  split at h
  · cases h
  · exact hforM _ h

theorem respects_applyRecordEffect {R : DB → DB → Prop} [IsPreorder DB R] {host : Host} {p : String}
    (hr : b.Bounds host p R) (record : IngestionRecordAdmission) : Respects R (applyRecordEffect host p record) := by
  unfold applyRecordEffect
  split
  · exact respects_applyMembershipEffect hr _
  · exact respects_pure

theorem respects_applyDisposition (p : String) {record : IngestionRecordAdmission}
    (hvalid : validateIngestionRecord record = .ok ()) (hc : record.Carried b) :
    Respects (Writes b) (applyDisposition p record) := by
  unfold applyDisposition
  split
  · exact respects_pure
  · exact respects_pure
  · exact Respects.bind (respects_recordRoomHistoryRecovery ..) fun _ => respects_pure
  · next hsem =>
    obtain ⟨_, event, hevent, _, _, _, _, _, hagree⟩ :=
      validateIngestionRecord_semantic hvalid hsem
    rw [hevent]
    exact respects_applySemanticIngestionDisposition p fun q hq => ⟨hc q hq, fun _ => (hagree q hq).2.1⟩

section

variable {R : DB → DB → Prop} [IsPreorder DB R] {host : Host} {p : String}

theorem respects_applyIngestionDisposition (hr : b.Bounds host p R)
    {record : IngestionRecordAdmission} (hvalid : validateIngestionRecord record = .ok ())
    (hc : record.Carried b) : Respects R (applyIngestionDisposition host p record) :=
  (respects_applyRecordEffect hr record).bind fun _ =>
    (respects_applyDisposition p hvalid hc).mono hr.writes

theorem respects_applyRecord (hr : b.Bounds host p R) {record : IngestionRecordAdmission}
    (hvalid : validateIngestionRecord record = .ok ()) (hc : record.Carried b) :
    Respects R (applyRecord host p (snapshotInteractiveSource host p) record) := by
  have hsnapshot : ∀ event, Respects R (snapshotInteractiveSource host p event) :=
    fun event => (respects_snapshotInteractiveSource host p event).mono hr.writes
  unfold applyRecord
  refine (respects_applyIngestionDisposition hr hvalid hc).bind fun semanticNew => ?_
  dsimp only
  split
  · exact respects_ite (fun _ => (hsnapshot _).bind fun _ => respects_pure) (fun _ => respects_pure)
  · exact Respects.bind respects_pure fun _ => respects_pure

end

variable {R : DB → DB → Prop} {host : Host} {db : DB} {epoch : Int}

theorem writes_consumers (h : b.binds) (rows : Table SyncConsumerRow) :
    Writes b db { db with matrixSyncConsumers := rows } :=
  (Statement.consumers rows h).writes

theorem respects_admitBatch [IsPreorder DB R] {p : String}
    (hr : b.Bounds host p R) {admission : IngestionBatchAdmission}
    (hc : ∀ record ∈ admission.records, record.Carried b) : Respects R (admitBatch host p admission) := by
  unfold admitBatch admitIngestionBatch
  refine Respects.of_at fun db => respectsAt_liftM_bind fun _ hvalid => ?_
  have hvalid := validated_records hvalid
  refine respectsAt_get_bind ?_
  split
  · exact respects_liftM.at db
  · refine respectsAt_modify_bind (hr.writes _ _ (writes_consumers hr.binds _)) ?_
    refine ((Respects.mapM_mem fun record hrec => ?_).bind fun _ => respects_pure).at _
    exact respects_applyRecord hr (hvalid record hrec) (hc record hrec)

/-- The records of an accepted batch up to one of them commit, and leave this state to it. -/
def Reaches (host : Host) (p : String) (admission : IngestionBatchAdmission) (db : DB)
    (record : IngestionRecordAdmission) (t : DB) : Prop :=
  acceptedConsumer db p admission ≠ none ∧
    ∃ before after facts, admission.records = before ++ record :: after ∧
      before.mapM (applyRecord host p (snapshotInteractiveSource host p)) (advanceSequence p db) =
        .ok (facts, t)

/-- A batch that commits runs every record it reaches, and then the records behind it. -/
theorem Reaches.runs [IsPreorder DB R] {p : String}
    (hr : b.Bounds host p R) {admission : IngestionBatchAdmission} {db t s' : DB}
    {record : IngestionRecordAdmission} {facts : AdmissionFacts} (hreach : Reaches host p admission db record t)
    (hc : ∀ record ∈ admission.records, record.Carried b) (h : admitBatch host p admission db = .ok (facts, s')) :
    validateIngestionRecord record = .ok () ∧ R db t ∧
      ∃ fact t', applyRecord host p (snapshotInteractiveSource host p) record t = .ok (fact, t') ∧
        R t' s' := by
  obtain ⟨haccepted, before, after, done, hrecords, hbefore⟩ := hreach
  unfold admitBatch admitIngestionBatch at h
  obtain ⟨_, _, hcheck, h⟩ := bind_eq_ok.mp h
  obtain ⟨hchecked, rfl⟩ := liftM_eq_ok.mp hcheck
  have hvalid := validated_records hchecked
  have hrun : ∀ l : List IngestionRecordAdmission, (∀ record ∈ l, record ∈ admission.records) →
      Respects R (l.mapM (applyRecord host p (snapshotInteractiveSource host p))) :=
    fun l hl => Respects.mapM_mem fun record hrec =>
      respects_applyRecord hr (hvalid record (hl record hrec)) (hc record (hl record hrec))
  obtain ⟨_, _, hget, h⟩ := bind_eq_ok.mp h
  obtain ⟨rfl, rfl⟩ := get_eq_ok.mp hget
  obtain ⟨consumer, hconsumer⟩ := Option.ne_none_iff_exists'.mp haccepted
  rw [hconsumer] at h
  obtain ⟨_, _, hadvance, h⟩ := bind_eq_ok.mp h
  obtain rfl := modify_eq_ok.mp hadvance
  obtain ⟨_, _, hmap, h⟩ := bind_eq_ok.mp h
  obtain ⟨_, rfl⟩ := pure_eq_ok.mp h
  rw [hrecords, List.mapM_append] at hmap
  obtain ⟨_, t₁, h₁, hmap⟩ := bind_eq_ok.mp hmap
  rw [hbefore] at h₁
  obtain ⟨_, rfl⟩ := Prod.mk.injEq _ _ _ _ ▸ Except.ok.inj h₁
  obtain ⟨_, t₂, hrest, hend⟩ := bind_eq_ok.mp hmap
  obtain ⟨_, rfl⟩ := pure_eq_ok.mp hend
  rw [List.mapM_cons] at hrest
  obtain ⟨fact, t', hrecord, hrest⟩ := bind_eq_ok.mp hrest
  obtain ⟨_, t₂, hafter, hend⟩ := bind_eq_ok.mp hrest
  obtain ⟨_, rfl⟩ := pure_eq_ok.mp hend
  refine ⟨hvalid record (by rw [hrecords]; simp), ?_, fact, t', hrecord, ?_⟩
  · have hfirst : R db (advanceSequence p db) := hr.writes _ _ (writes_consumers hr.binds _)
    refine trans_of R hfirst ((hrun before ?_).ok _ _ _ hbefore)
    intro record hrec
    rw [hrecords]
    exact List.mem_append_left _ hrec
  · refine (hrun after ?_).ok _ _ _ hafter
    intro record hrec
    rw [hrecords]
    exact List.mem_append_right _ (List.mem_cons_of_mem _ hrec)

/-! ## Hydration and recovery -/

theorem membershipIsCurrent_of_claim {p roomId : String}
    (h : ¬ decide (MembershipIsCurrent db p roomId epoch) = false) :
    currentMembershipEpoch (claimed p roomId db) p roomId = epoch := by
  rw [currentMembershipEpoch_claimed]
  exact (of_decide_eq_true (Bool.eq_true_of_not_eq_false h)).1

/-- A walk publishes its coverage under the membership it has just claimed. -/
theorem writes_publish (p roomId : String) (threadId : Option ThreadId) (complete : Bool) (attemptedPolicyRank : Int)
    (h : ¬ decide (MembershipIsCurrent db p roomId epoch) = false) : Writes b db (publishConversationHydration
      (hydrationRow p roomId threadId complete attemptedPolicyRank epoch) (claimed p roomId db)) := by
  refine (writes_claimed p roomId).trans (Statement.writes (Statement.hydrate _ ?_))
  exact membershipIsCurrent_of_claim h

theorem writes_markConversationHydrated (p roomId : String) (threadId : Option ThreadId)
    (complete : Bool) (attemptedPolicyRank epoch : Int) (db : DB) : Writes b db
      (markConversationHydrated p roomId threadId complete attemptedPolicyRank epoch db).2 := by
  unfold markConversationHydrated
  rw [claimMembershipEpoch_eq]
  dsimp only
  split
  · exact writes_claimed p roomId
  · next h => exact writes_publish p roomId threadId complete attemptedPolicyRank h

theorem writes_installHydrationChunk (p : String) {roomId : String} {events : List ProjectedEvent}
    (hb : ∀ event ∈ events, b.FoldsIn roomId event) (db : DB) :
    Writes b db (installHydrationChunk p roomId events epoch db).2 := by
  unfold installHydrationChunk
  rw [claimMembershipEpoch_eq]
  dsimp only
  split
  · exact writes_claimed p roomId
  · next h =>
    exact (writes_claimed p roomId).trans
      (writes_projectChunk p hb (membershipIsCurrent_of_claim h))

theorem writes_installRecoveryChunk (p : String) {recovery : RoomHistoryRecovery} {events : List ProjectedEvent}
    (hb : ∀ event ∈ events, b.FoldsIn recovery.roomId event) (db : DB) :
    Writes b db (installRecoveryChunk p recovery events epoch db).2 := by
  unfold installRecoveryChunk
  rw [claimMembershipEpoch_eq]
  dsimp only
  split
  · exact writes_claimed p recovery.roomId
  · next h =>
    split
    · exact writes_claimed p recovery.roomId
    · exact (writes_claimed p recovery.roomId).trans
        (writes_projectChunk p hb (membershipIsCurrent_of_claim h))

theorem writes_settleHistoryRecovery (p : String) {recovery : RoomHistoryRecovery}
    {exhaustedServer : Bool} {attemptedPolicyRank : Int} (epoch : Int)
    (hb : b.settles recovery exhaustedServer attemptedPolicyRank) (db : DB) : Writes b db
      (settleHistoryRecovery p recovery exhaustedServer attemptedPolicyRank epoch db).2 := by
  unfold settleHistoryRecovery
  rw [claimMembershipEpoch_eq]
  dsimp only
  split
  · exact writes_claimed p recovery.roomId
  · next h =>
    split
    · exact writes_claimed p recovery.roomId
    · next hclaims =>
      refine (writes_publish p recovery.roomId none exhaustedServer attemptedPolicyRank h).trans ?_
      refine Statement.writes (Statement.settle p recovery exhaustedServer attemptedPolicyRank hb ?_)
      exact not_not.mp hclaims

/-! ## Refetches -/

theorem writes_installRefetchedRevision (p : String) {k : RefetchKey} {revision : RefetchedRevision}
    (hb : b.installs k revision) (db : DB) : Writes b db (installRefetchedRevision p k revision db).2 := by
  have hclaim : Writes b db (claimed p k.roomId db) := writes_claimed p k.roomId
  have hbelongs := hclaim.trans (writes_onlyClaims (onlyClaims_eventBelongsToMembership p k.roomId
    revision.revisionEventId k.expectedMembershipEpoch revision.revisionSender
    revision.revisionTransactionId revision.content (claimed p k.roomId db)))
  unfold installRefetchedRevision
  rw [claimMembershipEpoch_eq]
  dsimp only
  split
  · exact hclaim.trans (Statement.drop p k).writes
  · split
    · exact hbelongs.trans (Statement.drop p k).writes
    · split
      · exact hbelongs
      · next hsidecar =>
        split
        · exact hbelongs
        · next htombstone =>
          split
          · exact hbelongs
          · next row hrow =>
            exact hbelongs.trans (Statement.install p k revision row hb
              (Bool.eq_false_iff.mpr hsidecar) htombstone hrow).writes

/-! ## Deliveries -/

theorem writes_deliveryMembership (p : String) (request : DeliveryRequest) (db : DB) :
    Writes b db (deliveryMembership p request db).2 := by
  unfold deliveryMembership
  split
  · exact writes_refl b db
  · split
    · exact writes_claimActiveMembershipEpoch ..
    · next admittedEpoch _ =>
      split
      · exact writes_refl b db
      · exact writes_claimMembershipEpoch p request.roomId admittedEpoch db

/-- The membership a delivery is enqueued under is the room's, or its attempted row's. -/
theorem deliveryMembership_authorized {p : String} {request : DeliveryRequest} {db db' : DB}
    (h : deliveryMembership p request db = (some epoch, db')) : (request.intent epoch).Authorized db' p := by
  unfold deliveryMembership at h
  split at h
  · next row hrow =>
    obtain ⟨hrow, hattempted⟩ := Option.filter_eq_some_iff.mp hrow
    obtain ⟨-, rfl⟩ := Prod.mk.injEq _ _ _ _ ▸ h
    exact .inr ⟨row, hrow, hattempted⟩
  · left
    split at h
    · rw [claimActiveMembershipEpoch_eq, Prod.mk.injEq] at h
      obtain ⟨hepoch, rfl⟩ := h
      refine membershipIsCurrent_claimed.mpr ?_
      split at hepoch
      · cases hepoch
      · next hfenced => exact ⟨Option.some.inj hepoch, Bool.eq_false_iff.mpr hfenced⟩
    · split at h
      · cases (Prod.mk.injEq _ _ _ _ ▸ h).1
      · rw [claimMembershipEpoch_eq, Prod.mk.injEq] at h
        obtain ⟨hepoch, rfl⟩ := h
        refine membershipIsCurrent_claimed.mpr ?_
        split at hepoch
        · next hcurrent => exact Option.some.inj hepoch ▸ of_decide_eq_true hcurrent
        · cases hepoch

theorem respects_enqueueMatrixDelivery (host : Host) (p : String) (request : DeliveryRequest) :
    Respects (Writes b) (enqueueMatrixDelivery host p request) := by
  unfold enqueueMatrixDelivery
  refine Respects.of_at fun db =>
    respectsAt_modifyGet_bind (writes_deliveryMembership ..) ?_
  rcases hmembership : deliveryMembership p request db with ⟨membership, t⟩
  cases membership with
  | none => exact respectsAt_pure
  | some epoch =>
    have hauthorized := deliveryMembership_authorized hmembership
    refine (respectsAt_enqueue host p (fun _ => rfl) (.inl hauthorized)).bind
      fun transactionId s _ => ?_
    cases transactionId with
    | none => exact respectsAt_pure
    | some transactionId =>
      exact respectsAt_modify_bind (writes_settleMany ..) respectsAt_pure

theorem respects_retireMatrixDelivery (p deliveryId : String) (stage : DeliveryStage) (roomId : String) (epoch : Int) :
    Respects (Writes b) (retireMatrixDelivery p deliveryId stage roomId epoch) := by
  unfold retireMatrixDelivery
  refine Respects.bind (respects_modifyGet fun s => writes_claimMembershipEpoch ..) fun _ => ?_
  refine Respects.bind (respects_retire ..) fun delivery => ?_
  split
  · exact respects_pure
  · dsimp only
    split
    · exact respects_ite
        (fun _ => Respects.bind (respects_modify fun s => (Statement.discard p _).writes)
          fun _ => respects_pure)
        (fun _ => respects_pure)
    · exact Respects.bind respects_pure fun _ => respects_pure

/-- An owned delivery is owned under the current membership of its own room. -/
theorem claimActiveDeliveryOwnership_some {p deliveryId : String} {stage : DeliveryStage}
    {expectedRoomId : Option String} {room : String}
    (h : (claimActiveDeliveryOwnership p deliveryId stage expectedRoomId db).1 =
      some (room, epoch)) :
    ∃ row, outboxAt db p deliveryId stage = some row ∧ row.roomId = room ∧
      row.membershipEpoch = epoch ∧ row.retired = false ∧ MembershipIsCurrent db p room epoch := by
  unfold claimActiveDeliveryOwnership at h
  cases hrow : outboxAt db p deliveryId stage with
  | none =>
    rw [hrow] at h
    cases h
  | some row =>
    rw [hrow] at h
    dsimp only at h
    split at h
    · cases h
    · rw [claimMembershipEpoch_eq] at h
      dsimp only at h
      split at h
      · next hcur =>
        simp only [Option.some.injEq, Prod.mk.injEq] at h
        obtain ⟨rfl, rfl⟩ := h
        exact ⟨row, rfl, rfl, rfl, hcur.2, of_decide_eq_true hcur.1⟩
      · cases h

theorem respects_commitTerminal [IsPreorder DB R] (hR : ∀ (db : DB) rows, R db { db with turnRecords := rows })
    (terminalTurn : Option TerminalTurnWrite) : Respects R (commitTerminal terminalTurn) := by
  unfold commitTerminal
  split
  · exact respects_pure
  · refine Respects.of_at fun db => respectsAt_get_bind (respectsAt_liftM_bind fun rows _ => ?_)
    exact respectsAt_set (hR db rows)

theorem commitTerminal_tenures (terminalTurn : Option TerminalTurnWrite) :
    Respects (Fixes tenures) (commitTerminal terminalTurn) :=
  respects_commitTerminal (fun _ _ => rfl) terminalTurn

theorem acknowledge_tenures (p deliveryId : String) (stage : DeliveryStage) (eventId : String)
    (db : DB) : tenures (acknowledge p deliveryId stage eventId db).2 = tenures db :=
  (@writes_acknowledge .quiet stage db p deliveryId eventId fun _ _ => trivial).tenures

theorem respectsAt_acknowledgeMatrixDelivery (ht : b.turns) (p deliveryId : String)
    (stage : DeliveryStage) (eventId : String) {projections : List ProjectedEvent}
    (terminalTurn : Option TerminalTurnWrite) (ha : ∀ row ∈ outboxAt db p deliveryId stage, b.acks row)
    (hb : ∀ row ∈ outboxAt db p deliveryId stage, ∀ event ∈ projections, b.FoldsIn row.roomId event) :
    RespectsAt (Writes b) db
      (acknowledgeMatrixDelivery p deliveryId stage eventId projections terminalTurn) := by
  unfold acknowledgeMatrixDelivery
  refine respectsAt_modifyGet_bind (writes_claimActiveDeliveryOwnership ..) ?_
  have houtbox := (ProjectionFrame.onlyClaims
    (onlyClaims_claimActiveDeliveryOwnership p deliveryId stage none db)).matrixDeliveryOutbox
  refine respectsAt_modifyGet_bind (writes_acknowledge eventId ?_) ?_
  · unfold outboxAt at ha ⊢
    rw [houtbox]
    exact ha
  have hten : tenures (acknowledge p deliveryId stage eventId
      (claimActiveDeliveryOwnership p deliveryId stage none db).2).2 = tenures db :=
    (acknowledge_tenures ..).trans
      (ProjectionFrame.onlyClaims (onlyClaims_claimActiveDeliveryOwnership ..)).tenures
  dsimp only
  split
  · split
    · next room epoch hown =>
      obtain ⟨row, hrow, rfl, rfl, _, hcur⟩ := claimActiveDeliveryOwnership_some hown
      have hcommit : Respects (Writes b) (commitTerminal terminalTurn) :=
        respects_commitTerminal (fun s rows => (Amends.turns rows ht).writes) terminalTurn
      refine (hcommit.at _).bind fun _ t hc => ?_
      have hc := (commitTerminal_tenures terminalTurn).ok _ _ _ hc
      refine respectsAt_modify_bind (writes_projectChunk p (hb row hrow) ?_) respectsAt_pure
      rw [currentMembershipEpoch_of_tenures (hc.trans hten)]
      exact hcur.1
    · exact respectsAt_modify_bind (Statement.discard p eventId).writes respectsAt_pure
  · exact respectsAt_get_bind respectsAt_pure

/-! ## Operations -/

/-- What the callers of the store promise: the projection they pass with an event, a chunk or an
acknowledgement is of its room, and what they fold, install, pause and settle is in scope. -/
def Op.Admissible (b : Scope) (p : String) (db : DB) : Op → Prop
  | .admitEvent event projected => Carries b event projected
  | .admitIngestionBatch admission => ∀ record ∈ admission.records, record.Carried b
  | .installHydrationChunk roomId events _ => ∀ event ∈ events, b.FoldsIn roomId event
  | .installRoomHistoryRecoveryChunk recovery events _ =>
    ∀ event ∈ events, b.FoldsIn recovery.roomId event
  | .installRefetchedRevision request revision => b.installs request.refetchKey revision
  | .acknowledgeMatrixDelivery deliveryId stage _ projections _ =>
    ∀ row ∈ outboxAt db p deliveryId stage, b.acks row ∧ ∀ event ∈ projections, b.FoldsIn row.roomId event
  | .createApprovalContinuation continuation =>
    db.approvalContinuations.get? continuation.approvalId = none → b.pauses continuation
  | .reserveApprovalCardDeliveries _ _ _ cards => ∀ card ∈ cards, b.approves p card.deliveryId
  | .reserveBackgroundApprovalCard _ _ _ _ _ card => b.approves p card.deliveryId
  | .retireApprovalCard deliveryId _ =>
    ∀ r : OutboxRow, r.principalId = p → r.deliveryId = deliveryId → b.deletes r
  | .settleRoomHistoryRecovery recovery exhausted rank _ => b.settles recovery exhausted rank
  | _ => True

/-- The operations that release delivered payloads of whatever delivery. -/
def Op.Sheds : Op → Prop
  | .maintainApprovalGrants _ => True
  | _ => False

/-- The operations that move tenures. -/
def Op.Fences : Op → Prop
  | .admitIngestionBatch _ => True
  | _ => False

/-- The operations that move consumers. -/
def Op.Binds : Op → Prop
  | .admitIngestionBatch _ | .loadOrCreateIngestionConsumer _ | .bindIngestionStream .. => True
  | _ => False

/-- The operations that record calls which wait for a decision. -/
def Op.Pauses : Op → Prop
  | .reserveBackgroundApprovalCard .. | .createApprovalContinuation _
  | .advanceApprovalContinuation .. => True
  | _ => False

/-- The operations that delete such calls. -/
def Op.Releases : Op → Prop
  | .admitIngestionBatch _ | .pruneBackgroundApprovals _ | .finishApprovalContinuation _
  | .discardUnavailableApprovalContinuation .. => True
  | _ => False

/-- The operations that write grants and their scopes. -/
def Op.Grants : Op → Prop
  | .reserveApprovalCardDeliveries .. | .createApprovalGrant _ | .maintainApprovalGrants _
  | .revokeApprovalGrant .. => True
  | _ => False

/-- The operations that write turn records. -/
def Op.Records : Op → Prop
  | .acknowledgeMatrixDelivery .. => True
  | _ => False

/-- The scope bears what the operation may delete, move and write, fences apart. -/
structure Scope.Bears (b : Scope) (op : Op) : Prop where
  deletes : op.Sheds → ∀ r, b.deletes r
  fences : op.Fences → b.fences
  binds : op.Binds → b.binds
  approves : op.Sheds → ∀ p d, b.approves p d
  pausing : op.Pauses → b.pausing
  releasing : op.Releases → b.releasing
  grants : op.Grants → b.grants
  turns : op.Records → b.turns

/-- The scope covers all the operation may do. -/
structure Scope.Covers (b : Scope) (op : Op) : Prop extends b.Bears op where
  ends : op.Fences → b.Ends

/-- The scope lets everything happen; what it may fold, install, pause and settle is its own. -/
structure Scope.Whole (b : Scope) : Prop where
  deletes : ∀ r, b.deletes r
  ends : b.ends
  fences : b.fences
  binds : b.binds
  approves : ∀ p d, b.approves p d
  pausing : b.pausing
  releasing : b.releasing
  grants : b.grants
  turns : b.turns

theorem Scope.Whole.covers (h : b.Whole) (op : Op) : b.Covers op where
  deletes _ := h.deletes
  fences _ := h.fences
  binds _ := h.binds
  approves _ := h.approves
  pausing _ := h.pausing
  releasing _ := h.releasing
  grants _ := h.grants
  turns _ := h.turns
  ends _ := ⟨fun r _ => h.deletes r, h.ends, h.releasing⟩

theorem respects_write {α : Type} {f : DB → α × DB} (h : ∀ db, Writes b db (f db).2) : Respects (Writes b) (write f) :=
  Respects.bind (respects_modifyGet h) fun _ => respects_pure

theorem respects_exec {α : Type} {m : Tx α} (h : Respects (Writes b) m) : Respects (Writes b) (exec m) :=
  h.bind fun _ => respects_pure

theorem exec_eq_ok {α : Type} {m : Tx α} {u : Unit} {db s' : DB} :
    exec m db = .ok (u, s') ↔ ∃ a, m db = .ok (a, s') := by
  unfold exec
  rw [bind_eq_ok]
  constructor
  · rintro ⟨a, t, hm, hpure⟩
    obtain ⟨_, rfl⟩ := pure_eq_ok.mp hpure
    exact ⟨a, hm⟩
  · rintro ⟨a, hm⟩
    exact ⟨a, s', hm, rfl⟩

theorem respects_bindIngestionStream (hb : b.binds) (p generation streamId : String) :
    Respects (Writes b) (bindIngestionStream p generation streamId) := by
  unfold bindIngestionStream
  refine Respects.bind (respects_modify fun s => writes_consumers hb _) fun _ => ?_
  refine respects_get.bind fun db => ?_
  split
  · exact respects_throw
  · exact respects_ite (fun _ => respects_throw) (fun _ => respects_pure)

/-- An operation that moves no tenure is a sequence of statements. -/
theorem Op.respectsAt_beside (host : Host) (p : String) (op : Op) (hf : ¬ op.Fences)
    (hc : b.Bears op) (h : op.Admissible b p db) : RespectsAt (Writes b) db (op.run host p) := by
  cases op with
  | admitIngestionBatch admission => exact absurd trivial hf
  | admitEvent event projected => exact (respects_exec (respects_admitEvent host p h)).at db
  | installHydrationChunk roomId events epoch =>
    exact (respects_write fun s => writes_installHydrationChunk p h s).at db
  | installRoomHistoryRecoveryChunk recovery events epoch =>
    exact (respects_ite (fun _ => respects_throw)
      (fun _ => respects_write fun s => writes_installRecoveryChunk p h s)).at db
  | installRefetchedRevision request revision =>
    exact (respects_write fun s => writes_installRefetchedRevision p h s).at db
  | acknowledgeMatrixDelivery deliveryId stage eventId projections terminal =>
    exact (respectsAt_acknowledgeMatrixDelivery (hc.turns trivial) p deliveryId stage eventId
      terminal (fun row hrow => (h row hrow).1) fun row hrow => (h row hrow).2).bind
      fun _ _ _ => respectsAt_pure
  | loadOrCreateIngestionConsumer generation =>
    exact respectsAt_modify (writes_consumers (hc.binds trivial) _)
  | bindIngestionStream generation streamId =>
    exact (respects_bindIngestionStream (hc.binds trivial) ..).at db
  | maintainApprovalGrants grantId =>
    exact (respects_exec
      (ApprovalGrants.respects_maintain (hc.deletes trivial) (hc.approves trivial)
        (hc.grants trivial) host p grantId)).at db
  | retireApprovalCard deliveryId cardEventId =>
    exact (respects_write fun s => Approvals.writes_retire h cardEventId s).at db
  | markRoomMemberJoinCompleted roomId userId =>
    exact respectsAt_modify (Amends.idle db.receiptOrderSeq _).writes
  | settle eventId => exact respectsAt_modify (writes_settle ..)
  | settleMany eventIds => exact respectsAt_modify (writes_settleMany ..)
  | claimSemanticConsumer eventId consumer =>
    exact (respects_exec (respects_claimSemanticConsumer ..)).at db
  | interactivePromptIsCurrent roomId question expected =>
    exact (respects_write fun s => writes_promptIsCurrent ..).at db
  | claimInteractiveReaction source => exact (respects_exec (respects_claimSelection ..)).at db
  | claimInteractiveText source => exact (respects_exec (respects_claimSelection ..)).at db
  | markConversationHydrated roomId threadId complete rank epoch =>
    exact (respects_write fun s => writes_markConversationHydrated ..).at db
  | recordRoomHistoryRecovery roomId =>
    exact (respects_exec (respects_recordRoomHistoryRecovery ..)).at db
  | settleRoomHistoryRecovery recovery exhausted rank epoch =>
    exact (respects_write fun s => writes_settleHistoryRecovery p epoch h s).at db
  | dropRefetchedMessage request =>
    exact (respects_write fun s => (Statement.drop p request.refetchKey).writes).at db
  | enqueueMatrixDelivery request =>
    exact (respects_exec (respects_enqueueMatrixDelivery ..)).at db
  | claimMatrixDelivery deliveryId stage device =>
    exact (respects_write fun s => writes_claim ..).at db
  | recordMatrixDeliveryDevice deliveryId stage device =>
    exact respectsAt_modify (Delivers.device p deliveryId stage device).writes
  | recordPermanentMatrixDeliveryFailure deliveryId stage reason =>
    exact (respects_exec (respects_recordPermanentFailure ..)).at db
  | retireMatrixDelivery deliveryId stage roomId epoch =>
    exact (respects_exec (respects_retireMatrixDelivery ..)).at db
  | retireDeletedInitial deliveryId => exact (respects_retireDeletedInitial ..).at db
  | reserveApprovalCardDeliveries cp c g cards =>
    exact (respects_exec (Approvals.respects_reserveDeliveries (hc.grants trivial) host cp c g
      h)).at db
  | reserveBackgroundApprovalCard roomId threadId run call expires card =>
    exact (respects_exec (BackgroundApprovals.respects_reserveDelivery (hc.pausing trivial) host
      roomId threadId run call expires h)).at db
  | resolveBackgroundApprovalCall run call status reason =>
    exact (respects_exec (BackgroundApprovals.respects_resolveCall ..)).at db
  | resolvePendingBackgroundApprovalCalls run reason =>
    exact (respects_exec (BackgroundApprovals.respects_resolvePendingCalls ..)).at db
  | pruneBackgroundApprovals run =>
    exact (respects_write fun s => BackgroundApprovals.writes_pruneCalls (hc.releasing trivial) ..).at db
  | resolveContinuationApprovalCard card status reason metadata =>
    exact (respects_exec (Approvals.respects_resolveCard ..)).at db
  | createApprovalGrant request =>
    exact (respects_exec (ApprovalGrants.respects_create (hc.grants trivial) ..)).at db
  | revokeApprovalGrant roomId card sender grantId =>
    exact (respects_exec (ApprovalGrants.respects_revoke (hc.grants trivial) ..)).at db
  | expireUnacknowledgedApprovalCard deliveryId =>
    exact (respects_exec (Approvals.respects_resolveCard ..)).at db
  | rememberTerminalApprovalAlias roomId card deliveryId =>
    exact respectsAt_modify (Approvals.writes_rememberTerminalAlias ..)
  | createApprovalContinuation c =>
    exact (ApprovalContinuations.respectsAt_create (hc.pausing trivial) p h).bind fun _ _ _ =>
      respectsAt_pure
  | claimApprovalContinuation approvalId generation shown =>
    exact (respects_exec (ApprovalContinuations.respects_claim ..)).at db
  | advanceApprovalContinuation approvalId generation next =>
    exact (respects_exec (ApprovalContinuations.respects_advance (hc.pausing trivial) ..)).at db
  | activateApprovalContinuation approvalId generation =>
    exact (respects_write fun s => ApprovalContinuations.writes_activate ..).at db
  | requestApprovalFailure approvalId reason state generation runtime =>
    exact (respects_write fun s => ApprovalContinuations.writes_requestFailure ..).at db
  | finishApprovalContinuation approvalId =>
    exact (respects_exec (ApprovalContinuations.respects_finish (hc.releasing trivial) ..)).at db
  | enqueueUnavailableApprovalNotice approvalId roomId threadId payload =>
    exact (respects_exec (ApprovalContinuations.respects_enqueueUnavailableNotice ..)).at db
  | discardUnavailableApprovalContinuation approvalId notice =>
    exact (respects_exec (ApprovalContinuations.respects_discardUnavailable
      (hc.releasing trivial) ..)).at db

/-- Every operation is a sequence of statements of a scope that bears it, but for its fences. -/
theorem Op.respectsAt_bounds [IsPreorder DB R] {p : String} {op : Op} (hw : ∀ s s', Writes b s s' → R s s')
    (hadvance : op.Fences → ∀ roomId, Respects R (advanceMembershipEpoch host p roomId))
    (hc : b.Bears op) (h : op.Admissible b p db) : RespectsAt R db (op.run host p) := by
  have hbeside : RespectsAt (Writes b) db (op.run host p) → RespectsAt R db (op.run host p) :=
    fun hr x s' hm => hw _ _ (hr x s' hm)
  cases op with
  | admitIngestionBatch admission =>
    have hr : b.Bounds host p R :=
      ⟨hw, hc.fences trivial, hc.binds trivial, hadvance trivial⟩
    exact ((respects_admitBatch hr h).bind fun _ => respects_pure).at db
  | _ => exact hbeside (Op.respectsAt_beside host p _ id hc h)

/-- A scope that covers an operation says all it does. -/
theorem Op.respectsAt (host : Host) (p : String) (op : Op) (hc : b.Covers op)
    (h : op.Admissible b p db) : RespectsAt (Writes b) db (op.run host p) :=
  Op.respectsAt_bounds (fun _ _ hw => hw)
    (fun hf => respects_advanceMembershipEpoch (hc.ends hf) host p) hc.toBears h

/-- A preorder that a committed operation keeps is kept by its step. -/
theorem step_of_respectsAt [IsPreorder DB R] {p : String} {op : Op}
    (h : RespectsAt R db (op.run host p)) : R db (step host p op db) := by
  unfold step
  cases hm : op.run host p db with
  | error e =>
    rw [commit_of_error hm]
    exact refl_of R db
  | ok result =>
    obtain ⟨u, s'⟩ := result
    rw [commit_of_ok hm]
    exact h u s' hm

/-- What a committed or rolled back operation does to the store. -/
theorem step_writes (host : Host) (p : String) (op : Op) (hc : b.Covers op)
    (h : op.Admissible b p db) : Writes b db (step host p op db) :=
  step_of_respectsAt (Op.respectsAt host p op hc h)

/-! ## Runs -/

/-- The scope of a whole run: everything but what callers promise of events, of their rooms and
of revisions. -/
def Scope.run (folds : ProjectedEvent → Prop) (rooms : Prop)
    (installs : RefetchKey → RefetchedRevision → Prop) : Scope where
  folds := folds
  rooms := rooms
  installs := installs
  pauses _ := True
  settles _ _ _ := True
  deletes _ := True
  acks _ := True
  ends := True
  fences := True
  binds := True
  approves _ _ := True
  pausing := True
  releasing := True
  grants := True
  turns := True

theorem Scope.run_covers (folds : ProjectedEvent → Prop) (rooms : Prop)
    (installs : RefetchKey → RefetchedRevision → Prop) (op : Op) : (run folds rooms installs).Covers op :=
  Scope.Whole.covers ⟨fun _ => trivial, trivial, trivial, trivial, fun _ _ => trivial, trivial,
    trivial, trivial, trivial⟩ op

/-- The scope of a run whose callers promise nothing. -/
def Scope.any : Scope := .run (fun _ => True) False fun _ _ => True

theorem Op.admissible_any (p : String) (db : DB) (op : Op) : op.Admissible .any p db := by
  have hfolds : ∀ roomId event, Scope.any.FoldsIn roomId event :=
    fun _ _ => ⟨trivial, fun h => nomatch h⟩
  cases op with
  | admitEvent event projected => exact fun _ _ => hfolds _ _
  | admitIngestionBatch admission => exact fun _ _ _ _ => trivial
  | installHydrationChunk roomId events epoch => exact fun _ _ => hfolds _ _
  | installRoomHistoryRecoveryChunk recovery events epoch => exact fun _ _ => hfolds _ _
  | acknowledgeMatrixDelivery => exact fun _ _ => ⟨trivial, fun _ _ => hfolds _ _⟩
  | createApprovalContinuation c => exact fun _ => trivial
  | reserveApprovalCardDeliveries => exact fun _ _ => trivial
  | retireApprovalCard => exact fun _ _ _ => trivial
  | _ => trivial

/-- One operation of some principal, whose caller keeps its promises. -/
inductive Steps (host : Host) (b : Scope) : DB → DB → Prop
  | op (p : String) (op : Op) {db : DB} (h : op.Admissible b p db) :
      Steps host b db (step host p op db)

/-- A run of the store, from one state to a later one. -/
abbrev Run (host : Host) (b : Scope) : DB → DB → Prop := Relation.ReflTransGen (Steps host b)

/-- The states of the store, on a host whose clock reads what it may. -/
def Reachable (host : Host) (b : Scope) (db : DB) : Prop :=
  ∃ clock, Run host b (DB.init clock) db

theorem Run.writes (hc : ∀ op, b.Covers op) {db db' : DB} (h : Run host b db db') :
    Writes b db db' := by
  induction h with
  | refl => exact writes_refl b db
  | tail _ hs ih =>
    obtain ⟨p, op, hadm⟩ := hs
    exact ih.trans (step_writes host p op (hc op) hadm)

/-- The empty store holds no card and no call. -/
theorem Scope.allows_init (b : Scope) (clock : ℕ → Int) : b.Allows (DB.init clock) :=
  ⟨fun _ h => absurd h List.not_mem_nil, fun _ h => absurd h List.not_mem_nil⟩

theorem Reachable.allows (hc : ∀ op, b.Covers op) (h : Reachable host b db) : b.Allows db := by
  obtain ⟨clock, hrun⟩ := h
  exact statements_preserve (fun _ _ hs => hs.allows)
    ((hrun.writes hc).statements (b.allows_init clock)) (b.allows_init clock)

/-- What a run from a reachable state does is a sequence of statements. -/
theorem Run.statements (hc : ∀ op, b.Covers op) {db db' : DB} (h : Reachable host b db) (hrun : Run host b db db') :
    Relation.ReflTransGen (Statement b) db db' :=
  (hrun.writes hc).statements (h.allows hc)

/-- An invariant of the empty store that every statement keeps holds of every reachable state. -/
theorem Reachable.invariant (hc : ∀ op, b.Covers op) {P : DB → Prop}
    (hinit : ∀ clock, P (DB.init clock)) (hP : ∀ s s', Statement b s s' → P s → P s')
    (h : Reachable host b db) : P db := by
  obtain ⟨clock, hrun⟩ := h
  exact statements_preserve hP ((hrun.writes hc).statements (b.allows_init clock)) (hinit clock)

/-! ## Runs within a scope -/

/-- One operation of some principal which the scope bears, and whose caller keeps its promises. -/
inductive StepsWithin (host : Host) (b : Scope) : DB → DB → Prop
  | op (p : String) (op : Op) {db : DB} (hc : b.Bears op) (h : op.Admissible b p db) :
      StepsWithin host b db (step host p op db)

abbrev RunWithin (host : Host) (b : Scope) : DB → DB → Prop :=
  Relation.ReflTransGen (StepsWithin host b)

/-- The states of the store in runs of such operations. -/
def ReachableWithin (host : Host) (b : Scope) (db : DB) : Prop :=
  ∃ clock, RunWithin host b (DB.init clock) db

/-- A preorder that contains what the scope writes, and every fence, contains such a run. -/
theorem RunWithin.within [IsPreorder DB R] (hw : ∀ s s', Writes b s s' → R s s')
    (hadvance : ∀ p roomId, Respects R (advanceMembershipEpoch host p roomId)) {db db' : DB}
    (h : RunWithin host b db db') : R db db' := by
  induction h with
  | refl => exact refl_of R db
  | tail _ hs ih =>
    obtain ⟨p, op, hc, hadm⟩ := hs
    exact trans_of R ih (step_of_respectsAt (Op.respectsAt_bounds hw (fun _ => hadvance p) hc hadm))

end MindRoom
