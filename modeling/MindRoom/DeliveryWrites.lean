import MindRoom.Statement

/-! # Deliveries, settlements and questions as statements

The functions of `event_journal/outbox.py`, `interactive_questions.py` and the settlements of
`journal.py`, followed through their code once.
-/

namespace MindRoom

open Transaction

variable {b : Scope}

theorem respects_timeNs : Respects (Writes b) timeNs :=
  respects_modifyGet fun _ => Amends.tick.writes

variable {stage : DeliveryStage} {db : DB} {p d : String} {device : Option String}

/-- What follows a reading of the clock runs behind it. -/
theorem respectsAt_timeNs_bind {α : Type} {f : Int → Tx α} (h : RespectsAt (Writes b) (tick db) (f (db.clock 0))) :
    RespectsAt (Writes b) db (timeNs >>= f) :=
  respectsAt_modifyGet_bind Amends.tick.writes h

/-! ## Outbox statements -/

/-! ### Enqueue -/

theorem respectsAt_enqueue (host : Host) (p : String) {intent : DeliveryIntent} (hs : intent.Sound)
    (ha : intent.Authorized db p ∨ intent.stage = .final ∧ b.approves p intent.deliveryId) :
    RespectsAt (Writes b) db (enqueue host p intent) := by
  unfold enqueue
  dsimp only
  split
  · exact respectsAt_throw_bind
  · refine respectsAt_get_bind ?_
    split
    · exact respectsAt_pure
    · next howner =>
      refine respectsAt_liftM_bind fun transactionId _ => respectsAt_timeNs_bind ?_
      refine respectsAt_modify_bind ?_ respectsAt_pure
      exact (@Delivers.intend b p intent transactionId _ (tick db) hs howner ha).writes

/-! ### Claim -/

theorem outboxAt_updateOutbox {q : OutboxRow → Prop}
    [DecidablePred q] {f : OutboxRow → OutboxRow} {hf : ∀ r, key (f r) = key r}
    {row : OutboxRow} (h : outboxAt db p d stage = some row) (hq : q row) :
    outboxAt (updateOutbox p d stage q f hf db) p d stage = some (f row) := by
  unfold outboxAt updateOutbox
  have hkey : key row = (p, d, stage) := (Table.get?_eq_some.mp h).2
  rw [Table.get?_update, show db.matrixDeliveryOutbox.get? (p, d, stage) = some row from h]
  simp [hkey, hq]

theorem writes_offer
    {current row : OutboxRow} (h : Offered db p d stage row) : Writes b db (offer p d stage device current db).2 :=
  (Delivers.offer p d stage device row h).writes

/-- A FINAL that waits takes the event of its INITIAL, and any other keeps what it has. -/
theorem settleEditTarget_eq_some {current : OutboxRow} {db db' : DB}
    {editsEventId : Option String} (h : settleEditTarget p d current db = some (editsEventId, db')) :
    (∃ eventId, current.editTargetPending = true ∧
      (outboxAt db p d .initial).bind (·.acknowledgedEventId) = some eventId ∧
        editsEventId = some eventId ∧ db' = updateOutbox p d .final (fun _ => True)
          (fun r => { r with editsEventId := some eventId, editTargetPending := false })
          (fun _ => rfl) db) ∨
    current.editTargetPending = false ∧ editsEventId = current.editsEventId ∧ db' = db := by
  unfold settleEditTarget at h
  by_cases hp : current.editTargetPending = true
  · rw [if_pos hp] at h
    split at h
    · cases h
    · next eventId hinitial =>
      simp only [Option.some.injEq, Prod.mk.injEq] at h
      exact .inl ⟨eventId, hp, hinitial, h.1.symm, h.2.symm⟩
  · rw [if_neg hp] at h
    simp only [Option.some.injEq, Prod.mk.injEq] at h
    exact .inr ⟨Bool.eq_false_iff.mpr hp, h.1.symm, h.2.symm⟩

/-- The settled edit target, and the row that waits for nothing. -/
theorem settleEditTarget_some {current : OutboxRow} {db db' : DB}
    {editsEventId : Option String} (hcur : outboxAt db p d .final = some current)
    (h : settleEditTarget p d current db = some (editsEventId, db')) : Writes b db db' ∧ outboxAt db' p d .final =
      some { current with editsEventId := editsEventId, editTargetPending := false } := by
  rcases settleEditTarget_eq_some h with ⟨eventId, hp, hinitial, rfl, rfl⟩ | ⟨hp, rfl, rfl⟩
  · refine ⟨(Delivers.target p d eventId current hcur hp hinitial).writes, ?_⟩
    exact outboxAt_updateOutbox hcur trivial
  · refine ⟨writes_refl b db', hcur.trans ?_⟩
    rw [← hp]

theorem writes_claim (p d : String) (stage : DeliveryStage) (device : Option String) (db : DB) :
    Writes b db (claim p d stage device db).2 := by
  unfold claim
  cases hcur : outboxAt db p d stage with
  | none => exact writes_refl b db
  | some current =>
    dsimp only
    split
    · exact writes_refl b db
    · next hopen =>
      obtain ⟨hretired, hfailed⟩ := not_or.mp hopen
      have hunretired : current.retired = false := Bool.eq_false_iff.mpr hretired
      have hunrefused : current.permanentFailureReason = none := not_not.mp hfailed
      cases stage with
      | initial =>
        dsimp only
        split
        · next h => exact (Delivers.withdraw p d current hcur hunretired h.2).writes
        · next h =>
          exact writes_offer ⟨hcur, hunretired, hunrefused, (fun hs => by cases hs),
            (fun _ ha hstands => h ⟨ha, hstands⟩), (fun hs => by cases hs)⟩
      | final =>
        dsimp only
        cases hset : settleEditTarget p d current db with
        | none => exact writes_refl b db
        | some settled =>
          obtain ⟨editsEventId, db'⟩ := settled
          obtain ⟨hw, hrow⟩ := @settleEditTarget_some b _ _ _ _ _ _ hcur hset
          dsimp only
          split
          · exact hw
          · next h =>
            exact hw.trans (writes_offer ⟨hrow, hunretired, hunrefused, (fun _ => rfl),
              (fun hs => by cases hs), (fun _ he hun => h ⟨he, hun⟩)⟩)

/-- What a claim returns, of the row it was called on. -/
structure ClaimReturns (db : DB) (p d : String) (stage : DeliveryStage) (current row : OutboxRow) :
    Prop where
  stored : outboxAt db p d stage = some current
  unretired : current.retired = false
  unrefused : current.permanentFailureReason = none
  attempted : row.attempted = current.attempted
  roomId : row.roomId = current.roomId
  membershipEpoch : row.membershipEpoch = current.membershipEpoch
  withdrawn : stage = .initial → current.attempted = false → ¬ FinalStands db p d
  ordered : stage = .final → row.editsEventId = none → ¬ InitialUnresolved db p d
  settled : stage = .final → current.editTargetPending = false →
    row.editsEventId = current.editsEventId
  waited : stage = .final → current.editTargetPending = true → ∃ eventId,
    (outboxAt db p d .initial).bind (·.acknowledgedEventId) = some eventId ∧
      row.editsEventId = some eventId

/-- The row an offer returns is the one it found, but for the device of a first attempt. -/
theorem offer_eq_some
    {current stored row : OutboxRow} (hstored : outboxAt db p d stage = some stored)
    (h : (offer p d stage device current db).1 = some row) :
    row.attempted = current.attempted ∧ row.roomId = stored.roomId ∧
      row.membershipEpoch = stored.membershipEpoch ∧ row.editsEventId = stored.editsEventId := by
  unfold offer at h
  dsimp only at h
  have hkey : key stored = (p, d, stage) := (Table.get?_eq_some.mp hstored).2
  have hread : ∃ r, outboxAt (updateOutbox p d stage (fun r => r.attempted = false)
      (fun r => { r with attempted := true, sendingDeviceId := device }) (fun _ => rfl) db)
        p d stage = some r ∧ r.roomId = stored.roomId ∧
          r.membershipEpoch = stored.membershipEpoch ∧ r.editsEventId = stored.editsEventId := by
    unfold outboxAt updateOutbox
    rw [Table.get?_update, show db.matrixDeliveryOutbox.get? (p, d, stage) = some stored from hstored]
    by_cases hfirst : stored.attempted = false
    · refine ⟨{ stored with attempted := true, sendingDeviceId := device }, ?_, rfl, rfl, rfl⟩
      rw [Option.map_some, if_pos ⟨hkey, hfirst⟩]
    · exact ⟨stored, by rw [Option.map_some, if_neg fun hk => hfirst hk.2], rfl, rfl, rfl⟩
  obtain ⟨r, hr, hroom, hepoch, hedits⟩ := hread
  rw [hr] at h
  obtain rfl := Option.some.inj h
  exact ⟨rfl, hroom, hepoch, hedits⟩

theorem claim_returns
    {row : OutboxRow} (h : (claim p d stage device db).1 = some row) :
    ∃ current, ClaimReturns db p d stage current row := by
  unfold claim at h
  cases hcur : outboxAt db p d stage with
  | none =>
    rw [hcur] at h
    cases h
  | some current =>
    rw [hcur] at h
    dsimp only at h
    split at h
    · cases h
    · next hopen =>
      obtain ⟨hretired, hfailed⟩ := not_or.mp hopen
      have hunretired : current.retired = false := Bool.eq_false_iff.mpr hretired
      have hunrefused : current.permanentFailureReason = none := not_not.mp hfailed
      cases stage with
      | initial =>
        dsimp only at h
        split at h
        · cases h
        · next hstands =>
          obtain ⟨hattempted, hroom, hepoch, _⟩ := offer_eq_some hcur h
          exact ⟨current, hcur, hunretired, hunrefused, hattempted, hroom, hepoch,
            fun _ ha hfinal => hstands ⟨ha, hfinal⟩, (fun hs => by cases hs),
            (fun hs => by cases hs), (fun hs => by cases hs)⟩
      | final =>
        dsimp only at h
        cases hset : settleEditTarget p d current db with
        | none =>
          rw [hset] at h
          cases h
        | some settled =>
          obtain ⟨editsEventId, db'⟩ := settled
          rw [hset] at h
          dsimp only at h
          have hrow := (@settleEditTarget_some .quiet _ _ _ _ _ _ hcur hset).2
          split at h
          · cases h
          · next hno =>
            obtain ⟨hattempted, hroom, hepoch, hedits⟩ := offer_eq_some hrow h
            refine ⟨current, hcur, hunretired, hunrefused, hattempted, hroom, hepoch,
              (fun hs => by cases hs), fun _ hnone hun => ?_, fun _ hp => ?_, fun _ hp => ?_⟩
            all_goals
              rcases settleEditTarget_eq_some hset with
                ⟨eventId, hpending, hinitial, rfl, rfl⟩ | ⟨hpending, rfl, rfl⟩
            · rw [hedits] at hnone
              cases hnone
            · exact hno ⟨hedits.symm.trans hnone, hun⟩
            · rw [hp] at hpending
              cases hpending
            · exact hedits
            · exact ⟨eventId, hinitial, hedits⟩
            · rw [hp] at hpending
              cases hpending

/-- A retired row is never offered. -/
theorem claim_retired
    {row : OutboxRow} (hrow : outboxAt db p d stage = some row) (h : row.retired = true) :
    (claim p d stage device db).1 = none := by
  unfold claim
  rw [hrow]
  dsimp only
  rw [if_pos (.inl h)]

/-! ### Outcomes -/

theorem writes_acknowledge (eventId : String) (h : ∀ row ∈ outboxAt db p d stage, b.acks row) :
    Writes b db (acknowledge p d stage eventId db).2 := by
  unfold acknowledge
  cases hrow : outboxAt db p d stage with
  | none => exact writes_refl b db
  | some row =>
    dsimp only
    split
    · exact writes_refl b db
    · next hopen =>
      have hbind : Writes b db _ := (Delivers.bind p d stage eventId h).writes
      cases stage with
      | final => exact hbind
      | initial =>
        refine hbind.trans (Delivers.release p d eventId ?_).writes
        rw [outboxAt_updateOutbox hrow (not_not.mp hopen)]
        rfl

theorem writes_failDelivery (p d : String) (stage : DeliveryStage) (reason : String) (db : DB) :
    Writes b db (failDelivery p d stage reason db) := by
  unfold failDelivery
  cases outboxAt db p d stage with
  | none => exact writes_refl b db
  | some row =>
    dsimp only
    split
    · have hfail : Writes b db _ := (Delivers.refuse p d stage MayFail reason fun _ h => h).writes
      cases stage with
      | final => exact hfail
      | initial => exact hfail.trans (Delivers.refuse p d .final _ _ fun _ h => h.1).writes
    · exact writes_refl b db

theorem respects_recordPermanentFailure (p d : String) (stage : DeliveryStage) (reason : String) :
    Respects (Writes b) (recordPermanentFailure p d stage reason) := by
  unfold recordPermanentFailure
  dsimp only
  refine respects_ite (fun _ => respects_throw.bind fun _ => ?_) (fun _ => ?_)
  all_goals
    exact (respects_modify fun db => writes_failDelivery ..).bind fun _ =>
      respects_get.bind fun _ => respects_pure

theorem writes_retireRow (p d : String) (stage : DeliveryStage) (db : DB) : Writes b db (retireRow p d stage db) :=
  (Delivers.retire p d stage).writes

theorem respects_retireDeletedInitial (p d : String) : Respects (Writes b) (retireDeletedInitial p d) := by
  unfold retireDeletedInitial
  dsimp only
  refine respects_get.bind fun db => respects_ite (fun _ => respects_throw.bind fun _ => ?_)
    (fun _ => ?_)
  all_goals
    refine respects_ite (fun _ => respects_throw.bind fun _ => ?_) (fun _ => ?_)
  all_goals
    exact respects_modify fun s => writes_retireRow ..

theorem respects_retire (p d : String) (stage : DeliveryStage) (roomId : String)
    (membershipEpoch : Int) : Respects (Writes b) (retire p d stage roomId membershipEpoch) := by
  unfold retire
  refine respects_get.bind fun db => ?_
  split
  · exact respects_pure
  · dsimp only
    refine respects_ite (fun _ => respects_throw.bind fun _ => ?_) (fun _ => ?_)
    all_goals
      refine respects_ite (fun _ => respects_pure) (fun _ => ?_)
      exact (respects_modify fun s => writes_retireRow ..).bind fun _ => respects_pure

/-! ### Ownership -/

theorem writes_onlyClaims {p : String} {db db' : DB} (h : OnlyClaims p db db') : Writes b db db' := by
  rcases h with rfl | ⟨r, rfl⟩
  · exact writes_refl b db'
  · exact writes_claimed p r

theorem writes_claimActiveDeliveryOwnership (principalId deliveryId : String)
    (stage : DeliveryStage) (expectedRoomId : Option String) (db : DB) : Writes b db
      (claimActiveDeliveryOwnership principalId deliveryId stage expectedRoomId db).2 :=
  writes_onlyClaims (onlyClaims_claimActiveDeliveryOwnership ..)

theorem writes_claimMembershipEpoch (principalId roomId : String) (epoch : Int) (db : DB) :
    Writes b db (claimMembershipEpoch principalId roomId epoch db).2 := by
  rw [claimMembershipEpoch_eq]
  exact writes_claimed principalId roomId

theorem writes_claimActiveMembershipEpoch (principalId roomId : String) (db : DB) :
    Writes b db (claimActiveMembershipEpoch principalId roomId db).2 := by
  rw [claimActiveMembershipEpoch_eq]
  exact writes_claimed principalId roomId

theorem respects_claimMembershipState (principalId roomId : String) :
    Respects (Writes b) (claimMembershipState principalId roomId) := by
  unfold claimMembershipState
  dsimp only
  refine (respects_modifyGet fun db => ?_).bind fun claim =>
    respects_ite (fun _ => respects_throw.bind fun _ => respects_pure) (fun _ => respects_pure)
  rw [claimMembershipRow_eq]
  exact writes_claimed principalId roomId

/-! ## Settlements -/

theorem pendingAt_eq_some {principalId eventId : String} {r : JournalRow} : pendingAt db principalId eventId = some r ↔
      r ∈ db.journalEvents ∧ key r = (principalId, eventId) ∧ r.state = .pending := by
  unfold pendingAt journalAt
  rw [← and_assoc, ← Table.get?_eq_some]
  cases db.journalEvents.get? (principalId, eventId) with
  | none => simp
  | some row =>
    dsimp only
    split
    · next h =>
      constructor
      · rintro ⟨⟩
        exact ⟨rfl, h⟩
      · exact And.left
    · next h =>
      constructor
      · rintro ⟨⟩
      · rintro ⟨⟨⟩, hr⟩
        exact absurd hr h

theorem ages_settleRows {t : Table JournalRow} {p : JournalRow → Prop} [DecidablePred p] :
    Ages t (t.update (fun r => r.state = .pending ∧ p r)
      (fun r => { r with state := .settled, sourceJson := none, semanticConsumer := none })) := by
  refine ages_update fun r _ hp => ⟨⟨rfl, rfl, rfl, rfl, rfl, rfl, rfl, rfl, rfl, fun hs => ?_,
    fun hs => ?_⟩, fun _ _ => ⟨rfl, rfl⟩⟩
  · rw [hp.1] at hs
    cases hs
  · cases hs

theorem writes_settleRows (p : JournalRow → Prop) [DecidablePred p] (db : DB) : Writes b db (settleRows p db) :=
  writes_journal ages_settleRows

theorem pendingAt_settleRows (p e : String) (db : DB) :
    pendingAt (settleRows (fun r => key r = (p, e)) db) p e = none := by
  cases h : pendingAt (settleRows (fun r => key r = (p, e)) db) p e with
  | none => rfl
  | some r =>
    exfalso
    obtain ⟨hr, hkey, hpend⟩ := pendingAt_eq_some.mp h
    simp only [settleRows, Table.mem_update] at hr
    rcases hr with ⟨r₀, _, _, rfl⟩ | ⟨_, hno⟩
    · cases hpend
    · exact hno ⟨hpend, hkey⟩

theorem writes_settle (p e : String) (db : DB) : Writes b db (settle p e db) :=
  (writes_settleRows _ db).trans (Statement.unselect p e (pendingAt_settleRows p e db)).writes

theorem writes_settleMany (principalId : String) (eventIds : List String) (db : DB) :
    Writes b db (settleMany principalId eventIds db) := by
  unfold settleMany
  induction eventIds generalizing db with
  | nil => exact writes_refl b db
  | cons eventId rest ih => exact (writes_settle principalId eventId db).trans (ih _)

theorem ages_coalesceConsumer {t : Table JournalRow} {principalId eventId : String} {consumer : SemanticConsumer} :
    Ages t (t.update (fun r => key r = (principalId, eventId) ∧ r.state = .pending)
      (fun r => { r with semanticConsumer := some (r.semanticConsumer.getD consumer) })) := by
  refine ages_update fun r _ hp => ⟨⟨rfl, rfl, rfl, rfl, rfl, rfl, rfl, rfl, rfl, fun hs => ?_,
    fun _ c hc => ?_⟩, fun _ hs => ?_⟩
  · rw [hp.2] at hs
    cases hs
  · simp only [hc, Option.getD_some]
  · rw [show r.state = .pending from hp.2] at hs
    cases hs

theorem respects_claimSemanticConsumer (principalId eventId : String) (consumer : SemanticConsumer) :
    Respects (Writes b) (claimSemanticConsumer principalId eventId consumer) := by
  unfold claimSemanticConsumer
  refine respects_get.bind fun db => ?_
  split
  · exact respects_throw
  · refine Respects.bind (respects_modify fun s => ?_) fun _ => ?_
    · exact writes_journal ages_coalesceConsumer
    · dsimp only
      refine respects_ite (fun _ => ?_) (fun _ => respects_pure)
      exact (respects_modify fun s => writes_settle ..).bind fun _ => respects_pure

/-! ## Questions -/

theorem writes_promptIsCurrent (principalId roomId questionEventId : String) (expected : InteractivePrompt) (db : DB) :
    Writes b db (promptIsCurrent principalId roomId questionEventId expected db).2 := by
  unfold promptIsCurrent
  split
  · exact writes_refl b db
  · rw [claimMembershipEpoch_eq]
    dsimp only
    split
    · exact writes_claimed ..
    · split <;> exact writes_claimed ..

theorem mem_of_activeQuestionRow {p r questionEventId : String} {row : QuestionJoin}
    (h : activeQuestionRow db p r questionEventId = some row) :
    row ∈ exposedQuestions db p ∧ row.1.consumedBySourceEventId = none := by
  unfold activeQuestionRow at h
  split at h
  · cases h
  · have hfound := List.find?_some h
    exact ⟨List.mem_of_find?_eq_some h, (of_decide_eq_true hfound).2⟩

theorem mem_of_oldestQuestionRow {p : String} {source : JournalRow} {row : QuestionJoin}
    (h : oldestQuestionRow db p source = some row) :
    row ∈ exposedQuestions db p ∧ row.1.consumedBySourceEventId = none ∧
      row.2.membershipEpoch = source.membershipEpoch := by
  unfold oldestQuestionRow at h
  have hmem := List.mem_of_head? h
  rw [List.mem_insertionSort, List.mem_filter] at hmem
  have hfound := of_decide_eq_true hmem.2
  exact ⟨hmem.1, hfound.2.2.2, hfound.2.2.1⟩

theorem selectionFromRow_question {row : QuestionJoin} {selectionKey : String}
    {selection : InteractiveSelection} (h : selectionFromRow row selectionKey = some selection) :
    selection.questionEventId = row.1.questionEventId := by
  unfold selectionFromRow at h
  obtain ⟨_, _, h⟩ := Option.bind_eq_some_iff.mp h
  obtain rfl := Option.some.inj h
  rfl

theorem writes_snapshotReactionCandidate (principalId : String) (event : InboundEvent) (db : DB) :
    Writes b db (snapshotReactionCandidate principalId event db).2 := by
  unfold snapshotReactionCandidate
  split
  · exact writes_refl b db
  · split
    · exact writes_refl b db
    · split
      · exact writes_refl b db
      · next source hsource =>
        split
        · exact writes_refl b db
        · next row hrow =>
          split
          · exact writes_refl b db
          · next hplace =>
            split
            · exact writes_refl b db
            · next selection hselection =>
              obtain ⟨hmem, hopen⟩ := mem_of_activeQuestionRow hrow
              have hepoch := not_not.mp (not_or.mp hplace).2
              exact (Statement.snapshot principalId event.eventId source row selection hsource hmem
                hopen hepoch (selectionFromRow_question hselection)).writes

theorem writes_snapshotTextCandidate (principalId : String) (event : InboundEvent) (db : DB) :
    Writes b db (snapshotTextCandidate principalId event db).2 := by
  unfold snapshotTextCandidate
  split
  · exact writes_refl b db
  · split
    · exact writes_refl b db
    · split
      · exact writes_refl b db
      · next source hsource =>
        split
        · exact writes_refl b db
        · next row hrow =>
          split
          · exact writes_refl b db
          · next selection hselection =>
            obtain ⟨hmem, hopen, hepoch⟩ := mem_of_oldestQuestionRow hrow
            exact (Statement.snapshot principalId event.eventId source row selection hsource hmem
              hopen hepoch (selectionFromRow_question hselection)).writes

theorem writes_snapshotSourceCandidate (principalId : String) (event : InboundEvent) (db : DB) :
    Writes b db (snapshotSourceCandidate principalId event db).2 := by
  unfold snapshotSourceCandidate
  split
  · exact writes_snapshotReactionCandidate ..
  · exact writes_snapshotTextCandidate ..
  · exact writes_refl b db

theorem respects_snapshotInteractiveSource (host : Host) (principalId : String) (event : InboundEvent) :
    Respects (Writes b) (snapshotInteractiveSource host principalId event) := by
  unfold snapshotInteractiveSource
  refine (respects_modifyGet fun s => writes_snapshotSourceCandidate ..).bind fun _ =>
    respects_get.bind fun _ => ?_
  exact respects_ite (fun _ => respects_throw) (fun _ => respects_pure)

theorem respectsAt_consumeSelectionRevision {p e : String} {source : JournalRow}
    {stored : InteractiveSelection × String} (hsource : pendingAt db p e = some source)
    (hcurrent : MembershipIsCurrent db p source.roomId source.membershipEpoch)
    (hstored : storedSelection db p e = some stored) :
    RespectsAt (Writes b) db (consumeSelectionRevision p e stored) := by
  unfold consumeSelectionRevision
  refine respectsAt_get_bind ?_
  dsimp only
  split
  · exact respectsAt_pure
  · next question hquestion =>
    split
    · exact respectsAt_pure
    · next hopen =>
      split
      · exact respectsAt_throw_bind
      · refine RespectsAt.bind (respectsAt_set ?_) fun _ _ _ => respectsAt_pure
        exact (Statement.consume p e source stored question hsource hcurrent hstored hquestion
          hopen).writes

/-- Consuming a revision leaves the journal alone. -/
theorem consumeSelectionRevision_journal (principalId sourceEventId : String) (stored : InteractiveSelection × String) :
    Respects (Fixes DB.journalEvents) (consumeSelectionRevision principalId sourceEventId stored) := by
  unfold consumeSelectionRevision
  refine Respects.of_at fun db => respectsAt_get_bind ?_
  dsimp only
  split
  · exact respectsAt_pure
  · split
    · exact respectsAt_pure
    · split
      · exact respectsAt_throw_bind
      · exact RespectsAt.bind (respectsAt_set rfl) fun _ _ _ => respectsAt_pure

/-- The claim hands over a source no consumer has: the row it writes is the pending one it read. -/
theorem ages_claimConsumer {t : Table JournalRow} {source : JournalRow}
    {claimedConsumer : Option SemanticConsumer} (hmem : source ∈ t)
    (hpend : source.state = .pending) (hnone : source.semanticConsumer = none)
    {k : String × String} (hk : key source = k) :
    Ages t (t.update (fun r => key r = k) (fun r => { r with semanticConsumer := claimedConsumer })) := by
  refine ages_update fun r hr hp => ?_
  have heq : r = source := Table.eq_of_key_eq hr hmem (hp.trans hk.symm)
  rw [heq]
  refine ⟨⟨rfl, rfl, rfl, rfl, rfl, rfl, rfl, rfl, rfl, fun hs => ?_, fun _ c hc => ?_⟩, fun _ hs => ?_⟩
  · rw [hpend] at hs
    cases hs
  · rw [hnone] at hc
    cases hc
  · rw [show source.state = .settled from hs] at hpend
    cases hpend

theorem membershipIsCurrent_claimed {p r p' r' : String} {epoch : Int} :
    MembershipIsCurrent (claimed p r db) p' r' epoch ↔ MembershipIsCurrent db p' r' epoch := by
  unfold MembershipIsCurrent
  rw [currentMembershipEpoch_claimed, departureFenced_claimed]

theorem respects_claimSelection (p e : String) (expectedKind : EventKind) (claimedConsumer : Option SemanticConsumer) :
    Respects (Writes b) (claimSelection p e expectedKind claimedConsumer) := by
  unfold claimSelection
  refine Respects.of_at fun db => respectsAt_get_bind ?_
  split
  · exact respectsAt_pure
  · next source hsource =>
    obtain ⟨hmem, hkey, hpend⟩ := pendingAt_eq_some.mp hsource
    split
    · exact respectsAt_pure
    · refine respectsAt_modifyGet_bind (writes_claimMembershipEpoch ..) ?_
      rw [claimMembershipEpoch_eq]
      dsimp only
      split
      · exact respectsAt_pure
      · next hcur =>
        have hcurrent : MembershipIsCurrent db p source.roomId source.membershipEpoch :=
          of_decide_eq_true (Bool.eq_true_of_not_eq_false hcur)
        refine respectsAt_get_bind ?_
        split
        · exact respectsAt_pure
        · next stored hstored =>
          have hpending : pendingAt (claimed p source.roomId db) p e = some source := hsource
          refine (respectsAt_consumeSelectionRevision hpending
            (membershipIsCurrent_claimed.mpr hcurrent) hstored).bind fun consumed t ht => ?_
          have ht := (consumeSelectionRevision_journal p e stored).ok _ _ _ ht
          have hjournal : t.journalEvents = db.journalEvents := ht
          split
          · exact respectsAt_pure
          · split
            · next hnone =>
              refine respectsAt_modify_bind ?_ respectsAt_pure
              exact writes_journal (ages_claimConsumer (hjournal ▸ hmem) hpend hnone.2 hkey)
            · exact respectsAt_pure

end MindRoom
