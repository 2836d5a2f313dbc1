import MindRoom.DeliveryWrites

/-! # Approvals as statements

The approval domain, followed through its code once. Its own tables are beside the record: what
it does to the record is to enqueue and delete deliveries, and to settle sources.
-/

namespace MindRoom

open Transaction

variable {b : Scope}

/-- A terminal edit is a FINAL. -/
theorem sound_terminalEdit (initial : OutboxRow) (resolution : Dict) : (terminalEdit initial resolution).Sound := by
  intro h
  cases h

/-- What a transaction may do depends on the cards and calls it finds. -/
theorem respectsAt_of_allows {α : Type} {m : Tx α} {db : DB}
    (h : b.Allows db → RespectsAt (Writes b) db m) : RespectsAt (Writes b) db m :=
  fun x s' hm => ⟨fun ha => (h ha x s' hm).statements ha⟩

theorem respectsAt_reserveDelivery (host : Host) {p roomId : String} {threadId : Option ThreadId}
    {epoch : Int} {identity : String × Int × String} {card : ApprovalCardReservation} {db : DB}
    (hb : b.approves p card.deliveryId) (hcur : MembershipIsCurrent db p roomId epoch) :
    RespectsAt (Writes b) db (reserveDelivery host p roomId threadId epoch identity card) := by
  unfold reserveDelivery
  refine (respectsAt_enqueue host p (fun _ => rfl) (.inl (.inl hcur))).bind fun _ t _ => ?_
  refine respectsAt_get_bind ?_
  split
  · exact respectsAt_throw
  · next cards hcards => exact respectsAt_set (Amends.card _ cards hb hcards).writes

theorem respects_enqueueResolution (host : Host) {p : String} {initial : OutboxRow}
    (hb : b.approves p initial.deliveryId) (resolution : Dict) :
    Respects (Writes b) (enqueueResolution host p initial resolution) := by
  unfold enqueueResolution
  refine Respects.of_at fun db => ?_
  exact (respectsAt_enqueue host p (sound_terminalEdit initial resolution)
    (.inr ⟨rfl, hb⟩)).bind fun _ _ _ => respectsAt_pure

/-! ## Background scripts -/

namespace BackgroundApprovals

theorem respects_reserveDelivery (hp : b.pausing) (host : Host) {p : String} (roomId : String)
    (threadId : Option ThreadId) (runId callId : String) (expiresAtNs : Int)
    {card : ApprovalCardReservation} (hb : b.approves p card.deliveryId) : Respects (Writes b)
      (reserveDelivery host p roomId threadId runId callId expiresAtNs card) := by
  unfold reserveDelivery
  dsimp only
  refine Respects.of_at fun db => ?_
  split
  · exact respectsAt_throw_bind
  · refine respectsAt_liftM_bind fun identity _ => ?_
    split
    · exact respectsAt_throw_bind
    · refine respectsAt_get_bind (respectsAt_modifyGet_bind (writes_claimMembershipEpoch ..) ?_)
      rw [claimMembershipEpoch_eq]
      dsimp only
      split
      · exact respectsAt_pure
      · next hcur =>
        have hcurrent : MembershipIsCurrent db p roomId (currentMembershipEpoch db p roomId) :=
          of_decide_eq_true (Bool.eq_true_of_not_eq_false hcur)
        refine respectsAt_get_bind ?_
        split
        · exact respectsAt_pure
        · next hnew =>
          split
          · exact respectsAt_throw_bind
          · next hdelivery =>
            have hfree : db.backgroundApprovalCalls.get? (p, runId, callId) = none :=
              Option.not_isSome_iff_eq_none.mp hnew
            refine respectsAt_modify_bind
              (Amends.reserveCall _ hp hb hfree hdelivery rfl).writes ?_
            refine RespectsAt.bind (MindRoom.respectsAt_reserveDelivery host hb ?_)
              fun _ _ _ => respectsAt_pure
            show MembershipIsCurrent (claimed p roomId db) p roomId _
            exact membershipIsCurrent_claimed.mpr hcurrent

theorem mem_of_selectCall {db : DB} {p : String} {selects : OutboxRow → Prop}
    [DecidablePred selects] {row : BackgroundCallRow × OutboxRow} (h : selectCall db p selects = some row) :
    row.1 ∈ db.backgroundApprovalCalls ∧ row.1.principalId = p ∧
      outboxAt db p row.1.deliveryId .initial = some row.2 ∧ selects row.2 := by
  unfold selectCall at h
  have hsel := @List.find?_some _ _ _ _ h
  have hmem := List.mem_of_find?_eq_some h
  obtain ⟨call, hcall, hjoin⟩ := List.mem_filterMap.mp hmem
  obtain ⟨initial, hinitial, rfl⟩ := Option.map_eq_some_iff.mp hjoin
  have hselected := Table.mem_select.mp hcall
  exact ⟨hselected.1, hselected.2, hinitial, of_decide_eq_true hsel⟩

theorem effectiveDecision_late {requestedStatus : Decision} {reason : Option String} {expired : Bool}
    (h : expired = true) : (effectiveDecision requestedStatus reason expired).1 = .expired := by
  unfold effectiveDecision
  rw [if_pos (.inr h)]

theorem respects_resolve (host : Host) (p : String) (requestedStatus : Decision) (reason : Option String) (metadata : Option ApprovalDecisionMetadata)
    (cardEventId deliveryId : Option String) : Respects (Writes b)
      (resolve host p requestedStatus reason metadata cardEventId deliveryId) := by
  unfold resolve
  refine Respects.of_at fun db => respectsAt_get_bind ?_
  split
  · exact respectsAt_pure
  · next call initial hselect =>
    obtain ⟨hcall, hp, hinitial, _⟩ := mem_of_selectCall hselect
    dsimp only at hcall hp hinitial
    have hdelivery : initial.deliveryId = call.deliveryId := deliveryId_of_outboxAt hinitial
    split
    · exact respectsAt_pure
    · next hopen =>
      -- the decision is written behind the reading it is judged by
      refine respectsAt_of_allows fun ha => RespectsFrom.at ?_
      have happroves : b.approves p initial.deliveryId := hp ▸ hdelivery ▸ ha.calls call hcall
      dsimp only
      refine respectsFrom_liftM_bind fun stored _ => respectsFrom_modify_bind ?_ ?_
      · subst hp
        exact (Amends.decideBackground call _ _ hcall (not_not.mp hopen) fun hlate =>
          effectiveDecision_late (decide_eq_true hlate)).writes
      · exact ((respects_enqueueResolution host happroves stored).at _).bind fun _ _ _ =>
          respectsAt_pure

theorem respects_resolveCall (host : Host) (principalId runId callId : String)
    (requestedStatus : Decision) (reason : String) :
    Respects (Writes b) (resolveCall host principalId runId callId requestedStatus reason) := by
  unfold resolveCall
  refine respects_get.bind fun db => ?_
  split
  · exact respects_pure
  · exact respects_resolve ..

theorem respects_resolvePendingCalls (host : Host) (principalId runId reason : String) :
    Respects (Writes b) (resolvePendingCalls host principalId runId reason) := by
  unfold resolvePendingCalls
  refine respects_get.bind fun db => ?_
  exact (Respects.mapM (fun call => respects_resolveCall ..) _).bind fun _ => respects_pure

theorem writes_pruneCalls (hr : b.releasing) (principalId runId : String) (db : DB) :
    Writes b db (pruneCalls principalId runId db).2 := by
  unfold pruneCalls
  split
  · exact writes_refl b db
  · exact (Amends.prune principalId runId hr).writes

end BackgroundApprovals

/-! ## Paused runs -/

namespace ApprovalContinuations

theorem insertCalls_eq_ok {p a : String} {g : Int} {calls : List ApprovalCall} {s s' : DB}
    {u : Unit} (h : insertCalls p a g calls s = .ok (u, s')) :
    ∃ rows, s.approvalContinuationCalls.insertAll? (newCallRows p a g calls) = some rows ∧
      s' = { s with approvalContinuationCalls := rows } := by
  unfold insertCalls at h
  obtain ⟨_, t, ht, h⟩ := bind_eq_ok.mp h
  obtain ⟨rfl, rfl⟩ := get_eq_ok.mp ht
  cases hrows : s.approvalContinuationCalls.insertAll? (newCallRows p a g calls) with
  | none =>
    rw [hrows] at h
    exact absurd h throw_eq_ok
  | some rows =>
    rw [hrows] at h
    refine ⟨rows, rfl, ?_⟩
    cases h
    rfl

theorem insertSources_eq_ok {p a : String} {eventIds : List String} {s s' : DB} {u : Unit}
    (h : insertSources p a eventIds s = .ok (u, s')) : ∃ rows, s' = { s with approvalContinuationSources := rows } := by
  unfold insertSources at h
  obtain ⟨_, t, ht, h⟩ := bind_eq_ok.mp h
  obtain ⟨rfl, rfl⟩ := get_eq_ok.mp ht
  generalize s.approvalContinuationSources.insertAll? _ = inserted at h
  cases inserted with
  | none => exact absurd h throw_eq_ok
  | some rows =>
    refine ⟨rows, ?_⟩
    cases h
    rfl

theorem respectsAt_create (hp : b.pausing) (p : String) {c : ApprovalContinuation} {db : DB}
    (hc : db.approvalContinuations.get? c.approvalId = none → b.pauses c) : RespectsAt (Writes b) db (create p c) := by
  unfold create
  split
  · exact respectsAt_pure
  · refine respectsAt_modifyGet_bind (writes_claimActiveMembershipEpoch ..) ?_
    rw [claimActiveMembershipEpoch_eq]
    dsimp only
    split
    · exact respectsAt_pure
    · refine respectsAt_get_bind ?_
      split
      · exact respectsAt_pure
      · split
        · exact respectsAt_pure
        · refine respectsAt_timeNs_bind (respectsAt_get_bind ?_)
          split
          · exact respectsAt_pure
          · next hnew =>
            -- the row, its sources and its calls are one step
            have hnone := Option.not_isSome_iff_eq_none.mp hnew
            refine respectsFrom_bind fun _ t ht => ?_
            obtain rfl := modify_eq_ok.mp ht
            refine respectsFrom_bind fun _ t ht => ?_
            obtain ⟨sources, rfl⟩ := insertSources_eq_ok ht
            refine respectsFrom_bind fun _ t ht => ?_
            obtain ⟨calls, hcalls, rfl⟩ := insertCalls_eq_ok ht
            refine respectsFrom_get_bind (respectsFrom_pure ?_)
            exact (Amends.pause p c _ sources calls hp (hc hnone) hnone hcalls).writes

theorem writes_updateRows {q : ContinuationRow → Prop} [DecidablePred q]
    {f : ContinuationRow → ContinuationRow} {hf : ∀ r, key (f r) = key r} {db : DB}
    (h : ∀ r ∈ db.approvalContinuations, q r → r.Moves db (f r)) : Writes b db (updateRows q f hf db) :=
  (Amends.move q f hf h).writes

theorem respects_claim (principalId approvalId runtimeGeneration : String) (legacyShowToolCalls : Option Bool) :
    Respects (Writes b) (claim principalId approvalId runtimeGeneration legacyShowToolCalls) := by
  unfold claim
  refine respects_get.bind fun db => ?_
  split
  · exact respects_pure
  · refine respects_ite (fun _ => respects_pure) (fun _ => ?_)
    refine Respects.bind respects_liftM fun shown => ?_
    refine Respects.bind (respects_modify fun s => ?_) fun _ => ?_
    · exact writes_updateRows fun r _ hq => .claim _ _ hq.2.2
    · exact respects_get.bind fun _ => respects_pure

theorem load_row {db : DB} {p a : String} {c : ApprovalContinuation} (h : load db p a = some c) :
    ∃ row, rowAt db p a = some row ∧ row.state = c.state ∧ row.generation = c.generation ∧
      row.runtimeGeneration = c.runtimeGeneration := by
  unfold load at h
  obtain ⟨row, hrow, rfl⟩ := Option.map_eq_some_iff.mp h
  exact ⟨row, hrow, rfl, rfl, rfl⟩

theorem respects_advance (hp : b.pausing) (p a : String) (g : Int) (next : Advance) :
    Respects (Writes b) (advance p a g next) := by
  unfold advance
  refine Respects.of_at fun db => respectsAt_get_bind ?_
  split
  · exact respectsAt_pure
  · next current hload =>
    dsimp only
    split
    · exact respectsAt_pure
    · next hclaimed =>
      obtain ⟨hstate, hgen⟩ := not_not.mp hclaimed
      obtain ⟨row, hrow, hs, hg, _⟩ := load_row hload
      have hrow : (rowAt db p a).any (fun r => r.state = .claimed ∧ r.generation = g) = true := by
        rw [hrow]
        exact decide_eq_true ⟨hs.trans hstate, hg.trans hgen⟩
      refine respectsFrom_bind fun _ t ht => ?_
      obtain rfl := modify_eq_ok.mp ht
      refine respectsFrom_bind fun _ t ht => ?_
      obtain ⟨calls, hcalls, rfl⟩ := insertCalls_eq_ok ht
      refine respectsFrom_get_bind (respectsFrom_pure ?_)
      exact (Amends.advance p a g next _ _ calls hp hrow hcalls).writes

theorem writes_activate (p a : String) (g : Int) (db : DB) : Writes b db (activate p a g db).2 := by
  unfold activate
  dsimp only
  split
  · exact writes_refl b db
  · refine writes_updateRows fun r _ hq => ?_
    obtain ⟨rfl, rfl, hwaiting, rfl, _⟩ := hq
    refine .activate hwaiting _ ?_
    split
    · exact .inl rfl
    · next hdecided => exact .inr ⟨rfl, hdecided⟩

theorem writes_requestFailure (p a reason : String) (expectedState : ContinuationState)
    (expectedGeneration : Int) (expectedRuntimeGeneration : Option String) (db : DB) :
    Writes b db (requestFailure p a reason expectedState expectedGeneration
      expectedRuntimeGeneration db).2 := by
  unfold requestFailure
  split
  · exact writes_refl b db
  · exact writes_updateRows fun r _ _ => .fail reason r.runtimeGeneration

theorem writes_release (hr : b.releasing) (p : String) (c : ApprovalContinuation) (db : DB) :
    Writes b db (release p c db) :=
  (writes_settleMany p c.sourceEventIds db).trans (Amends.release _ hr).writes

theorem respects_finish (hr : b.releasing) (p a : String) : Respects (Writes b) (finish p a) := by
  unfold finish
  refine respects_get.bind fun db => ?_
  split
  · exact respects_pure
  · split
    · exact respects_throw
    · dsimp only
      refine respects_ite (fun _ => respects_pure) (fun _ => ?_)
      exact Respects.bind (respects_modify fun s => writes_release hr ..) fun _ => respects_pure

theorem respects_enqueueUnavailableNotice (host : Host) (p approvalId roomId : String)
    (threadId : Option ThreadId) (payload : Dict) : Respects (Writes b)
      (enqueueUnavailableNotice host p approvalId roomId threadId payload) := by
  unfold enqueueUnavailableNotice
  refine Respects.of_at fun db =>
    respectsAt_modifyGet_bind (writes_claimActiveMembershipEpoch ..) ?_
  rw [claimActiveMembershipEpoch_eq]
  dsimp only
  split
  · exact respectsAt_pure
  · next epoch hepoch =>
    have hcurrent : MembershipIsCurrent db p roomId epoch := by
      split at hepoch
      · cases hepoch
      · next hfenced => exact ⟨Option.some.inj hepoch, Bool.eq_false_iff.mpr hfenced⟩
    refine RespectsAt.bind (respectsAt_enqueue host p (fun h => nomatch h) (.inl (.inl ?_)))
      fun _ _ _ => respectsAt_pure
    exact membershipIsCurrent_claimed.mpr hcurrent

theorem respects_discardUnavailable (hr : b.releasing) (p approvalId noticePrincipalId : String) :
    Respects (Writes b) (discardUnavailable p approvalId noticePrincipalId) := by
  unfold discardUnavailable
  refine respects_get.bind fun db => ?_
  split
  · exact respects_pure
  · refine respects_ite (fun _ => respects_pure) (fun _ => ?_)
    refine Respects.bind (respects_modifyGet fun s => writes_claimActiveMembershipEpoch ..)
      fun epoch => ?_
    split
    · exact respects_pure
    · refine Respects.bind (respects_modifyGet fun s => writes_claimActiveDeliveryOwnership ..)
        fun ownership => ?_
      refine respects_ite (fun _ => respects_pure) (fun _ => ?_)
      refine respects_get.bind fun db => respects_ite (fun _ => respects_pure) (fun _ => ?_)
      exact Respects.bind (respects_modify fun s => writes_release hr ..) fun _ => respects_pure

end ApprovalContinuations

/-! ## Cards -/

namespace Approvals

theorem mem_cardJoins {db : DB} {row : CardJoin} (h : row ∈ cardJoins db) : row.card ∈ db.approvalCards ∧
      outboxAt db row.card.principalId row.card.deliveryId .initial = some row.initial ∧
      row.final = outboxAt db row.card.principalId row.card.deliveryId .final ∧
      row.background = backgroundOf db row.card.principalId row.card.deliveryId := by
  unfold cardJoins at h
  obtain ⟨card, hcard, hjoin⟩ := List.mem_filterMap.mp h
  obtain ⟨initial, hinitial, rfl⟩ := Option.map_eq_some_iff.mp hjoin
  exact ⟨hcard, hinitial, rfl, rfl⟩

/-- The card of a join may be resolved, and its INITIAL is the one of its delivery. -/
structure CardJoin.In (b : Scope) (row : CardJoin) : Prop where
  approves : b.approves row.card.principalId row.card.deliveryId
  initial : b.approves row.card.principalId row.initial.deliveryId

end Approvals

theorem Scope.Allows.join {db : DB} (ha : b.Allows db) {row : Approvals.CardJoin}
    (h : row ∈ Approvals.cardJoins db) : row.In b := by
  obtain ⟨hcard, hinitial, _, _⟩ := Approvals.mem_cardJoins h
  have happroves := ha.cards row.card hcard
  have hdelivery : row.initial.deliveryId = row.card.deliveryId := deliveryId_of_outboxAt hinitial
  exact ⟨happroves, hdelivery ▸ happroves⟩

namespace Approvals

theorem effectiveContinuationDecision_late {requestedStatus : Decision}
    {requestedReason failureReason : Option String} {expired : Bool} (h : expired = true) :
    (effectiveContinuationDecision requestedStatus requestedReason expired failureReason).1 =
      .expired := by
  unfold effectiveContinuationDecision
  rw [if_pos (.inr h)]

/-- A failing run turns every approval into a denial. -/
theorem effectiveContinuationDecision_failing {requestedStatus : Decision}
    {requestedReason : Option String} {expired : Bool} {continuation : ContinuationRow}
    (h : continuation.state = .failing) : (effectiveContinuationDecision requestedStatus requestedReason expired
      (failureFence continuation)).1 ≠ .approved := by
  have hfence : failureFence continuation ≠ none := by
    unfold failureFence
    rw [if_pos h]
    split
    · split <;> exact Option.some_ne_none _
    · exact Option.some_ne_none _
  unfold effectiveContinuationDecision
  split
  · exact fun h => nomatch h
  · split
    · exact fun h => nomatch h
    · next hno => exact fun happroved => hno ⟨happroved, hfence⟩

theorem writes_markReady (p a : String) (g : Int) (db : DB) : Writes b db (markReady p a g db) := by
  refine ApprovalContinuations.writes_updateRows fun r _ hq => ?_
  obtain ⟨rfl, rfl, rfl, hwaiting, _, hdecided⟩ := hq
  exact .ready hwaiting hdecided

theorem respects_resolveContinuation (host : Host) (p : String) (cardEventId : Option String) (requestedStatus : Decision) (reason : Option String)
    (metadata : Option ApprovalDecisionMetadata) (deliveryId : Option String) :
    Respects (Writes b) (resolveContinuation host p cardEventId requestedStatus reason metadata
      deliveryId) := by
  unfold resolveContinuation
  refine Respects.of_at fun db => respectsAt_get_bind ?_
  split
  · exact respectsAt_pure
  · next row hfind =>
    have hjoin := List.mem_of_find?_eq_some hfind
    have hselected := @List.find?_some _ _ _ _ hfind
    have hp : row.card.principalId = p := (of_decide_eq_true hselected).1
    split
    · exact respectsAt_pure
    · split
      · exact respectsAt_pure
      · next continuation hrow =>
        split
        · exact respectsAt_pure
        · next call hcall =>
          -- the decision is written behind the reading it is judged by
          refine respectsAt_of_allows fun ha => RespectsFrom.at ?_
          have happroves : b.approves p row.initial.deliveryId := hp ▸ (ha.join hjoin).initial
          dsimp only
          split
          · exact respectsFrom_pure Amends.tick.writes
          · refine respectsFrom_liftM_bind fun stored _ => respectsFrom_modify_bind ?_ ?_
            · exact (Amends.decide continuation row.card call _ _ hrow hcall
                (fun hlate => effectiveContinuationDecision_late (decide_eq_true hlate))
                effectiveContinuationDecision_failing).writes
            · refine ((respects_enqueueResolution host happroves stored).at _).bind fun _ _ _ => ?_
              refine respectsAt_modify_bind (writes_markReady ..) ?_
              exact respectsAt_get_bind respectsAt_pure

theorem respects_resolveCard (host : Host) (p : String) (cardEventId : Option String) (requestedStatus : Decision) (reason : Option String)
    (metadata : Option ApprovalDecisionMetadata) (deliveryId : Option String) : Respects (Writes b)
      (resolveCard host p cardEventId requestedStatus reason metadata deliveryId) := by
  unfold resolveCard
  refine respects_get.bind fun db => ?_
  dsimp only
  split
  · exact BackgroundApprovals.respects_resolve ..
  · exact respects_resolveContinuation ..

theorem writes_deleteOutbox {q : OutboxRow → Prop} [DecidablePred q] (h : ∀ r, q r → b.deletes r)
    (db : DB) : Writes b db (deleteOutbox q db) :=
  (Statement.deleteOutbox q h).writes

theorem writes_deleteUnattemptedCardDelivery {p d : String} (hb : b.approves p d) (db : DB) :
    Writes b db (deleteUnattemptedCardDelivery p d db) :=
  (Amends.deleteCard p d).writes.trans (Delivers.drop p d hb).writes

theorem writes_rememberCompleted (p d cardEventId : String) (db : DB) :
    Writes b db (rememberCompleted p d cardEventId db) := by
  unfold rememberCompleted
  split
  · exact (Amends.remember _).writes
  · exact writes_refl b db

theorem writes_retire {p d : String}
    (hd : ∀ r : OutboxRow, r.principalId = p → r.deliveryId = d → b.deletes r) (cardEventId : String) (db : DB) :
    Writes b db (retire p d cardEventId db).2 := by
  unfold retire
  dsimp only
  split
  · refine (writes_rememberCompleted p d cardEventId db).trans ?_
    exact (Amends.deleteCard p d).writes.trans (writes_deleteOutbox (fun r hr => hd r hr.1 hr.2) _)
  · exact writes_rememberCompleted ..

theorem writes_rememberTerminalAlias (p roomId cardEventId d : String) (db : DB) :
    Writes b db (rememberTerminalAlias p roomId cardEventId d db) := by
  unfold rememberTerminalAlias
  split
  · exact writes_refl b db
  · split
    · exact (Amends.remember _).writes
    · exact writes_refl b db

/-! ### Departures -/

theorem writes_carryCardDeliveryToMembership {p d : String} (hb : b.approves p d) (membershipEpoch : Int) (db : DB) :
    Writes b db (carryCardDeliveryToMembership p d membershipEpoch db) :=
  (Amends.carryCard p d membershipEpoch).writes.trans
    (Delivers.carry p d membershipEpoch hb).writes

theorem respects_enqueueTerminal (host : Host) {row : CardJoin}
    (hb : b.approves row.card.principalId row.initial.deliveryId) (status : Decision) (reason : String) :
    Respects (Writes b) (enqueueTerminal host row status reason) := by
  unfold enqueueTerminal
  exact Respects.bind respects_liftM fun _ => respects_enqueueResolution host hb _

theorem respects_expireCard (host : Host) (reason : String) {row : CardJoin} (hb : row.In b) :
    Respects (Writes b) (expireCard host reason row) := by
  unfold expireCard
  refine respects_ite
    (fun _ => respects_modify fun s => writes_deleteUnattemptedCardDelivery hb.approves s)
    (fun _ => ?_)
  exact respects_ite (fun _ => respects_enqueueTerminal host hb.initial ..) (fun _ => respects_pure)

theorem writes_retireCompletedCardsForDeparture
    (hd : ∀ r : OutboxRow, b.approves r.principalId r.deliveryId → b.deletes r)
    (principalId roomId : String) (db : DB) : Writes b db (retireCompletedCardsForDeparture principalId roomId db) := by
  have hloop : ∀ (rows : List CardJoin) (s : DB), (∀ row ∈ rows, row.In b) → Writes b s
      (rows.foldl (fun s row => (retire row.card.principalId row.card.deliveryId
        (row.initial.acknowledgedEventId.getD "") s).2) s) := by
    intro rows
    induction rows with
    | nil => exact fun s _ => writes_refl b s
    | cons row rest ih =>
      intro s hin
      have happroves := (hin row List.mem_cons_self).approves
      have hretire := @writes_retire b row.card.principalId row.card.deliveryId
        (fun r hp hd' => hd r (hp ▸ hd' ▸ happroves))
        (row.initial.acknowledgedEventId.getD "") s
      exact hretire.trans (ih _ fun r hr => hin r (List.mem_cons_of_mem _ hr))
  refine ⟨fun ha => ?_⟩
  exact (hloop _ db fun row hrow => ha.join (List.mem_filter.mp hrow).1).statements ha

theorem respects_expireCardsForDepartedContinuations (host : Host) (p roomId reason : String) :
    Respects (Writes b) (expireCardsForDepartedContinuations host p roomId reason) := by
  unfold expireCardsForDepartedContinuations
  refine Respects.of_at fun db => respectsAt_get_bind (respectsAt_of_allows fun ha => ?_)
  exact (Respects.forM_mem fun row hrow =>
    respects_expireCard host reason (ha.join (List.mem_filter.mp hrow).1)).at db

theorem respects_failCard (host : Host) {p : String} (reason : String) (membershipEpoch : Int)
    {row : CardJoin} (hb : row.In b) (hp : row.card.principalId = p) :
    Respects (Writes b) (failCard host p reason membershipEpoch row) := by
  subst hp
  unfold failCard
  have hdelete : Respects (Writes b)
      (modify (deleteUnattemptedCardDelivery row.card.principalId row.card.deliveryId) : Tx PUnit) :=
    respects_modify fun s => writes_deleteUnattemptedCardDelivery hb.approves s
  have hcarry : Respects (Writes b)
      (modify (carryCardDeliveryToMembership row.card.principalId row.card.deliveryId
        membershipEpoch) : Tx PUnit) :=
    respects_modify fun s => writes_carryCardDeliveryToMembership hb.approves membershipEpoch s
  have hdeny : Respects (Writes b) (modify (denyCallIfUndecided row.card reason) : Tx PUnit) :=
    respects_modify fun s => (Amends.deny row.card reason).writes
  split
  · refine Respects.bind (BackgroundApprovals.respects_resolve ..) fun _ => ?_
    exact respects_ite (fun _ => hdelete) (fun _ => hcarry)
  · dsimp only
    refine respects_ite (fun _ => hdeny.bind fun _ => ?_) (fun _ => ?_)
    all_goals
      refine respects_ite (fun _ => hdelete) (fun _ => ?_)
      exact respects_ite
        (fun _ => Respects.bind (respects_enqueueTerminal host hb.initial ..) fun _ => hcarry)
        (fun _ => hcarry)

theorem respects_failContinuationsForDepartedCardOwner (host : Host) (p roomId reason : String) :
    Respects (Writes b) (failContinuationsForDepartedCardOwner host p roomId reason) := by
  unfold failContinuationsForDepartedCardOwner
  refine Respects.bind (respects_modify fun s => ?_) fun _ => Respects.of_at fun db =>
    respectsAt_get_bind (respectsAt_of_allows fun ha => ?_)
  · exact ApprovalContinuations.writes_updateRows fun r _ _ => .fail reason none
  · refine (Respects.forM_mem fun row hrow => ?_).at db
    obtain ⟨hjoin, hfilter⟩ := List.mem_filter.mp hrow
    exact respects_failCard host reason _ (ha.join hjoin) (of_decide_eq_true hfilter).1

end Approvals

/-! ## Grants -/

namespace ApprovalGrants

theorem respects_reserveIdentity (hg : b.grants) (host : Host)
    (principalId continuationPrincipalId : String) (continuation : ApprovalContinuation)
    (card : ApprovalCardReservation) (membershipEpoch : Int) :
    Respects (Writes b) (reserveIdentity host principalId continuationPrincipalId continuation card
      membershipEpoch) := by
  unfold reserveIdentity
  split
  · split
    · exact respects_throw
    · refine Respects.of_at fun db => respectsAt_get_bind ?_
      split
      · exact respectsAt_pure
      · dsimp only
        split
        · exact respectsAt_throw_bind
        · split
          · exact respectsAt_throw
          · next rows _ =>
            exact RespectsAt.bind (respectsAt_set (Amends.grants rows db.approvalGrants hg).writes)
              fun _ _ _ => respectsAt_pure
  · exact respects_pure

theorem writes_bindGrant (hg : b.grants) (p d grantId : String) (db : DB) : Writes b db (bindGrant p d grantId db) :=
  (Amends.grants _ db.approvalGrants hg).writes

theorem Current.membership {db : DB} {p roomId responder : String} {epoch responderEpoch : Int}
    (h : Current db p roomId epoch responder responderEpoch) :
    MembershipIsCurrent db p roomId epoch := by
  have hactive := h.1
  unfold activeEpoch at hactive
  split at hactive
  · cases hactive
  · next hfenced => exact ⟨Option.some.inj hactive, Bool.eq_false_iff.mpr hfenced⟩

theorem respects_applyActive (hg : b.grants) (host : Host) (p : String)
    (card : ApprovalCardReservation) : Respects (Writes b) (applyActive host p card) := by
  unfold applyActive
  refine Respects.of_at fun db => respectsAt_get_bind ?_
  split
  · exact respectsAt_pure
  · next row hrow =>
    have hscope : ScopeCurrent db p row :=
      of_decide_eq_true (Option.filter_eq_some_iff.mp hrow).2
    -- the approval is written behind the reading it is judged by
    refine RespectsFrom.at ?_
    dsimp only
    split
    · exact respectsFrom_pure Amends.tick.writes
    · next grant hgrant =>
      split
      · exact respectsFrom_pure Amends.tick.writes
      · next hcall =>
        refine respectsFrom_modify_bind (Amends.approve p row grant hg hscope hgrant hcall).writes ?_
        refine respectsAt_modify_bind (writes_bindGrant hg ..) ?_
        refine respectsAt_liftM_bind fun resolution _ => respectsAt_liftM_bind fun receipt _ => ?_
        refine RespectsAt.bind (respectsAt_enqueue host p (fun _ => rfl) (.inl (.inl ?_)))
          fun _ _ _ => respectsAt_pure
        exact hscope.membership

theorem respects_decide (hg : b.grants) (host : Host) (principalId : String)
    (row : GrantCardRow × OutboxRow) (grant : ApprovalGrant) (provenance : Dict)
    (metadata : Option ApprovalDecisionMetadata) (reason : Option String) :
    Respects (Writes b) (decide host principalId row grant provenance metadata reason) := by
  unfold decide
  have hrest : ∀ now, Respects (Writes b) (do
      let result ← Approvals.resolveCard host principalId row.2.acknowledgedEventId .approved reason
        (some (decisionMetadata host grant provenance metadata now)) (some row.1.deliveryId)
      if Approved result then
        modify (bindGrant principalId row.1.deliveryId grant.grantId)
      return result) := by
    intro now
    refine Respects.bind (Approvals.respects_resolveCard ..) fun result => ?_
    dsimp only
    exact respects_ite
      (fun _ => Respects.bind (respects_modify fun s => writes_bindGrant hg ..)
        fun _ => respects_pure)
      (fun _ => respects_pure)
  cases metadata with
  | none => exact respects_timeNs.bind fun now => hrest now
  | some m => exact Respects.bind respects_pure fun now => hrest now

theorem respects_insertGrant (hg : b.grants) (row : GrantRow) : Respects (Writes b) (insertGrant row) := by
  unfold insertGrant
  refine Respects.of_at fun db => respectsAt_get_bind ?_
  dsimp only
  split
  · exact respectsAt_throw_bind
  · split
    · exact respectsAt_throw
    · next rows _ => exact respectsAt_set (Amends.grants db.approvalGrantCards rows hg).writes

theorem respects_create (hg : b.grants) (host : Host) (principalId : String)
    (request : GrantRequest) : Respects (Writes b) (create host principalId request) := by
  unfold create
  refine respects_ite (fun _ => respects_pure) (fun _ => respects_get.bind fun db => ?_)
  split
  · exact respects_pure
  · refine respects_ite (fun _ => respects_pure) (fun _ => respects_timeNs.bind fun now => ?_)
    dsimp only
    refine Respects.bind (respects_decide hg ..) fun first => ?_
    refine respects_ite (fun _ => respects_pure) (fun _ => ?_)
    refine Respects.bind (respects_insertGrant hg _) fun _ => respects_get.bind fun db => ?_
    exact (Respects.mapM (fun candidate => respects_decide hg ..) _).bind fun _ => respects_pure

theorem writes_updateGrant (hg : b.grants) (p grantId : String) (f : GrantRow → GrantRow)
    (hf : ∀ r, key (f r) = key r) (db : DB) : Writes b db (updateGrant p grantId f hf db) :=
  (Amends.grants db.approvalGrantCards _ hg).writes

theorem respects_revoke (hg : b.grants) (principalId roomId cardEventId senderId grantId : String) :
    Respects (Writes b) (revoke principalId roomId cardEventId senderId grantId) := by
  unfold revoke
  refine respects_get.bind fun db => ?_
  split
  · exact respects_pure
  · dsimp only
    refine respects_ite (fun _ => respects_pure) (fun _ => respects_timeNs.bind fun now => ?_)
    refine respects_ite (fun _ => respects_pure) (fun _ => ?_)
    exact Respects.bind (respects_modify fun s => writes_updateGrant hg ..) fun _ => respects_pure

/-! ### Maintenance -/

theorem writes_rememberReceipts (principalId : String) (db : DB) : Writes b db (rememberReceipts principalId db) := by
  unfold rememberReceipts
  generalize db.matrixDeliveryOutbox.select (SpentReceipt db principalId ·) = rows
  induction rows generalizing db with
  | nil => exact writes_refl b db
  | cons r rest ih =>
    rw [List.foldl_cons]
    refine Writes.trans ?_ (ih _)
    split
    · exact (Amends.remember _).writes
    · exact writes_refl b db

theorem writes_retireReceipts (hd : ∀ r, b.deletes r) (principalId : String) (db : DB) :
    Writes b db (retireReceipts principalId db) :=
  (writes_rememberReceipts principalId db).trans
    (Approvals.writes_deleteOutbox (fun r _ => hd r) _)

theorem respects_maintainGrant (hb : ∀ p d, b.approves p d) (hg : b.grants) (host : Host)
    (principalId : String) (begun : DB) (now : Int) (row : GrantRow) (resolution : Dict) :
    Respects (Writes b) (maintainGrant host principalId begun now row resolution) := by
  unfold maintainGrant
  refine respects_ite
    (fun _ => Respects.bind (respects_modify fun s => writes_updateGrant hg ..)
      fun _ => respects_pure)
    (fun _ => ?_)
  refine respects_ite (fun _ => respects_pure) (fun _ => ?_)
  dsimp only
  refine respects_ite (fun _ => respects_pure) (fun _ => Respects.of_at fun db => ?_)
  exact RespectsAt.bind
    (respectsAt_enqueue host principalId (fun h => nomatch h) (.inr ⟨rfl, hb _ _⟩))
    fun _ _ _ => respectsAt_pure

theorem respects_maintain (hd : ∀ r, b.deletes r) (hb : ∀ p d, b.approves p d) (hg : b.grants)
    (host : Host) (principalId : String) (grantId : Option String) :
    Respects (Writes b) (maintain host principalId grantId) := by
  have hend : Respects (Writes b) (modify (deleteDeliveredRevocations principalId) : Tx PUnit) :=
    respects_modify fun s => Approvals.writes_deleteOutbox (fun r _ => hd r) s
  have hscopes : Respects (Writes b) (modify (deleteUnusedScopes principalId) : Tx PUnit) :=
    respects_modify fun s => (Amends.grants _ s.approvalGrants hg).writes
  unfold maintain
  dsimp only
  refine respects_ite (fun _ => ?_) (fun _ => ?_)
  · refine Respects.bind (respects_modify fun s => writes_retireReceipts hd ..) fun _ => ?_
    refine hscopes.bind fun _ => respects_get.bind fun db => respects_timeNs.bind fun now => ?_
    refine (Respects.mapM (fun row => respects_maintainGrant hb hg ..) _).bind fun deliveries => ?_
    exact respects_ite (fun _ => hend.bind fun _ => respects_pure) (fun _ => respects_pure)
  · refine respects_get.bind fun db => respects_timeNs.bind fun now => ?_
    refine (Respects.mapM (fun row => respects_maintainGrant hb hg ..) _).bind fun deliveries => ?_
    exact respects_ite (fun _ => hend.bind fun _ => respects_pure) (fun _ => respects_pure)

end ApprovalGrants

/-! ## Reservation -/

namespace Approvals

theorem respects_checkIdentity (continuationId : String) (expectedGeneration : Int) (card : ApprovalCardReservation) :
    Respects (Writes b) (checkIdentity continuationId expectedGeneration card) := by
  unfold checkIdentity
  exact Respects.bind respects_liftM fun identity =>
    respects_ite (fun _ => respects_throw) (fun _ => respects_pure)

variable {continuation : ApprovalContinuation} {cardPrincipalId continuationPrincipalId : String}

/-- Scoping a card does not change its delivery. -/
theorem reserveIdentity_deliveryId {host : Host} {p continuationPrincipalId : String}
    {card reserved : ApprovalCardReservation} {epoch : Int}
    {s s' : DB} (h : ApprovalGrants.reserveIdentity host p continuationPrincipalId continuation card
      epoch s = .ok (reserved, s')) : reserved.deliveryId = card.deliveryId := by
  unfold ApprovalGrants.reserveIdentity at h
  cases hoperation : card.grantOperation with
  | none =>
    simp only [hoperation] at h
    obtain ⟨rfl, _⟩ := pure_eq_ok.mp h
    rfl
  | some operation =>
    cases hthread : continuation.context.threadId with
    | none =>
      simp only [hoperation, hthread] at h
      obtain ⟨rfl, _⟩ := pure_eq_ok.mp h
      rfl
    | some threadId =>
      simp only [hoperation, hthread] at h
      cases hcall : continuation.calls.find? (·.toolCallId = card.toolCallId) with
      | none =>
        simp only [hcall] at h
        exact absurd h throw_eq_ok
      | some call =>
        simp only [hcall] at h
        obtain ⟨db, t, _, h⟩ := bind_eq_ok.mp h
        cases hepoch : ApprovalGrants.activeEpoch db continuationPrincipalId
            continuation.context.roomId with
        | none =>
          simp only [hepoch] at h
          obtain ⟨rfl, _⟩ := pure_eq_ok.mp h
          rfl
        | some responderEpoch =>
          simp only [hepoch] at h
          split at h
          · obtain ⟨_, _, hthrow, _⟩ := bind_eq_ok.mp h
            exact absurd hthrow throw_eq_ok
          · generalize db.approvalGrantCards.insert? _ = inserted at h
            cases inserted with
            | none => exact absurd h throw_eq_ok
            | some rows =>
              obtain ⟨_, _, _, h⟩ := bind_eq_ok.mp h
              obtain ⟨rfl, _⟩ := pure_eq_ok.mp h
              rfl

theorem respectsAt_reserveCard (hg : b.grants) (host : Host) {epoch : Int} {card : ApprovalCardReservation} {db : DB}
    (hb : b.approves cardPrincipalId card.deliveryId)
    (hcur : MembershipIsCurrent db cardPrincipalId continuation.context.roomId epoch) :
    RespectsAt (Writes b) db (reserveCard host cardPrincipalId continuationPrincipalId continuation
      epoch card) := by
  unfold reserveCard
  have hidentity := fun (c : Scope) (hc : c.grants) => ApprovalGrants.respects_reserveIdentity hc
    host cardPrincipalId continuationPrincipalId continuation card epoch
  refine ((hidentity b hg).at db).bind fun scopedCard t ht => ?_
  have happly := fun (c : Scope) (hc : c.grants) =>
    ApprovalGrants.respects_applyActive hc host cardPrincipalId scopedCard
  refine ((happly b hg).at t).bind fun applied u hu => ?_
  split
  · have htenures : tenures u = tenures db :=
      ((happly .quiet trivial).ok _ _ _ hu).tenures.trans
        ((hidentity .quiet trivial).ok _ _ _ ht).tenures
    have hdelivery : scopedCard.deliveryId = card.deliveryId := reserveIdentity_deliveryId ht
    exact respectsAt_reserveDelivery host (hdelivery ▸ hb)
      (membershipIsCurrent_of_tenures htenures hcur)
  · exact respectsAt_pure

/-- No card moves the tenure the cards behind it are reserved under. -/
theorem reserveCard_current (host : Host) {epoch : Int} {card : ApprovalCardReservation} {s s' : DB} {u : Unit}
    (hcur : MembershipIsCurrent s cardPrincipalId continuation.context.roomId epoch)
    (h : reserveCard host cardPrincipalId continuationPrincipalId continuation epoch card s =
      .ok (u, s')) :
    MembershipIsCurrent s' cardPrincipalId continuation.context.roomId epoch := by
  have hquiet : Writes .quiet s s' :=
    respectsAt_reserveCard trivial host trivial hcur u s' h
  exact membershipIsCurrent_of_tenures hquiet.tenures hcur

theorem respectsAt_reserveCards (hg : b.grants) (host : Host)
    {epoch : Int} {cards : List ApprovalCardReservation} {db : DB}
    (hb : ∀ card ∈ cards, b.approves cardPrincipalId card.deliveryId)
    (hcur : MembershipIsCurrent db cardPrincipalId continuation.context.roomId epoch) : RespectsAt (Writes b) db
      (cards.forM (reserveCard host cardPrincipalId continuationPrincipalId continuation epoch)) := by
  induction cards generalizing db with
  | nil => exact respectsAt_pure
  | cons card rest ih =>
    exact (respectsAt_reserveCard hg host (hb card List.mem_cons_self) hcur).bind fun _ t ht =>
      ih (fun c hc => hb c (List.mem_cons_of_mem _ hc)) (reserveCard_current host hcur ht)

theorem respects_reserveDeliveries (hg : b.grants) (host : Host) {cardPrincipalId : String}
    (continuationPrincipalId continuationId : String) (expectedGeneration : Int) {cards : List ApprovalCardReservation}
    (hb : ∀ card ∈ cards, b.approves cardPrincipalId card.deliveryId) :
    Respects (Writes b) (reserveDeliveries host cardPrincipalId continuationPrincipalId
      continuationId expectedGeneration cards) := by
  unfold reserveDeliveries
  refine Respects.of_at fun db => respectsAt_get_bind ?_
  split
  · exact respectsAt_pure
  · next continuation _ =>
    split
    · exact respectsAt_pure
    · split
      · exact respectsAt_pure
      · have hcheck : Respects (Fixes id) (cards.forM (checkIdentity continuationId
            expectedGeneration)) := Respects.forM (fun card => by
          unfold checkIdentity
          exact Respects.bind respects_liftM fun identity =>
            respects_ite (fun _ => respects_throw) (fun _ => respects_pure)) cards
        refine ((Respects.forM (fun card => respects_checkIdentity ..) _).at db).bind
          fun _ t ht => ?_
        obtain rfl : t = db := hcheck.ok _ _ _ ht
        dsimp only
        refine respectsAt_modifyGet_bind (writes_claimMembershipEpoch ..) ?_
        rw [claimMembershipEpoch_eq]
        dsimp only
        split
        · exact respectsAt_pure
        · next hcur =>
          have hcurrent := of_decide_eq_true (Bool.eq_true_of_not_eq_false hcur)
          refine (respectsAt_reserveCards hg host hb
            (membershipIsCurrent_claimed.mpr hcurrent)).bind fun _ _ _ => ?_
          exact respectsAt_modifyGet_bind (ApprovalContinuations.writes_activate ..)
            respectsAt_pure

end Approvals

end MindRoom
