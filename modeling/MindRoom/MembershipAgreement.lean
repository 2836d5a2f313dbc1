import MindRoom.StoreWrites

/-! # Two records of a tenure

The journal counts the tenures of a room in `room_membership`, the producer of the sync stream in
`matrix_ingestion_membership`. They are written by different functions and agree in every reachable state, so that the
journal never refuses a departure as one it has fenced already.
-/

namespace MindRoom

open Transaction

/-! ## Readings -/

/-- The tenure of a room in the journal: its epoch, and whether it was left. -/
def standing (db : DB) (p r : String) : Int × Bool := (currentMembershipEpoch db p r, departureFenced db p r)

/-- The same as the producer has it. -/
def produced (db : DB) (p r : String) : Int × Bool :=
  (db.matrixIngestionMembership.get? (p, r)).elim (0, false) fun row => (row.membershipEpoch, decide (row.membership ≠ .join))

def DB.InStep (db : DB) : Prop := ∀ p r, standing db p r = produced db p r

def KeepsStep (db db' : DB) : Prop := db.InStep → db'.InStep

instance : IsPreorder DB KeepsStep where
  refl _ h := h
  trans _ _ _ h h' hdb := h' (h hdb)

variable {b : Scope} {db db' : DB} {p r p' r' : String} {effect : MembershipEffect}

theorem departureFenced_setMembershipEpoch (epoch : Int) :
    departureFenced (setMembershipEpoch p r epoch db) p' r' = departureFenced db p' r' := by
  have hk : key (⟨p, r, epoch, false⟩ : RoomMembershipRow) = (p, r) := rfl
  unfold departureFenced membershipRow setMembershipEpoch
  simp only [Table.get?_upsert, hk]
  by_cases h : (p, r) = (p', r')
  · rw [if_pos h]
    cases db.roomMembership.get? (p', r') <;> rfl
  · rw [if_neg h]

theorem departureFenced_setDepartureFenced {fenced : Bool} (hrow : db.roomMembership.get? (p, r) ≠ none) :
    departureFenced (setDepartureFenced p r fenced db) p' r' =
      if (p, r) = (p', r') then fenced else departureFenced db p' r' := by
  unfold departureFenced membershipRow setDepartureFenced
  rw [Table.get?_update]
  cases hfound : db.roomMembership.get? (p', r') with
  | none =>
    have hne : (p, r) ≠ (p', r') := fun h => hrow (h ▸ hfound)
    rw [if_neg hne]
    rfl
  | some row =>
    have hkey : key row = (p', r') := (Table.get?_eq_some.mp hfound).2
    rw [Option.map_some, Option.getD_some, Option.getD_some, hkey]
    by_cases h : (p, r) = (p', r')
    · rw [if_pos h, if_pos h.symm]
    · rw [if_neg h, if_neg (Ne.symm h)]

theorem produced_setProducerPosition : produced (setProducerPosition p effect db) p' r' =
    if (p, effect.roomId) = (p', r') then (effect.membershipEpoch, decide (effect.membership ≠ .join))
      else produced db p' r' := by
  have hk : key (⟨p, effect.roomId, effect.membership.canonical, effect.membershipEpoch⟩ : IngestionMembershipRow) =
    (p, effect.roomId) := rfl
  have hjoin : effect.membership.canonical = .join ↔ effect.membership = .join := by
    unfold MatrixMembership.canonical
    by_cases h : effect.membership = .join <;> simp [h]
  unfold produced setProducerPosition
  simp only [Table.get?_upsert, hk]
  by_cases h : (p, effect.roomId) = (p', r')
  · rw [if_pos h, if_pos h]
    cases db.matrixIngestionMembership.get? (p', r') <;> simp [hjoin]
  · rw [if_neg h, if_neg h]

/-! ## Statements -/

theorem Statement.producer_eq (hf : ¬ b.fences) (h : Statement b db db') :
    db'.matrixIngestionMembership = db.matrixIngestionMembership := by
  cases h with
  | amend h => exact congrArg Core.producer h.core
  | outbox h => rw [h.eq]
  | claimed p r => exact (ProjectionFrame.claim p r db).matrixIngestionMembership
  | fold p event n epoch _ _ => exact (ProjectionFrame.fold p event n epoch db).matrixIngestionMembership
  | install p k revision row _ _ _ _ =>
    exact (ProjectionFrame.recordRefetchedRevision p k revision row db).matrixIngestionMembership
  | drop p k => exact (ProjectionFrame.dropRefetchedMessage p k db).matrixIngestionMembership
  | discard p e => exact (ProjectionFrame.discardDeliveryEvent p e db).matrixIngestionMembership
  | gap p r _ =>
    obtain ⟨rows, h⟩ := recordRoomHistoryRecoveryLocked_eq p r
      ⟨currentMembershipEpoch db p r, MindRoom.departureFenced db p r⟩ db
    rw [h]
  | settle p recovery exhausted rank _ _ =>
    obtain ⟨rows, h⟩ := settleRoomHistoryRecovery_eq p recovery exhausted rank db
    rw [h]
  | producer p effect h => exact absurd h hf
  | _ => rfl

/-- The scope of what happens beside the effects of a batch on memberships. -/
def Scope.steady : Scope := { Scope.any with ends := False, fences := False }

theorem Writes.readings (h : Writes .steady db db') :
    standing db' = standing db ∧ produced db' = produced db := by
  have hfix : Fixes (fun db => (MindRoom.tenures db, db.matrixIngestionMembership)) db db' :=
    statements_within (fun _ _ hs => Prod.ext (hs.tenures id id) (hs.producer_eq id))
      (h.statements (.of_all fun _ _ => trivial))
  have htenures : MindRoom.tenures db' = MindRoom.tenures db := congrArg Prod.fst hfix
  have hproducer : db'.matrixIngestionMembership = db.matrixIngestionMembership := congrArg Prod.snd hfix
  constructor
  · funext p r
    unfold standing
    rw [currentMembershipEpoch_of_tenures htenures, departureFenced_of_tenures htenures]
  · funext p r
    unfold produced
    rw [hproducer]

theorem Writes.keepsStep (h : Writes .steady db db') : KeepsStep db db' := by
  intro hdb p r
  rw [h.readings.1, h.readings.2]
  exact hdb p r

/-! ## One effect -/

theorem readings_advance {host : Host} {epoch : Int} (h : advanceMembershipEpoch host p r db = .ok (epoch, db')) :
    (∀ p' r', standing db' p' r' =
      if (p, r) = (p', r') then (currentMembershipEpoch db p r + 1, departureFenced db p r) else standing db p' r') ∧
    produced db' = produced db := by
  obtain ⟨t, hfirst, hrest⟩ := advance_cases (b := .steady) (fun _ _ => trivial) trivial h
  have hfirst := hfirst.readings
  have hrest := hrest.readings
  refine ⟨fun p' r' => ?_, hrest.2.trans hfirst.2⟩
  rw [hrest.1]
  show standing t p' r' = _
  rw [hfirst.1]
  show (currentMembershipEpoch (setMembershipEpoch p r _ db) p' r', departureFenced (setMembershipEpoch p r _ db) p' r') = _
  rw [currentMembershipEpoch_setMembershipEpoch, departureFenced_setMembershipEpoch]
  by_cases hk : (p, r) = (p', r')
  · cases hk
    rw [if_pos rfl, if_pos rfl]
  · rw [if_neg hk, if_neg hk]
    rfl

/-- The effect starts from the epoch the journal has, and a departure from a room that was not left. -/
theorem previous_of_checkProducer (hdb : db.InStep) (hcheck : checkProducer db p effect = .ok ()) :
    effect.previousMembershipEpoch = currentMembershipEpoch db p effect.roomId ∧
      (effect.Departs → departureFenced db p effect.roomId = false) := by
  have hstep := hdb p effect.roomId
  unfold standing produced at hstep
  unfold checkProducer ingestionMembershipPosition at hcheck
  cases hrow : db.matrixIngestionMembership.get? (p, effect.roomId) with
  | none =>
    rw [hrow] at hstep hcheck
    have hzero : effect.previousMembershipEpoch = 0 := by
      by_contra hne
      change (if effect.previousMembershipEpoch ≠ 0 then throw _ else pure ()) = _ at hcheck
      rw [if_pos hne] at hcheck
      cases hcheck
    exact ⟨hzero.trans (congrArg Prod.fst hstep).symm, fun _ => congrArg Prod.snd hstep⟩
  | some row =>
    rw [hrow] at hstep hcheck
    dsimp only at hcheck
    split at hcheck
    · cases hcheck
    · change (if effect.previousMembershipEpoch ≠ row.membershipEpoch then throw _ else
        if effect.previousMembership.map (·.canonical) ≠ some row.membership then throw _ else pure ()) = _ at hcheck
      split at hcheck
      · cases hcheck
      · next hepoch =>
        split at hcheck
        · cases hcheck
        · next hmembership =>
          rw [not_not] at hepoch hmembership
          refine ⟨hepoch.trans (congrArg Prod.fst hstep).symm, fun hdeparts => ?_⟩
          rw [hdeparts.1] at hmembership
          have hjoin : row.membership = .join := (Option.some.inj hmembership).symm
          rw [show departureFenced db p effect.roomId = decide (row.membership ≠ .join) from congrArg Prod.snd hstep, hjoin]
          rfl

/-- The journal has taken up the effect, and the producer's position is written behind it. -/
theorem inStep_of_taken {taken : DB} (hrow : taken.roomMembership.get? (p, effect.roomId) ≠ none)
    (hepoch : currentMembershipEpoch taken p effect.roomId = effect.membershipEpoch)
    (hother : ∀ p' r', (p, effect.roomId) ≠ (p', r') → standing taken p' r' = produced taken p' r') :
    (setProducerPosition p effect
      (setDepartureFenced p effect.roomId (effect.membership ≠ .join) taken)).InStep := by
  intro p' r'
  rw [produced_setProducerPosition]
  show (currentMembershipEpoch (setDepartureFenced p effect.roomId _ taken) p' r',
    departureFenced (setDepartureFenced p effect.roomId _ taken) p' r') = _
  rw [currentMembershipEpoch_setDepartureFenced, departureFenced_setDepartureFenced hrow]
  by_cases h : (p, effect.roomId) = (p', r')
  · cases h
    rw [if_pos rfl, if_pos rfl, hepoch]
  · rw [if_neg h, if_neg h]
    exact hother p' r' h

theorem respects_applyMembershipEffect_keepsStep {host : Host} (hvalid : effect.Valid) :
    Respects KeepsStep (applyMembershipEffect host p effect) := by
  refine ⟨fun s u s' h hs => ?_⟩
  unfold applyMembershipEffect at h
  obtain ⟨_, t, ht, h⟩ := bind_eq_ok.mp h
  obtain ⟨rfl, rfl⟩ := get_eq_ok.mp ht
  obtain ⟨_, t, ht, h⟩ := bind_eq_ok.mp h
  obtain ⟨hcheck, rfl⟩ := liftM_eq_ok.mp ht
  obtain ⟨state, t, ht, h⟩ := bind_eq_ok.mp h
  obtain ⟨rfl, rfl, hnonneg⟩ := claimMembershipState_eq_ok ht
  obtain ⟨hprevious, hopen⟩ := previous_of_checkProducer hs hcheck
  have hclaimed : KeepsStep s (claimed p effect.roomId s) := (writes_claimed p effect.roomId).keepsStep
  have hset : ∀ {taken : DB} {x : Unit × DB}, (do
      modify (setDepartureFenced p effect.roomId (effect.membership ≠ .join))
      modify (setProducerPosition p effect) : Tx Unit) taken = .ok x → x.2 = setProducerPosition p effect
        (setDepartureFenced p effect.roomId (effect.membership ≠ .join) taken) := by
    rintro taken _ ⟨⟩
    rfl
  rcases hvalid with ⟨-, -, hvalid⟩
  dsimp only at h
  split at h
  · next hdeparts =>
    rw [hopen hdeparts] at h
    obtain ⟨epoch, taken, hadvance, h⟩ := bind_eq_ok.mp h
    rw [show s' = _ from hset h]
    obtain ⟨hstanding, hproduced⟩ := readings_advance hadvance
    have hepoch : currentMembershipEpoch taken p effect.roomId = currentMembershipEpoch s p effect.roomId + 1 := by
      have hroom := congrArg Prod.fst (hstanding p effect.roomId)
      rw [if_pos rfl, currentMembershipEpoch_claimed] at hroom
      exact hroom
    refine inStep_of_taken (fun hnone => ?_) ?_ fun p' r' hne => ?_
    · have hzero : currentMembershipEpoch taken p effect.roomId = 0 := by
        unfold currentMembershipEpoch membershipRow
        rw [hnone]
        rfl
      omega
    · rw [hdeparts.1] at hvalid
      rw [hepoch, hvalid.2, if_pos hdeparts, hprevious]
    · rw [hstanding, if_neg hne, hproduced]
      exact hclaimed hs p' r'
  · next hstays =>
    rw [show s' = _ from hset h]
    refine inStep_of_taken (tenanted_claim p effect.roomId s) ?_ fun p' r' _ => hclaimed hs p' r'
    rw [currentMembershipEpoch_claimed, ← hprevious]
    cases hbefore : effect.previousMembership with
    | none =>
      rw [hbefore] at hvalid
      exact hvalid.2.1.trans hvalid.2.2.symm
    | some previous =>
      rw [hbefore] at hvalid
      rw [hvalid.2, if_neg hstays, Int.add_zero]

/-! ## Runs -/

theorem validateIngestionRecord_effect {record : IngestionRecordAdmission} (h : validateIngestionRecord record = .ok ())
    (heffect : record.membershipEffect = some effect) : effect.Valid := by
  unfold validateIngestionRecord at h
  rcases except_bind_eq_ok.mp h with ⟨_, hcheck, -⟩
  unfold validateMembershipEffect at hcheck
  rw [heffect] at hcheck
  cases hmembership : record.membership with
  | none =>
    unfold IngestionRecordAdmission.membershipEffect at heffect
    rw [hmembership] at heffect
    rcases Option.bind_eq_some_iff.mp heffect with ⟨_, -, heffect⟩
    rcases Option.bind_eq_some_iff.mp heffect with ⟨_, -, heffect⟩
    cases heffect
  | some membership =>
    rw [hmembership] at hcheck
    by_contra hno
    dsimp only at hcheck
    rw [if_neg hno] at hcheck
    cases hcheck

theorem respects_admitBatch_keepsStep (host : Host) (p : String) (admission : IngestionBatchAdmission) :
    Respects KeepsStep (admitBatch host p admission) := by
  have hcarried : ∀ record : IngestionRecordAdmission, record.Carried .steady := fun _ _ _ => trivial
  unfold admitBatch admitIngestionBatch
  refine Respects.of_at fun db => respectsAt_liftM_bind fun _ hvalid => ?_
  have hvalid := validated_records hvalid
  refine respectsAt_get_bind ?_
  split
  · exact respects_liftM.at db
  · refine respectsAt_modify_bind (fun hdb => hdb) ?_
    refine ((Respects.mapM_mem fun record hrecord => ?_).bind fun _ => respects_pure).at _
    have heffect : Respects KeepsStep (applyRecordEffect host p record) := by
      unfold applyRecordEffect
      split
      · next heffect =>
        exact respects_applyMembershipEffect_keepsStep (validateIngestionRecord_effect (hvalid record hrecord) heffect)
      · exact respects_pure
    have hdisposition : Respects KeepsStep (applyDisposition p record) :=
      (respects_applyDisposition p (hvalid record hrecord) (hcarried record)).mono fun _ _ hw => hw.keepsStep
    have hsnapshot : ∀ event, Respects KeepsStep (snapshotInteractiveSource host p event) :=
      fun event => (respects_snapshotInteractiveSource host p event).mono fun _ _ hw => Writes.keepsStep hw
    unfold applyRecord
    refine (heffect.bind fun _ => hdisposition).bind fun semanticNew => ?_
    dsimp only
    split
    · exact respects_ite (fun _ => (hsnapshot _).bind fun _ => respects_pure) (fun _ => respects_pure)
    · exact Respects.bind respects_pure fun _ => respects_pure

theorem step_keepsStep (host : Host) (p : String) (op : Op) (db : DB) : KeepsStep db (step host p op db) := by
  refine step_of_respectsAt ?_
  by_cases hf : op.Fences
  · cases op with
    | admitIngestionBatch admission =>
      exact ((respects_admitBatch_keepsStep host p admission).bind fun _ => respects_pure).at db
    | _ => exact hf.elim
  · have hbears : Scope.steady.Bears op :=
      ⟨fun _ _ => trivial, fun h => absurd h hf, fun _ => trivial, fun _ _ _ => trivial, fun _ => trivial, fun _ => trivial,
        fun _ => trivial, fun _ => trivial⟩
    have hadmissible : op.Admissible .steady p db := by
      have hany := op.admissible_any p db
      cases op <;> exact hany
    exact fun u s' h => (Op.respectsAt_beside host p op hf hbears hadmissible u s' h).keepsStep

/-- In every reachable state the journal and the producer have the same epoch of every room and agree on whether it was
left; a room the producer has not seen is in its first tenure. So no departure finds its room fenced. -/
theorem membership_in_step {host : Host} {db : DB} (h : Reachable host .any db) :
    (∀ p r, (currentMembershipEpoch db p r, departureFenced db p r) = produced db p r) ∧
      ∀ p effect, checkProducer db p effect = .ok () → effect.Departs → departureFenced db p effect.roomId = false := by
  have hstep : db.InStep := by
    rcases h with ⟨clock, hrun⟩
    induction hrun with
    | refl => exact fun _ _ => rfl
    | tail _ hs ih =>
      cases hs with
      | op p op => exact step_keepsStep host p op _ ih
  exact ⟨hstep, fun p effect hcheck => (previous_of_checkProducer hstep hcheck).2⟩

/-! ## One departure -/

namespace OneDeparture

def host : Host := ⟨id, id, fun _ => "", fun _ => ""⟩

def report (previous : Option MatrixMembership) (membership : MatrixMembership) (epoch : Int) : IngestionRecordAdmission :=
  ⟨.roomLifecycle, some .reported, some "!r", previous, some membership, some 0, some epoch, none, none⟩

def bound : DB := step host "p" (.bindIngestionStream "g" "s")
  (step host "p" (.loadOrCreateIngestionConsumer "g") (DB.init fun _ => 0))

def joinAndLeave : IngestionBatchAdmission := ⟨"s", 1, [report none .join 0, report (some .join) .leave 1]⟩

def departed : DB := step host "p" (.admitIngestionBatch joinAndLeave) bound

theorem departed_in_step : (currentMembershipEpoch departed "p" "!r", departureFenced departed "p" "!r") = (1, true) := by
  have hreached : Reachable host .any departed :=
    ⟨fun _ => 0, ((Relation.ReflTransGen.single (.op "p" (.loadOrCreateIngestionConsumer "g") (Op.admissible_any ..))).tail
      (.op "p" (.bindIngestionStream "g" "s") (Op.admissible_any ..))).tail
      (.op "p" (.admitIngestionBatch joinAndLeave) (Op.admissible_any ..))⟩
  rw [(membership_in_step hreached).1]
  decide +kernel

end OneDeparture

end MindRoom
