import Mathlib
import MindRoom.StoreWrites

/-! # History recovery

An obligation names the walk a room still owes by its revision, and a fence restarts the
revisions. What never goes back is the room's place: its tenure first, then the revision of its
obligation, then how far that obligation got. A worker that captured an obligation with its
tenure holds one place, so once the room has moved past it every write of that worker is
refused.
-/

namespace MindRoom

open Transaction

/-! ## The place of a room -/

/-- How far the obligation of one revision has got. -/
def RecoveryRowState.stage : RecoveryRowState → ℕ
  | .repairable => 0
  | .truncated => 1
  | .repaired => 2

/-- The revision of the room's obligation, below every revision while it has none. -/
def recoveryRevision (db : DB) (p r : String) : WithBot ℕ :=
  match db.roomHistoryRecovery.get? (p, r) with
  | none => ⊥
  | some row => WithBot.some row.revision

/-- The stage of the room's obligation, and the widest policy spent on it. -/
def recoveryStage (db : DB) (p r : String) : ℕ ×ₗ Int :=
  match db.roomHistoryRecovery.get? (p, r) with
  | none => toLex (0, 0)
  | some row => toLex (row.state.stage, row.attemptedPolicyRank)

/-- The tenure of a room, then the revision of its obligation. -/
def recoveryTally (db : DB) (p r : String) : Int ×ₗ WithBot ℕ :=
  toLex (currentMembershipEpoch db p r, recoveryRevision db p r)

/-- The place of a room: tenure, revision, stage. -/
def recoveryPlace (db : DB) (p r : String) : (Int ×ₗ WithBot ℕ) ×ₗ ℕ ×ₗ Int :=
  toLex (recoveryTally db p r, recoveryStage db p r)

section

variable {db db' : DB} {p r : String}

theorem recoveryPlace_congr (hm : currentMembershipEpoch db' p r = currentMembershipEpoch db p r)
    (hr : db'.roomHistoryRecovery.get? (p, r) = db.roomHistoryRecovery.get? (p, r)) :
    recoveryPlace db' p r = recoveryPlace db p r := by
  unfold recoveryPlace recoveryTally recoveryRevision recoveryStage
  rw [hm, hr]

theorem recoveryPlace_lt_of_tally (h : recoveryTally db p r < recoveryTally db' p r) :
    recoveryPlace db p r < recoveryPlace db' p r :=
  Prod.Lex.toLex_lt_toLex.mpr (.inl h)

theorem recoveryTally_le_of_place (h : recoveryPlace db p r ≤ recoveryPlace db' p r) :
    recoveryTally db p r ≤ recoveryTally db' p r := by
  rcases Prod.Lex.toLex_le_toLex.mp h with hlt | ⟨heq, _⟩
  · exact le_of_lt hlt
  · exact le_of_eq heq

theorem recoveryTally_lt_of_epoch
    (h : currentMembershipEpoch db p r < currentMembershipEpoch db' p r) :
    recoveryTally db p r < recoveryTally db' p r :=
  Prod.Lex.toLex_lt_toLex.mpr (.inl h)

theorem recoveryTally_lt_of_revision
    (hm : currentMembershipEpoch db' p r = currentMembershipEpoch db p r)
    (h : recoveryRevision db p r < recoveryRevision db' p r) : recoveryTally db p r < recoveryTally db' p r :=
  Prod.Lex.toLex_lt_toLex.mpr (.inr ⟨hm.symm, h⟩)

/-- Within a tenure the tally is the revision. -/
theorem recoveryRevision_lt_of_tally
    (hm : currentMembershipEpoch db' p r = currentMembershipEpoch db p r)
    (h : recoveryTally db p r < recoveryTally db' p r) : recoveryRevision db p r < recoveryRevision db' p r := by
  rcases Prod.Lex.toLex_lt_toLex.mp h with hlt | ⟨_, hlt⟩
  · exact absurd hm (ne_of_gt hlt)
  · exact hlt

end

/-! ## Obligations -/

variable {recovery : RoomHistoryRecovery}

/-- An obligation determines the revision and the stage of its row. -/
theorem recoveryOfRow_eq_some {row : HistoryRecoveryRow} (h : recoveryOfRow row = some recovery) :
    row.revision = recovery.revision ∧ row.attemptedPolicyRank = recovery.attemptedPolicyRank ∧
      (recovery.state = .repairable ∧ row.state = .repairable ∨
        recovery.state = .truncated ∧ row.state = .truncated) := by
  unfold recoveryOfRow at h
  cases hs : row.state with
  | repairable =>
    rw [hs] at h
    cases h
    exact ⟨rfl, rfl, .inl ⟨rfl, rfl⟩⟩
  | truncated =>
    rw [hs] at h
    cases h
    exact ⟨rfl, rfl, .inr ⟨rfl, rfl⟩⟩
  | repaired =>
    rw [hs] at h
    cases h

theorem roomHistoryRecovery_eq_some {db : DB} {p r : String} (h : roomHistoryRecovery db p r = some recovery) :
    ∃ row, db.roomHistoryRecovery.get? (p, r) = some row ∧ recoveryOfRow row = some recovery :=
  Option.bind_eq_some_iff.mp h

/-- Two states that show one obligation in one tenure have the room at one place. -/
theorem recoveryPlace_of_obligation {db db' : DB} {p r : String}
    (hm : currentMembershipEpoch db' p r = currentMembershipEpoch db p r)
    (h : roomHistoryRecovery db p r = some recovery) (h' : roomHistoryRecovery db' p r = some recovery) :
    recoveryPlace db' p r = recoveryPlace db p r := by
  obtain ⟨row, hrow, hof⟩ := roomHistoryRecovery_eq_some h
  obtain ⟨row', hrow', hof'⟩ := roomHistoryRecovery_eq_some h'
  obtain ⟨hrev, hrank, hstate⟩ := recoveryOfRow_eq_some hof
  obtain ⟨hrev', hrank', hstate'⟩ := recoveryOfRow_eq_some hof'
  have hst : row'.state = row.state := by
    rcases hstate with ⟨hs, hs₁⟩ | ⟨hs, hs₁⟩ <;> rcases hstate' with ⟨hs', hs₂⟩ | ⟨hs', hs₂⟩
    · rw [hs₁, hs₂]
    · rw [hs] at hs'
      cases hs'
    · rw [hs] at hs'
      cases hs'
    · rw [hs₁, hs₂]
  have hrevision : row'.revision = row.revision := hrev'.trans hrev.symm
  have hwidest : row'.attemptedPolicyRank = row.attemptedPolicyRank := hrank'.trans hrank.symm
  unfold recoveryPlace recoveryTally recoveryRevision recoveryStage
  rw [hm, hrow, hrow']
  dsimp only
  rw [hst, hrevision, hwidest]

/-- A place that was left is not claimed again: either the tenure or the obligation differs. -/
theorem superseded_of_lt {db db' : DB} {p : String} (h : roomHistoryRecovery db p recovery.roomId = some recovery)
    (hlt : recoveryPlace db p recovery.roomId < recoveryPlace db' p recovery.roomId) :
    ¬ (MembershipIsCurrent db' p recovery.roomId (currentMembershipEpoch db p recovery.roomId) ∧
      ClaimsRoomHistoryRecovery db' p recovery) := by
  rintro ⟨hcur, hclaims⟩
  have hplace := recoveryPlace_of_obligation hcur.1 h hclaims
  exact absurd hplace (ne_of_gt hlt)

/-! ## Steps -/

/-- A bounded settlement of an obligation that was truncated before spent a wider policy on it: the
hydrator walks a truncated room only while `attempted_policy_rank < policy`. -/
def Widens (recovery : RoomHistoryRecovery) (exhaustedServer : Bool) (attemptedPolicyRank : Int) :
    Prop :=
  exhaustedServer = false → recovery.state = .truncated →
    recovery.attemptedPolicyRank < attemptedPolicyRank

/-- The rows of the other rooms stand through a gap, and an unfenced room gets a higher revision. -/
theorem recoveryRevision_gap (p r : String) {state : MembershipState} {db : DB} (h : state.departureFenced = false) :
    recoveryRevision db p r <
      recoveryRevision (recordRoomHistoryRecoveryLocked p r state db).2 p r := by
  have hk : key (⟨p, r, .repairable, 0, 0⟩ : HistoryRecoveryRow) = (p, r) := rfl
  unfold recordRoomHistoryRecoveryLocked recoveryRevision
  rw [if_neg (by rw [h]; exact Bool.false_ne_true)]
  dsimp only
  rw [Table.get?_upsert, if_pos hk]
  cases db.roomHistoryRecovery.get? (p, r) with
  | none => exact WithBot.bot_lt_coe _
  | some row => exact WithBot.coe_lt_coe.mpr (Nat.lt_succ_self _)

theorem get?_gap {p r : String} (state : MembershipState) (db : DB) {p' r' : String} (h : (p, r) ≠ (p', r')) :
    (recordRoomHistoryRecoveryLocked p r state db).2.roomHistoryRecovery.get? (p', r') =
      db.roomHistoryRecovery.get? (p', r') := by
  have hk : ¬ key (⟨p, r, .repairable, 0, 0⟩ : HistoryRecoveryRow) = (p', r') := h
  unfold recordRoomHistoryRecoveryLocked
  split
  · rfl
  · dsimp only
    rw [Table.get?_upsert, if_neg hk]

theorem currentMembershipEpoch_gap (p r : String) (state : MembershipState) (db : DB) (p' r' : String) :
    currentMembershipEpoch (recordRoomHistoryRecoveryLocked p r state db).2 p' r' =
      currentMembershipEpoch db p' r' := by
  obtain ⟨rows, h⟩ := recordRoomHistoryRecoveryLocked_eq p r state db
  rw [h]
  rfl

theorem recoveryTally_gap (p r : String) {state : MembershipState} {db : DB} (h : state.departureFenced = false) :
    recoveryTally db p r < recoveryTally (recordRoomHistoryRecoveryLocked p r state db).2 p r :=
  recoveryTally_lt_of_revision (currentMembershipEpoch_gap p r state db p r)
    (recoveryRevision_gap p r h)

theorem currentMembershipEpoch_settled (p : String) (recovery : RoomHistoryRecovery)
    (exhausted : Bool) (rank : Int) (db : DB) (p' r' : String) :
    currentMembershipEpoch (settleRoomHistoryRecovery p recovery exhausted rank db).2 p' r' =
      currentMembershipEpoch db p' r' := by
  obtain ⟨rows, h⟩ := settleRoomHistoryRecovery_eq p recovery exhausted rank db
  rw [h]
  rfl

theorem get?_settled {p : String} (recovery : RoomHistoryRecovery) (exhausted : Bool) (rank : Int)
    (db : DB) {p' r' : String} (h : (p, recovery.roomId) ≠ (p', r')) :
    (settleRoomHistoryRecovery p recovery exhausted rank db).2.roomHistoryRecovery.get? (p', r') =
      db.roomHistoryRecovery.get? (p', r') := by
  have hkeep : ∀ row ∈ db.roomHistoryRecovery.get? (p', r'), ¬ key row = (p, recovery.roomId) := by
    intro row hrow hk
    exact h (hk.symm.trans (Table.get?_eq_some.mp hrow).2)
  unfold settleRoomHistoryRecovery
  dsimp only
  split <;> dsimp only <;> rw [Table.get?_update] <;>
    cases hg : db.roomHistoryRecovery.get? (p', r') with
    | none => rfl
    | some row => rw [Option.map_some, if_neg (hkeep row hg)]

/-- The exact obligation that is settled moves on. -/
theorem recoveryPlace_settled {p : String} {exhausted : Bool}
    {rank : Int} {db : DB} (hw : Widens recovery exhausted rank) (h : ClaimsRoomHistoryRecovery db p recovery) :
    recoveryPlace db p recovery.roomId <
      recoveryPlace (settleRoomHistoryRecovery p recovery exhausted rank db).2 p recovery.roomId := by
  obtain ⟨row, hrow, hof⟩ := roomHistoryRecovery_eq_some h
  obtain ⟨_, hrank, hstate⟩ := recoveryOfRow_eq_some hof
  have hk : key row = (p, recovery.roomId) := (Table.get?_eq_some.mp hrow).2
  have hm := currentMembershipEpoch_settled p recovery exhausted rank db p recovery.roomId
  unfold recoveryPlace recoveryTally recoveryRevision recoveryStage
  rw [hm]
  unfold settleRoomHistoryRecovery
  cases exhausted with
  | true =>
    simp only [if_true, Table.get?_update, hrow, Option.map_some, if_pos hk]
    refine Prod.Lex.toLex_lt_toLex.mpr (.inr ⟨rfl, Prod.Lex.toLex_lt_toLex.mpr (.inl ?_)⟩)
    have hstage : row.state.stage < RecoveryRowState.repaired.stage := by
      rcases hstate with ⟨_, hs⟩ | ⟨_, hs⟩ <;> rw [hs] <;> decide
    exact hstage
  | false =>
    simp only [Bool.false_eq_true, if_false, Table.get?_update, hrow, Option.map_some, if_pos hk]
    refine Prod.Lex.toLex_lt_toLex.mpr (.inr ⟨rfl, Prod.Lex.toLex_lt_toLex.mpr ?_⟩)
    rcases hstate with ⟨_, hs⟩ | ⟨hs', hs⟩
    · have hstage : row.state.stage < RecoveryRowState.truncated.stage := by
        rw [hs]
        decide
      exact .inl hstage
    · right
      have hwider : row.attemptedPolicyRank < rank := hrank ▸ hw rfl hs'
      exact ⟨by rw [hs], hwider⟩

/-- A fence moves the room to its next tenure. -/
theorem currentMembershipEpoch_fence (p r : String) (db : DB) (p' r' : String) : currentMembershipEpoch
        (dropProjection p r (setMembershipEpoch p r (currentMembershipEpoch db p r + 1) db)) p' r' =
      if (p, r) = (p', r') then currentMembershipEpoch db p r + 1
      else currentMembershipEpoch db p' r' :=
  currentMembershipEpoch_setMembershipEpoch p r _ db p' r'

theorem get?_fence {p r : String} (db : DB) {p' r' : String} (h : (p, r) ≠ (p', r')) :
    (dropProjection p r (setMembershipEpoch p r (currentMembershipEpoch db p r + 1)
        db)).roomHistoryRecovery.get? (p', r') = db.roomHistoryRecovery.get? (p', r') := by
  change (db.roomHistoryRecovery.delete fun row => row.principalId = p ∧ row.roomId = r).get?
    (p', r') = _
  rw [Table.get?_delete]
  cases hg : db.roomHistoryRecovery.get? (p', r') with
  | none => rfl
  | some row =>
    have hk : key row = (p', r') := (Table.get?_eq_some.mp hg).2
    have hother : ¬ (row.principalId = p ∧ row.roomId = r) := by
      rintro ⟨rfl, rfl⟩
      exact h hk
    rw [Option.filter_some, if_pos (decide_eq_true hother)]

section

variable {b : Scope} {db db' : DB}

/-- No statement moves a room back. -/
theorem Statement.recoveryPlace_le (hb : ∀ recovery exhausted rank, b.settles recovery exhausted rank →
    Widens recovery exhausted rank) (hs : Statement b db db') (p r : String) :
    recoveryPlace db p r ≤ recoveryPlace db' p r := by
  have hframe : ProjectionFrame db db' → recoveryPlace db p r ≤ recoveryPlace db' p r := by
    intro hf
    have hrow : currentMembershipEpoch db' p r = currentMembershipEpoch db p r :=
      currentMembershipEpoch_of_tenures hf.tenures p r
    exact le_of_eq (recoveryPlace_congr hrow (by rw [hf.roomHistoryRecovery])).symm
  have hbeside : db'.core.membership = db.core.membership → db'.core.recovery = db.core.recovery →
      recoveryPlace db p r ≤ recoveryPlace db' p r := by
    intro hm hr
    have hten : currentMembershipEpoch db' p r = currentMembershipEpoch db p r :=
      currentMembershipEpoch_of_tenures (tenures_of_core hm) p r
    exact le_of_eq (recoveryPlace_congr hten (congrArg (fun t => t.get? (p, r)) hr)).symm
  cases hs with
  | amend h => exact hbeside (congrArg Core.membership h.core) (congrArg Core.recovery h.core)
  | outbox h =>
    rw [h.eq]
    exact le_of_eq (recoveryPlace_congr rfl rfl).symm
  | claimed p' r' =>
    exact le_of_eq (recoveryPlace_congr (currentMembershipEpoch_claimed p' r' p r db) rfl).symm
  | fold p' event n epoch _ _ => exact hframe (ProjectionFrame.fold p' event n epoch db)
  | install p' k revision row _ _ _ _ =>
    exact hframe (ProjectionFrame.recordRefetchedRevision p' k revision row db)
  | drop p' k => exact hframe (ProjectionFrame.dropRefetchedMessage p' k db)
  | discard p' e => exact hframe (ProjectionFrame.discardDeliveryEvent p' e db)
  | gap p' r' _ =>
    by_cases hroom : (p', r') = (p, r)
    · cases hroom
      cases hf : MindRoom.departureFenced db p r with
      | false => exact le_of_lt (recoveryPlace_lt_of_tally (recoveryTally_gap p r rfl))
      | true => exact le_of_eq rfl
    · exact le_of_eq (recoveryPlace_congr (currentMembershipEpoch_gap ..) (get?_gap _ db hroom)).symm
  | settle p' recovery exhausted rank hset hclaims =>
    by_cases hroom : (p', recovery.roomId) = (p, r)
    · cases hroom
      exact le_of_lt (recoveryPlace_settled (hb _ _ _ hset) hclaims)
    · exact le_of_eq (recoveryPlace_congr (currentMembershipEpoch_settled ..)
        (get?_settled recovery exhausted rank db hroom)).symm
  | fence p' r' _ =>
    have he := currentMembershipEpoch_fence p' r' db p r
    by_cases hroom : (p', r') = (p, r)
    · cases hroom
      rw [if_pos rfl] at he
      have hlt : currentMembershipEpoch db p r < currentMembershipEpoch (dropProjection p r
          (setMembershipEpoch p r (currentMembershipEpoch db p r + 1) db)) p r := by omega
      exact le_of_lt (recoveryPlace_lt_of_tally (recoveryTally_lt_of_epoch hlt))
    · rw [if_neg hroom] at he
      exact le_of_eq (recoveryPlace_congr he (get?_fence db hroom)).symm
  | departureFenced p' r' fenced _ =>
    have he := currentMembershipEpoch_setDepartureFenced p' r' fenced db p r
    exact le_of_eq (recoveryPlace_congr he rfl).symm
  | deleteOutbox | journal | snapshot | unselect | consume | hydrate | producer | consumers =>
    exact hbeside rfl rfl

/-! ## Rooms with a row -/

/-- A membership row is never lost. -/
theorem Statement.tenanted (hs : Statement b db db') (k : String × String)
    (h : db.roomMembership.get? k ≠ none) : db'.roomMembership.get? k ≠ none := by
  have hbeside : db'.core.membership = db.core.membership → db'.roomMembership.get? k ≠ none := by
    intro hm
    have hsame : db'.roomMembership = db.roomMembership := hm
    rw [hsame]
    exact h
  cases hs with
  | amend h => exact hbeside (congrArg Core.membership h.core)
  | outbox h =>
    rw [h.eq]
    assumption
  | claimed p' r' => exact tenanted_claimed p' r' k h
  | fold p' event n epoch _ _ => exact (ProjectionFrame.fold p' event n epoch db).tenanted k h
  | install p' key revision row _ _ _ _ =>
    exact (ProjectionFrame.recordRefetchedRevision p' key revision row db).tenanted k h
  | drop p' key => exact (ProjectionFrame.dropRefetchedMessage p' key db).tenanted k h
  | discard p' e => exact (ProjectionFrame.discardDeliveryEvent p' e db).tenanted k h
  | gap p' r' _ =>
    obtain ⟨rows, heq⟩ := recordRoomHistoryRecoveryLocked_eq p' r'
      ⟨currentMembershipEpoch db p' r', MindRoom.departureFenced db p' r'⟩ db
    rw [heq]
    exact h
  | settle p' recovery exhausted rank _ _ =>
    obtain ⟨rows, heq⟩ := settleRoomHistoryRecovery_eq p' recovery exhausted rank db
    rw [heq]
    exact h
  | fence p' r' _ =>
    change (setMembershipEpoch p' r' _ db).roomMembership.get? k ≠ none
    unfold setMembershipEpoch
    rw [Table.get?_upsert]
    split
    · exact Option.some_ne_none _
    · exact h
  | departureFenced p' r' fenced _ =>
    change (setDepartureFenced p' r' fenced db).roomMembership.get? k ≠ none
    unfold setDepartureFenced
    rw [Table.get?_update]
    exact fun hnone => h (Option.map_eq_none_iff.mp hnone)
  | deleteOutbox | journal | snapshot | unselect | consume | hydrate | producer | consumers =>
    exact hbeside rfl

/-- A room that owes a walk has its membership row. -/
def RecoveryTenanted (db : DB) : Prop :=
  ∀ k, db.roomHistoryRecovery.get? k ≠ none → db.roomMembership.get? k ≠ none

theorem Statement.recoveryTenanted (hs : Statement b db db') (h : RecoveryTenanted db) :
    RecoveryTenanted db' := by
  intro k hk
  have hrows := hs.tenanted
  have hold : db.roomHistoryRecovery.get? k ≠ none → db'.roomMembership.get? k ≠ none :=
    fun hold => hrows k (h k hold)
  have hsame : db'.roomHistoryRecovery = db.roomHistoryRecovery →
      db'.roomMembership.get? k ≠ none := by
    intro heq
    rw [heq] at hk
    exact hold hk
  cases hs with
  | gap p r hrow =>
    -- the room was claimed before its gap was recorded
    by_cases hroom : (p, r) = k
    · exact hrows k (hroom ▸ hrow)
    · rw [get?_gap _ db hroom] at hk
      exact hold hk
  | settle p recovery exhausted rank _ hclaims =>
    by_cases hroom : (p, recovery.roomId) = k
    · obtain ⟨row, hrow, _⟩ := roomHistoryRecovery_eq_some hclaims
      apply hold
      rw [← hroom, hrow]
      exact Option.some_ne_none row
    · rw [get?_settled recovery exhausted rank db hroom] at hk
      exact hold hk
  | fence p r _ =>
    apply hold
    intro hnone
    apply hk
    change (db.roomHistoryRecovery.delete fun row => row.principalId = p ∧ row.roomId = r).get? k =
      none
    rw [Table.get?_delete, hnone]
    rfl
  | amend h => exact hsame (congrArg Core.recovery h.core)
  | outbox h =>
    rw [h.eq] at hk hrows hold ⊢
    exact hold hk
  | fold p event n epoch _ _ => exact hsame (ProjectionFrame.fold p event n epoch db).roomHistoryRecovery
  | install p key revision row _ _ _ _ =>
    exact hsame (ProjectionFrame.recordRefetchedRevision p key revision row db).roomHistoryRecovery
  | drop p key => exact hsame (ProjectionFrame.dropRefetchedMessage p key db).roomHistoryRecovery
  | discard p e => exact hsame (ProjectionFrame.discardDeliveryEvent p e db).roomHistoryRecovery
  | claimed | deleteOutbox | journal | snapshot | unselect | consume | hydrate | departureFenced
  | producer | consumers => exact hsame rfl

end

/-! ## Operations -/

/-- The scope of a run whose bounded walks widen. -/
def Scope.widening : Scope := { Scope.any with settles := Widens }

theorem Scope.widening_covers (op : Op) : Scope.widening.Covers op :=
  Scope.Whole.covers ⟨fun _ => trivial, trivial, trivial, trivial, fun _ _ => trivial, trivial,
    trivial, trivial, trivial⟩ op

theorem Scope.widening_ends : Scope.widening.Ends := ⟨fun _ _ => trivial, trivial, trivial⟩

theorem Scope.widening_bounds (host : Host) (p : String) : Scope.widening.Bounds host p (Writes .widening) :=
  Scope.widening_ends.bounds trivial trivial host p

theorem Writes.recoveryPlace_le {db db' : DB} (h : Writes .widening db db') (p r : String) :
    recoveryPlace db p r ≤ recoveryPlace db' p r := by
  have hstep : ∀ t t', Statement .widening t t' → recoveryPlace db p r ≤ recoveryPlace t p r →
      recoveryPlace db p r ≤ recoveryPlace t' p r :=
    fun t t' hs hle => hle.trans (hs.recoveryPlace_le (fun _ _ _ hset => hset) p r)
  exact @statements_preserve _ _ _ (fun t => recoveryPlace db p r ≤ recoveryPlace t p r) hstep
    (h.statements (.of_all fun _ _ => trivial)) le_rfl

theorem Writes.recoveryTally_le {db db' : DB} (h : Writes .widening db db') (p r : String) :
    recoveryTally db p r ≤ recoveryTally db' p r :=
  recoveryTally_le_of_place (h.recoveryPlace_le p r)

def IngestionRecordAdmission.Ends (record : IngestionRecordAdmission) (r : String) : Prop :=
  ∃ effect, record.membershipEffect = some effect ∧ effect.roomId = r ∧ effect.Departs

/-- The record reports a gap of the room, which is not left when its effect has been applied. -/
def IngestionRecordAdmission.Gaps (host : Host) (p r : String) (db : DB)
    (record : IngestionRecordAdmission) : Prop :=
  record.disposition = .historyLoss ∧ record.roomId = some r ∧
    ∃ t, applyRecordEffect host p record db = .ok ((), t) ∧ departureFenced t p r = false

def Op.Commits (host : Host) (p : String) (db : DB) (op : Op) : Prop :=
  ∃ s', op.run host p db = .ok ((), s')

def Op.Gaps (host : Host) (p r : String) (db : DB) (op : Op) : Prop :=
  op.Commits host p db ∧
    match op with
    | .recordRoomHistoryRecovery roomId => roomId = r ∧ departureFenced db p r = false
    | .admitIngestionBatch admission =>
      ∃ record t, Reaches host p admission db record t ∧ record.Gaps host p r t
    | _ => False

/-- The operation commits the end of the room's tenure. -/
def Op.EndsTenure (host : Host) (p r : String) (db : DB) (op : Op) : Prop :=
  op.Commits host p db ∧
    match op with
    | .admitIngestionBatch admission =>
      ∃ record t, Reaches host p admission db record t ∧ record.Ends r
    | _ => False

/-- The operation settles the room's obligation. -/
def Op.SettlesRecovery (p r : String) (db : DB) (op : Op) : Prop :=
  match op with
  | .settleRoomHistoryRecovery recovery exhausted rank epoch =>
    recovery.roomId = r ∧
      (settleHistoryRecovery p recovery exhausted rank epoch db).1 ≠ .superseded
  | _ => False

variable {p r : String} {record : IngestionRecordAdmission} {db : DB}

/-- A record that ends the tenure moves the room on. -/
theorem recoveryTally_ends {host : Host}
    {db db' : DB} (hend : record.Ends r) (h : applyRecordEffect host p record db = .ok ((), db')) :
    recoveryTally db p r < recoveryTally db' p r := by
  obtain ⟨effect, heffect, rfl, hdep⟩ := hend
  unfold applyRecordEffect applyMembershipEffect at h
  rw [heffect] at h
  dsimp only at h
  obtain ⟨_, t, ht, h⟩ := bind_eq_ok.mp h
  obtain ⟨rfl, rfl⟩ := get_eq_ok.mp ht
  obtain ⟨_, t, ht, h⟩ := bind_eq_ok.mp h
  obtain ⟨_, rfl⟩ := liftM_eq_ok.mp ht
  obtain ⟨state, t, ht, h⟩ := bind_eq_ok.mp h
  obtain ⟨rfl, rfl, _⟩ := claimMembershipState_eq_ok ht
  rw [if_pos hdep] at h
  split at h
  · obtain ⟨_, _, hthrow, _⟩ := bind_eq_ok.mp h
    exact absurd hthrow throw_eq_ok
  · obtain ⟨_, t, ht, h⟩ := bind_eq_ok.mp h
    have hset : Respects (Writes .widening) (do
        modify (setDepartureFenced p effect.roomId (effect.membership ≠ .join))
        modify (setProducerPosition p effect) : Tx Unit) :=
      Respects.bind (respects_modify fun s => (Statement.departureFenced p _ _ trivial).writes)
        fun _ => respects_modify fun s => (Statement.producer p effect trivial).writes
    have hbehind := (writes_behind_fence Scope.widening_ends ht).trans (hset.ok _ _ _ h)
    refine lt_of_lt_of_le (recoveryTally_lt_of_epoch ?_) (hbehind.recoveryTally_le p effect.roomId)
    rw [currentMembershipEpoch_fence, if_pos rfl, currentMembershipEpoch_claimed]
    omega

/-- A gap that is recorded moves the room on. -/
theorem recoveryTally_recorded {db db' : DB} {recovery : Option RoomHistoryRecovery}
    (hf : departureFenced db p r = false) (h : recordRoomHistoryRecovery p r db = .ok (recovery, db')) :
    recoveryTally db p r < recoveryTally db' p r := by
  unfold recordRoomHistoryRecovery at h
  obtain ⟨state, t, ht, h⟩ := bind_eq_ok.mp h
  obtain ⟨rfl, rfl, _⟩ := claimMembershipState_eq_ok ht
  have hgap := @recoveryTally_gap p r
    ⟨currentMembershipEpoch db p r, departureFenced db p r⟩ (claimed p r db) hf
  rw [modifyGet_eq_ok.mp h] at hgap
  have hclaim := (@writes_claimed .widening db p r).recoveryTally_le p r
  exact lt_of_le_of_lt hclaim hgap

/-- A record that reports a gap moves the room on. -/
theorem recoveryTally_gaps {host : Host} {db t db' : DB} {new : Bool} (hd : record.disposition = .historyLoss)
    (hroom : record.roomId = some r) (hf : departureFenced t p r = false)
    (ht : applyRecordEffect host p record db = .ok ((), t)) (h : applyDisposition p record t = .ok (new, db')) :
    recoveryTally db p r < recoveryTally db' p r := by
  have heffect := (respects_applyRecordEffect (Scope.widening_bounds host p) record).ok _ _ _ ht
  refine lt_of_le_of_lt (heffect.recoveryTally_le p r) ?_
  unfold applyDisposition at h
  rw [hd, hroom] at h
  dsimp only [Option.getD_some] at h
  obtain ⟨_, t', ht', h⟩ := bind_eq_ok.mp h
  obtain ⟨_, rfl⟩ := pure_eq_ok.mp h
  exact recoveryTally_recorded hf ht'

/-- A batch that commits moves the room past what one of its records moves it to. -/
theorem recoveryTally_batch {host : Host} {admission : IngestionBatchAdmission} {db t s' : DB} {facts : AdmissionFacts}
    (hreach : Reaches host p admission db record t) (hc : ∀ record ∈ admission.records, record.Carried .widening)
    (h : admitBatch host p admission db = .ok (facts, s'))
    (hrecord : ∀ t₁ t₂ new, applyRecordEffect host p record t = .ok ((), t₁) →
      Writes .widening t₁ t₂ → applyDisposition p record t₁ = .ok (new, t₂) →
      recoveryTally t p r < recoveryTally t₂ p r) :
    recoveryTally db p r < recoveryTally s' p r := by
  obtain ⟨hvalid, hbefore, fact, t', happly, hafter⟩ :=
    hreach.runs (Scope.widening_bounds host p) hc h
  have hin : record.Carried .widening := by
    obtain ⟨_, before, after, _, hrecords, _⟩ := hreach
    exact hc record (by rw [hrecords]; simp)
  unfold applyRecord applyIngestionDisposition at happly
  obtain ⟨new, t₂, hdisposed, hsnapshot⟩ := bind_eq_ok.mp happly
  obtain ⟨_, t₁, heffect, hdisposition⟩ := bind_eq_ok.mp hdisposed
  have hdone := (respects_applyDisposition p hvalid hin).ok _ _ _ hdisposition
  have hbehind : Writes .widening t₂ t' := by
    refine Respects.ok ?_ _ _ _ hsnapshot
    dsimp only
    split
    · exact respects_ite
        (fun _ => (respects_snapshotInteractiveSource ..).bind fun _ => respects_pure)
        (fun _ => respects_pure)
    · exact Respects.bind respects_pure fun _ => respects_pure
  have hmoved := hrecord t₁ t₂ new heffect hdone hdisposition
  calc recoveryTally db p r ≤ recoveryTally t p r := hbefore.recoveryTally_le p r
    _ < recoveryTally t₂ p r := hmoved
    _ ≤ recoveryTally s' p r := (hbehind.trans hafter).recoveryTally_le p r

/-- Every committed gap moves the room on. -/
theorem Op.Gaps.moves {host : Host} {op : Op} (hadm : op.Admissible .widening p db) (h : op.Gaps host p r db) :
    recoveryTally db p r < recoveryTally (step host p op db) p r := by
  obtain ⟨⟨s', hrun⟩, hop⟩ := h
  have hstep : step host p op db = s' := commit_of_ok hrun
  rw [hstep]
  cases op with
  | recordRoomHistoryRecovery roomId =>
    obtain ⟨rfl, hf⟩ := hop
    obtain ⟨recovery, hm⟩ := exec_eq_ok.mp hrun
    exact recoveryTally_recorded hf hm
  | admitIngestionBatch admission =>
    obtain ⟨record, t, hreach, hd, hroom, t₁, heffect, hf⟩ := hop
    obtain ⟨facts, hm⟩ := exec_eq_ok.mp hrun
    refine recoveryTally_batch hreach hadm hm fun t₁' t₂ new heffect' _ hdisposition => ?_
    obtain ⟨_, rfl⟩ := Prod.mk.injEq _ _ _ _ ▸ Except.ok.inj (heffect'.symm.trans heffect)
    exact recoveryTally_gaps hd hroom hf heffect hdisposition
  | _ => exact hop.elim

/-- Every committed end of a tenure moves the room on. -/
theorem Op.EndsTenure.moves {host : Host} {op : Op}
    (hadm : op.Admissible .widening p db) (h : op.EndsTenure host p r db) :
    recoveryTally db p r < recoveryTally (step host p op db) p r := by
  obtain ⟨⟨s', hrun⟩, hop⟩ := h
  have hstep : step host p op db = s' := commit_of_ok hrun
  rw [hstep]
  cases op with
  | admitIngestionBatch admission =>
    obtain ⟨record, t, hreach, hend⟩ := hop
    obtain ⟨facts, hm⟩ := exec_eq_ok.mp hrun
    refine recoveryTally_batch hreach hadm hm fun t₁ t₂ new heffect hwrites _ => ?_
    exact lt_of_lt_of_le (recoveryTally_ends hend heffect) (hwrites.recoveryTally_le p r)
  | _ => exact hop.elim

/-- Every accepted settlement moves the room on. -/
theorem Op.SettlesRecovery.moves {host : Host} {op : Op}
    (hadm : op.Admissible .widening p db) (h : op.SettlesRecovery p r db) :
    recoveryPlace db p r < recoveryPlace (step host p op db) p r := by
  cases op with
  | settleRoomHistoryRecovery recovery exhausted rank epoch =>
    obtain ⟨rfl, haccepted⟩ := h
    change _ < recoveryPlace (settleHistoryRecovery p recovery exhausted rank epoch db).2 _ _
    unfold settleHistoryRecovery at haccepted ⊢
    rw [claimMembershipEpoch_eq] at haccepted ⊢
    dsimp only at haccepted ⊢
    split at haccepted
    · exact absurd rfl haccepted
    · next hcur =>
      rw [if_neg hcur]
      split at haccepted
      · exact absurd rfl haccepted
      · next hclaims =>
        rw [if_neg hclaims]
        have hpublish := (writes_publish (b := .widening) p recovery.roomId none exhausted rank
          hcur).recoveryPlace_le p recovery.roomId
        exact lt_of_le_of_lt hpublish (recoveryPlace_settled hadm (not_not.mp hclaims))
  | _ => exact h.elim

/-- The operation moves the room's history recovery: a gap, a settlement or the end of a tenure. -/
def Op.MovesRecovery (host : Host) (p r : String) (db : DB) (op : Op) : Prop :=
  op.Gaps host p r db ∨ op.SettlesRecovery p r db ∨ op.EndsTenure host p r db

theorem Op.MovesRecovery.moves {host : Host} {op : Op}
    (hadm : op.Admissible .widening p db) (h : op.MovesRecovery host p r db) :
    recoveryPlace db p r < recoveryPlace (step host p op db) p r := by
  rcases h with hgap | hsettle | hend
  · exact recoveryPlace_lt_of_tally (hgap.moves hadm)
  · exact hsettle.moves hadm
  · exact recoveryPlace_lt_of_tally (hend.moves hadm)

/-! ## Stale work -/

/-- A worker whose tenure or obligation is gone is refused and changes nothing. -/
theorem superseded_installRecoveryChunk {p : String} {recovery : RoomHistoryRecovery} {epoch : Int}
    (hrow : db.roomMembership.get? (p, recovery.roomId) ≠ none)
    (h : ¬ (MembershipIsCurrent db p recovery.roomId epoch ∧ ClaimsRoomHistoryRecovery db p recovery))
    (events : List ProjectedEvent) : installRecoveryChunk p recovery events epoch db = (false, db) := by
  unfold installRecoveryChunk
  rw [claimMembershipEpoch_eq, claimed_of_tenanted hrow]
  dsimp only
  split
  · rfl
  · next hcur =>
    have hclaims : ¬ ClaimsRoomHistoryRecovery db p recovery := fun hc =>
      h ⟨of_decide_eq_true (Bool.eq_true_of_not_eq_false hcur), hc⟩
    rw [if_pos hclaims]

theorem superseded_settleHistoryRecovery {p : String} {recovery : RoomHistoryRecovery} {epoch : Int}
    (hrow : db.roomMembership.get? (p, recovery.roomId) ≠ none)
    (h : ¬ (MembershipIsCurrent db p recovery.roomId epoch ∧ ClaimsRoomHistoryRecovery db p recovery))
    (exhausted : Bool) (rank : Int) : settleHistoryRecovery p recovery exhausted rank epoch db = (.superseded, db) := by
  unfold settleHistoryRecovery
  rw [claimMembershipEpoch_eq, claimed_of_tenanted hrow]
  dsimp only
  split
  · rfl
  · next hcur =>
    have hclaims : ¬ ClaimsRoomHistoryRecovery db p recovery := fun hc =>
      h ⟨of_decide_eq_true (Bool.eq_true_of_not_eq_false hcur), hc⟩
    rw [if_pos hclaims]

theorem roomId_of_obligation {recovery : RoomHistoryRecovery}
    (h : roomHistoryRecovery db p r = some recovery) : recovery.roomId = r := by
  obtain ⟨row, hrow, hof⟩ := roomHistoryRecovery_eq_some h
  have hk : key row = (p, r) := (Table.get?_eq_some.mp hrow).2
  have hroom : row.roomId = r := congrArg Prod.snd hk
  unfold recoveryOfRow at hof
  split at hof
  · cases hof
    exact hroom
  · cases hof
    exact hroom
  · cases hof

/-- A room that owes a walk shows no complete conversation. -/
theorem conversationIsComplete_of_obligation
    (h : roomHistoryRecovery db p r ≠ none) (threadId : Option ThreadId) :
    conversationIsComplete db p r threadId = false := by
  obtain ⟨recovery, hrecovery⟩ := Option.ne_none_iff_exists'.mp h
  obtain ⟨row, hrow, hof⟩ := roomHistoryRecovery_eq_some hrecovery
  obtain ⟨_, _, hstate⟩ := recoveryOfRow_eq_some hof
  have hne : row.state ≠ .repaired := by
    rcases hstate with ⟨_, hs⟩ | ⟨_, hs⟩ <;> rw [hs] <;> decide
  have hopen : openRecoveryState db p r = some row.state := by
    unfold openRecoveryState
    rw [hrow, Option.filter_some, if_pos (decide_eq_true hne)]
    rfl
  unfold conversationIsComplete currentHydration
  cases db.conversationHydration.get? (p, r, encodeThreadId threadId) with
  | none => rfl
  | some hydration =>
    simp only [hopen, Option.bind_eq_bind, Option.bind_some]
    split
    · next hnone => rfl
    · next shown state hshown =>
      split at hshown
      · cases hshown
      · split at hshown
        · cases hshown
        · cases hshown
          simp

/-- An obligation and its tenure, captured together, name one place of the room for good. Once the
room has moved, by a gap, a settlement or the end of a tenure, whoever holds them is refused and
changes nothing, within a tenure every gap raises the revision, and no conversation is complete
while the room owes a walk. -/
theorem recovery_without_aba {host : Host} {s : DB} (hs : Reachable host .widening s) (p r : String) :
    (∀ recovery, roomHistoryRecovery s p r = some recovery →
      ∀ t op s', Run host .widening s t → op.Admissible .widening p t →
        op.MovesRecovery host p r t → Run host .widening (step host p op t) s' →
        (∀ events, installRecoveryChunk p recovery events (currentMembershipEpoch s p r) s' =
          (false, s')) ∧
        ∀ exhausted rank, settleHistoryRecovery p recovery exhausted rank
          (currentMembershipEpoch s p r) s' = (.superseded, s')) ∧
    (∀ t op, Run host .widening s t → op.Admissible .widening p t → op.Gaps host p r t →
      currentMembershipEpoch (step host p op t) p r = currentMembershipEpoch s p r →
      recoveryRevision s p r < recoveryRevision (step host p op t) p r) ∧
    (roomHistoryRecovery s p r ≠ none → ∀ threadId, conversationIsComplete s p r threadId = false) := by
  refine ⟨?_, ?_, conversationIsComplete_of_obligation⟩
  · intro recovery hrecovery t op s' hrun hadm hmoves hrun'
    obtain rfl := roomId_of_obligation hrecovery
    have hlt : recoveryPlace s p recovery.roomId < recoveryPlace s' p recovery.roomId :=
      calc recoveryPlace s p recovery.roomId
          ≤ recoveryPlace t p recovery.roomId :=
            (hrun.writes Scope.widening_covers).recoveryPlace_le p _
        _ < recoveryPlace (step host p op t) p recovery.roomId := hmoves.moves hadm
        _ ≤ recoveryPlace s' p recovery.roomId :=
            (hrun'.writes Scope.widening_covers).recoveryPlace_le p _
    have hgone := superseded_of_lt hrecovery hlt
    have hwhole : Run host .widening s s' :=
      (hrun.tail (Steps.op p op hadm)).trans hrun'
    -- the room has had its membership row since the obligation was captured
    have htenanted : RecoveryTenanted s := hs.invariant Scope.widening_covers
      (fun _ _ hk => absurd Table.get?_empty hk) fun _ _ hst ht => hst.recoveryTenanted ht
    have hrow : s'.roomMembership.get? (p, recovery.roomId) ≠ none := by
      have hfirst : s.roomMembership.get? (p, recovery.roomId) ≠ none := by
        apply htenanted
        obtain ⟨row, hrow, _⟩ := roomHistoryRecovery_eq_some hrecovery
        rw [hrow]
        exact Option.some_ne_none row
      exact statements_preserve (fun _ _ hst h => hst.tenanted _ h)
        (hwhole.statements Scope.widening_covers hs) hfirst
    exact ⟨superseded_installRecoveryChunk hrow hgone, superseded_settleHistoryRecovery hrow hgone⟩
  · intro t op hrun hadm hgap htenure
    have hle := (hrun.writes Scope.widening_covers).recoveryTally_le p r
    exact recoveryRevision_lt_of_tally htenure (lt_of_le_of_lt hle (hgap.moves hadm))

/-! ## One room -/

namespace TwoGaps

def host : Host := ⟨id, id, fun _ => "", fun _ => ""⟩

def gap : Op := .recordRoomHistoryRecovery "!r"

def first : DB := step host "p" gap (DB.init fun _ => 0)

def second : DB := step host "p" gap first

def obligation : RoomHistoryRecovery := ⟨"!r", .repairable, 0, 0⟩

theorem gap_gaps : gap.Gaps host "p" "!r" first := ⟨⟨second, rfl⟩, rfl, by decide +kernel⟩

/-- A second gap falls into the walk of the first one, whose settlement is refused. -/
theorem recovery_superseded : roomHistoryRecovery first "p" "!r" = some obligation ∧
      settleHistoryRecovery "p" obligation true 30 0 second = (.superseded, second) ∧
      recoveryRevision first "p" "!r" < recoveryRevision second "p" "!r" := by
  have hreach : Reachable host .widening first := ⟨fun _ => 0, .single (.op "p" gap trivial)⟩
  have hcaptured : roomHistoryRecovery first "p" "!r" = some obligation := by decide +kernel
  have hepoch : currentMembershipEpoch first "p" "!r" = 0 := by decide +kernel
  have hepoch' : currentMembershipEpoch second "p" "!r" = 0 := by decide +kernel
  obtain ⟨hstale, hraises, _⟩ := recovery_without_aba hreach "p" "!r"
  have hstale := (hstale obligation hcaptured first gap second .refl trivial (.inl gap_gaps)
    .refl).2 true 30
  rw [hepoch] at hstale
  exact ⟨hcaptured, hstale, hraises first gap .refl trivial gap_gaps (hepoch'.trans hepoch.symm)⟩

end TwoGaps

end MindRoom
