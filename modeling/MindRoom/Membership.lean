import MindRoom.Schema
import MindRoom.Transaction

/-! # Room membership claims

`event_journal/membership_state.py`: every journal writer claims the room's membership row
before it writes, materializing epoch zero so that a claim and a fence are totally ordered.
-/

namespace MindRoom

abbrev Tx (α : Type) := Transaction DB StoreError α

/-- `time.time_ns()`: the next reading of the host clock. -/
def timeNs : Tx Int :=
  modifyGet fun db => (db.clock 0, { db with clock := fun n => db.clock (n + 1) })

/-! ## Reading the tenure -/

/-- The room's membership row, as absence reads: epoch zero, not fenced. -/
def membershipRow (db : DB) (principalId roomId : String) : RoomMembershipRow :=
  (db.roomMembership.get? (principalId, roomId)).getD ⟨principalId, roomId, 0, false⟩

/-- The room's current membership epoch, starting at zero. -/
def currentMembershipEpoch (db : DB) (principalId roomId : String) : Int :=
  (membershipRow db principalId roomId).membershipEpoch

/-- Whether the room's tenure has ended and not begun again. -/
def departureFenced (db : DB) (principalId roomId : String) : Bool :=
  (membershipRow db principalId roomId).departureFenced

/-! ## Claims -/

/-- Materialize and lock one membership row, returning its epoch and fence. -/
def claimMembershipRow (principalId roomId : String) (db : DB) : (Int × Bool) × DB :=
  match db.roomMembership.get? (principalId, roomId) with
  | some row => ((row.membershipEpoch, row.departureFenced), db)
  | none =>
    ((0, false), { db with
        roomMembership := db.roomMembership.insertOrIgnore ⟨principalId, roomId, 0, false⟩ })

def claimActiveMembershipEpoch (principalId roomId : String) (db : DB) : Option Int × DB :=
  let ((epoch, fenced), db) := claimMembershipRow principalId roomId db
  (if fenced then none else some epoch, db)

/-- Materialize and claim the expected active room membership for one write. -/
def claimMembershipEpoch (principalId roomId : String) (expectedMembershipEpoch : Int)
    (db : DB) : Bool × DB :=
  let ((epoch, fenced), db) := claimMembershipRow principalId roomId db
  (decide (epoch = expectedMembershipEpoch ∧ fenced = false), db)

/-- The tenure is the expected one and is active. -/
def MembershipIsCurrent (db : DB) (principalId roomId : String) (epoch : Int) : Prop :=
  currentMembershipEpoch db principalId roomId = epoch ∧
    departureFenced db principalId roomId = false

instance (db : DB) (principalId roomId : String) (epoch : Int) :
    Decidable (MembershipIsCurrent db principalId roomId epoch) :=
  inferInstanceAs (Decidable (_ ∧ _))

/-! ## What a claim does

A claim answers from the row as absence reads and changes nothing that a read can see: only
the room's row may come into being, with the values its absence stood for. -/

def claimed (principalId roomId : String) (db : DB) : DB :=
  { db with roomMembership := db.roomMembership.insertOrIgnore ⟨principalId, roomId, 0, false⟩ }

theorem insertOrIgnore_of_get? {t : Table RoomMembershipRow} {r row : RoomMembershipRow}
    (h : t.get? (key row) = some r) : t.insertOrIgnore row = t := by
  obtain ⟨hr, hk⟩ := Table.get?_eq_some.mp h
  unfold Table.insertOrIgnore
  rw [dif_pos (Table.mem_keys.mpr ⟨r, hr, hk⟩)]

theorem claimMembershipRow_eq (principalId roomId : String) (db : DB) : claimMembershipRow principalId roomId db =
      ((currentMembershipEpoch db principalId roomId, departureFenced db principalId roomId),
        claimed principalId roomId db) := by
  unfold claimMembershipRow claimed currentMembershipEpoch departureFenced membershipRow
  cases h : db.roomMembership.get? (principalId, roomId) with
  | none => rfl
  | some row =>
    have hins : db.roomMembership.insertOrIgnore ⟨principalId, roomId, 0, false⟩ =
        db.roomMembership := insertOrIgnore_of_get? h
    simp only [hins]
    rfl

@[simp] theorem claimActiveMembershipEpoch_eq (principalId roomId : String) (db : DB) :
    claimActiveMembershipEpoch principalId roomId db =
      (if departureFenced db principalId roomId then none
        else some (currentMembershipEpoch db principalId roomId),
        claimed principalId roomId db) := by
  rw [claimActiveMembershipEpoch, claimMembershipRow_eq]

@[simp] theorem claimMembershipEpoch_eq (principalId roomId : String) (epoch : Int) (db : DB) :
    claimMembershipEpoch principalId roomId epoch db =
      (decide (MembershipIsCurrent db principalId roomId epoch), claimed principalId roomId db) := by
  rw [claimMembershipEpoch, claimMembershipRow_eq]
  rfl

theorem membershipRow_claimed (p r principalId roomId : String) (db : DB) :
    membershipRow (claimed p r db) principalId roomId = membershipRow db principalId roomId := by
  unfold membershipRow claimed
  cases h : db.roomMembership.get? (principalId, roomId) with
  | some row =>
    obtain ⟨hr, hk⟩ := Table.get?_eq_some.mp h
    have h' : (db.roomMembership.insertOrIgnore ⟨p, r, 0, false⟩).get? (principalId, roomId) =
        some row :=
      Table.get?_eq_some.mpr ⟨Table.mem_insertOrIgnore.mpr (.inl hr), hk⟩
    rw [h']
  | none =>
    rw [Table.get?_eq_none] at h
    cases h' : (db.roomMembership.insertOrIgnore ⟨p, r, 0, false⟩).get? (principalId, roomId) with
    | none => rfl
    | some row =>
      obtain ⟨hr, hk⟩ := Table.get?_eq_some.mp h'
      rcases Table.mem_insertOrIgnore.mp hr with hold | ⟨rfl, _⟩
      · exact absurd hk (h row hold)
      · obtain ⟨rfl, rfl⟩ : p = principalId ∧ r = roomId := Prod.mk.injEq _ _ _ _ ▸ hk
        rfl

/-- A claim keeps every row. -/
theorem tenanted_claimed {db : DB} (p r : String) (k : String × String)
    (h : db.roomMembership.get? k ≠ none) : (claimed p r db).roomMembership.get? k ≠ none := by
  unfold claimed
  rw [Table.get?_insertOrIgnore]
  split
  · exact Option.some_ne_none _
  · exact h

/-- The room of a claim has its row. -/
theorem tenanted_claim (p r : String) (db : DB) : (claimed p r db).roomMembership.get? (p, r) ≠ none := by
  have hk : key (⟨p, r, 0, false⟩ : RoomMembershipRow) = (p, r) := rfl
  unfold claimed
  rw [Table.get?_insertOrIgnore, if_pos hk]
  exact Option.some_ne_none _

/-- A claim of a row that is there changes nothing. -/
theorem claimed_of_tenanted {p r : String} {db : DB} (h : db.roomMembership.get? (p, r) ≠ none) :
    claimed p r db = db := by
  obtain ⟨row, hrow⟩ := Option.ne_none_iff_exists'.mp h
  have hins : db.roomMembership.insertOrIgnore ⟨p, r, 0, false⟩ = db.roomMembership :=
    insertOrIgnore_of_get? hrow
  unfold claimed
  rw [hins]

@[simp] theorem currentMembershipEpoch_claimed (p r principalId roomId : String) (db : DB) :
    currentMembershipEpoch (claimed p r db) principalId roomId =
      currentMembershipEpoch db principalId roomId := by
  rw [currentMembershipEpoch, membershipRow_claimed, currentMembershipEpoch]

@[simp] theorem departureFenced_claimed (p r principalId roomId : String) (db : DB) :
    departureFenced (claimed p r db) principalId roomId = departureFenced db principalId roomId := by
  rw [departureFenced, membershipRow_claimed, departureFenced]

end MindRoom
