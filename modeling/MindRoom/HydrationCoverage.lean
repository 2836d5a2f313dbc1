import Mathlib
import MindRoom.Hydration

/-! # Hydration coverage is a join

Walks of one conversation finish in any order and publish what they covered in one row. Within a
membership epoch the row is the join of all of them: complete once one was, and as strong as the
strongest policy any of them attempted.
-/

namespace MindRoom

/-! ## Joins of coverage

What walks have covered, as an element of a lattice: nothing, or whether one reached the end and the
rank of the strongest policy.
-/

namespace Coverage

variable {s : Multiset (Bool × Int)}

noncomputable def join (s : Multiset (Bool × Int)) : WithBot (Bool × Int) := (s.map WithBot.some).sup

@[simp] theorem join_zero : join 0 = ⊥ := Multiset.sup_zero

@[simp] theorem join_cons (x : Bool × Int) : join (x ::ₘ s) = ↑x ⊔ join s := by
  unfold join
  rw [Multiset.map_cons, Multiset.sup_cons]

/-- The join of some walks is complete if one of them was, and has the greatest of their ranks. -/
theorem join_eq_coe (hs : s ≠ 0) : ∃ x : Bool × Int, join s = ↑x ∧ (x.1 = true ↔ ∃ y ∈ s, y.1 = true) ∧
    IsGreatest {n | ∃ y ∈ s, y.2 = n} x.2 := by
  induction s using Multiset.induction with
  | empty => exact absurd rfl hs
  | cons y s ih =>
    by_cases hrest : s = 0
    · subst hrest
      refine ⟨y, by rw [join_cons, join_zero, sup_bot_eq], by simp, ⟨y, Multiset.mem_cons_self y 0, rfl⟩, ?_⟩
      rintro n ⟨z, hz, rfl⟩
      rw [Multiset.cons_zero, Multiset.mem_singleton] at hz
      rw [hz]
    · rcases ih hrest with ⟨x, hx, hcomplete, hrank⟩
      refine ⟨y ⊔ x, by rw [join_cons, hx, WithBot.coe_sup], ?_, ?_, ?_⟩
      · have hor : (y ⊔ x).1 = true ↔ y.1 = true ∨ x.1 = true := by
          change y.1 ⊔ x.1 = true ↔ _
          cases y.1 <;> cases x.1 <;> decide
        simp only [hor, hcomplete, Multiset.mem_cons, exists_eq_or_imp]
      · rcases le_total y.2 x.2 with hle | hle
        · rcases hrank.1 with ⟨z, hz, hzx⟩
          exact ⟨z, Multiset.mem_cons_of_mem hz, hzx.trans (sup_eq_right.mpr hle).symm⟩
        · exact ⟨y, Multiset.mem_cons_self y s, (sup_eq_left.mpr hle).symm⟩
      · rintro n ⟨z, hz, rfl⟩
        rcases Multiset.mem_cons.mp hz with rfl | hz
        · exact le_sup_left
        · exact le_trans (hrank.2 ⟨z, hz, rfl⟩) le_sup_right

end Coverage

/-! ## Marks -/

/-- The arguments of one `mark_conversation_hydrated`. -/
structure HydrationMark where
  principalId : String
  roomId : String
  threadId : Option ThreadId
  complete : Bool
  attemptedPolicyRank : Int
  expectedMembershipEpoch : Int
deriving DecidableEq

namespace HydrationMark

def publish (m : HydrationMark) (db : DB) : DB :=
  (markConversationHydrated m.principalId m.roomId m.threadId m.complete m.attemptedPolicyRank
    m.expectedMembershipEpoch db).2

def value (m : HydrationMark) : Bool × Int := (m.complete, m.attemptedPolicyRank)

def Of (p r : String) (t : Option ThreadId) (epoch : Int) (m : HydrationMark) : Prop :=
  m.principalId = p ∧ m.roomId = r ∧ m.threadId = t ∧ m.expectedMembershipEpoch = epoch

instance (p r : String) (t : Option ThreadId) (epoch : Int) : DecidablePred (Of p r t epoch) :=
  fun _ => inferInstanceAs (Decidable (_ ∧ _))

end HydrationMark

def hydrationAt (db : DB) (p r : String) (t : Option ThreadId) : Option HydrationRow :=
  db.conversationHydration.get? (p, r, encodeThreadId t)

/-- What the walks of one epoch have covered of the conversation. -/
def coverageAt (db : DB) (p r : String) (t : Option ThreadId) (epoch : Int) : WithBot (Bool × Int) :=
  match hydrationAt db p r t with
  | some row => if row.membershipEpoch = epoch then ((row.complete, row.attemptedPolicyRank) : Bool × Int) else ⊥
  | none => ⊥

section

variable {db : DB} {p r : String} {t : Option ThreadId} {epoch : Int} {m : HydrationMark}

theorem coverageAt_eq_coe {x : Bool × Int} (h : coverageAt db p r t epoch = ↑x) :
    ∃ row, hydrationAt db p r t = some row ∧ row.membershipEpoch = epoch ∧ row.complete = x.1 ∧
      row.attemptedPolicyRank = x.2 := by
  unfold coverageAt at h
  split at h
  · next row hrow =>
    split at h
    · next hepoch =>
      have hx := WithBot.coe_injective h
      exact ⟨row, hrow, hepoch, congrArg Prod.fst hx, congrArg Prod.snd hx⟩
    · exact absurd h.symm (WithBot.coe_ne_bot)
  · exact absurd h.symm (WithBot.coe_ne_bot)

theorem coverageAt_of_no_row (h : ∀ row, hydrationAt db p r t = some row → row.membershipEpoch ≠ epoch) :
    coverageAt db p r t epoch = ⊥ := by
  unfold coverageAt
  split
  · next row hrow => rw [if_neg (h row hrow)]
  · rfl

/-- A mark under another epoch, or of a room that was left, publishes nothing. -/
theorem publish_of_stale (h : ¬ MembershipIsCurrent db m.principalId m.roomId m.expectedMembershipEpoch) :
    m.publish db = claimed m.principalId m.roomId db := by
  unfold HydrationMark.publish markConversationHydrated
  rw [claimMembershipEpoch_eq, decide_eq_false h]
  rfl

/-- A mark of the room's own tenure publishes its row. -/
theorem publish_of_current (h : MembershipIsCurrent db m.principalId m.roomId m.expectedMembershipEpoch) :
    m.publish db = publishConversationHydration
      (hydrationRow m.principalId m.roomId m.threadId m.complete m.attemptedPolicyRank m.expectedMembershipEpoch)
      (claimed m.principalId m.roomId db) := by
  unfold HydrationMark.publish markConversationHydrated
  rw [claimMembershipEpoch_eq, decide_eq_true h]
  rfl

theorem membershipIsCurrent_publish :
    MembershipIsCurrent (m.publish db) p r epoch ↔ MembershipIsCurrent db p r epoch := by
  have hclaimed : MembershipIsCurrent (claimed m.principalId m.roomId db) p r epoch ↔
      MembershipIsCurrent db p r epoch := by
    unfold MembershipIsCurrent
    rw [currentMembershipEpoch_claimed, departureFenced_claimed]
  by_cases h : MembershipIsCurrent db m.principalId m.roomId m.expectedMembershipEpoch
  · rw [publish_of_current h]
    exact hclaimed
  · rw [publish_of_stale h]
    exact hclaimed

theorem encodeThreadId_inj {t t' : Option ThreadId} (h : encodeThreadId t = encodeThreadId t') : t = t' := by
  rw [← decodeThreadId_encodeThreadId t, h, decodeThreadId_encodeThreadId]

/-- The row after a published mark. -/
theorem hydrationAt_publish (h : MembershipIsCurrent db m.principalId m.roomId m.expectedMembershipEpoch) :
    hydrationAt (m.publish db) p r t =
      if m.principalId = p ∧ m.roomId = r ∧ m.threadId = t then
        let row := hydrationRow p r t m.complete m.attemptedPolicyRank m.expectedMembershipEpoch
        some ((hydrationAt db p r t).elim row (growCoverage row))
      else hydrationAt db p r t := by
  rw [publish_of_current h]
  unfold hydrationAt publishConversationHydration
  dsimp only
  refine Table.get?_upsert.trans ?_
  have hkey : key (hydrationRow m.principalId m.roomId m.threadId m.complete m.attemptedPolicyRank
      m.expectedMembershipEpoch) = (m.principalId, m.roomId, encodeThreadId m.threadId) := rfl
  rw [hkey]
  by_cases hof : m.principalId = p ∧ m.roomId = r ∧ m.threadId = t
  · rcases hof with ⟨rfl, rfl, rfl⟩
    rw [if_pos rfl, if_pos ⟨rfl, rfl, rfl⟩]
    simp only [if_true]
    rfl
  · rw [if_neg hof, if_neg]
    · rfl
    · rw [Prod.mk.injEq, Prod.mk.injEq]
      intro heq
      exact hof ⟨heq.1, heq.2.1, encodeThreadId_inj heq.2.2⟩

/-- One mark joins what it covered to what its conversation had under its epoch, and to nothing else. -/
theorem coverageAt_publish (hcur : MembershipIsCurrent db p r epoch) : coverageAt (m.publish db) p r t epoch =
      if m.Of p r t epoch then coverageAt db p r t epoch ⊔ ↑m.value else coverageAt db p r t epoch := by
  by_cases h : MembershipIsCurrent db m.principalId m.roomId m.expectedMembershipEpoch
  · unfold coverageAt
    rw [hydrationAt_publish h]
    by_cases hconversation : m.principalId = p ∧ m.roomId = r ∧ m.threadId = t
    · rcases hconversation with ⟨rfl, rfl, rfl⟩
      obtain rfl : m.expectedMembershipEpoch = epoch := h.1.symm.trans hcur.1
      rw [if_pos ⟨rfl, rfl, rfl⟩, if_pos ⟨rfl, rfl, rfl, rfl⟩]
      cases hydrationAt db m.principalId m.roomId m.threadId with
      | none =>
        simp only [Option.elim_none, hydrationRow, if_true, bot_sup_eq]
        rfl
      | some row =>
        simp only [Option.elim_some, growCoverage, hydrationRow, if_true]
        by_cases hepoch : row.membershipEpoch = m.expectedMembershipEpoch
        · -- within one epoch both columns only grow
          simp only [hepoch, true_and, if_true]
          rw [← WithBot.coe_sup]
          refine congrArg _ (Prod.ext ?_ ?_)
          · change (if row.complete = true then true else m.complete) = row.complete ⊔ m.complete
            cases row.complete <;> cases m.complete <;> rfl
          · change (if m.attemptedPolicyRank < row.attemptedPolicyRank then row.attemptedPolicyRank
              else m.attemptedPolicyRank) = max row.attemptedPolicyRank m.attemptedPolicyRank
            omega
        · simp only [hepoch, false_and, if_false, bot_sup_eq]
          rfl
    · rw [if_neg hconversation, if_neg fun hof => hconversation ⟨hof.1, hof.2.1, hof.2.2.1⟩]
  · rw [publish_of_stale h, if_neg]
    · rfl
    · rintro ⟨rfl, rfl, rfl, rfl⟩
      exact h hcur

/-- Marks in any order leave the join of those of the conversation that carry the epoch. -/
theorem coverageAt_foldl (hcur : MembershipIsCurrent db p r epoch) (order : List HydrationMark) :
    coverageAt (order.foldl (fun db m => m.publish db) db) p r t epoch =
      coverageAt db p r t epoch ⊔
        Coverage.join (((order : Multiset HydrationMark).filter (HydrationMark.Of p r t epoch)).map (·.value)) := by
  induction order generalizing db with
  | nil => simp
  | cons m order ih =>
    rw [List.foldl_cons, ih (membershipIsCurrent_publish.mpr hcur), coverageAt_publish hcur, ← Multiset.cons_coe]
    by_cases hof : m.Of p r t epoch
    · rw [if_pos hof, Multiset.filter_cons_of_pos _ hof, Multiset.map_cons, Coverage.join_cons, sup_assoc]
    · rw [if_neg hof, Multiset.filter_cons_of_neg _ hof]

end

/-! ## The claim of a whole epoch -/

/-- The row a conversation ends with under an epoch, after the marks that count. -/
def IsJoinOf (marks : Multiset HydrationMark) (row : HydrationRow) : Prop :=
  (row.complete = true ↔ ∃ m ∈ marks, m.complete = true) ∧
    IsGreatest {rank | ∃ m ∈ marks, m.attemptedPolicyRank = rank} row.attemptedPolicyRank

/-- Within one epoch, any marks in any order end in their join; a mark under another epoch changes
nothing; and the first mark of a later epoch replaces what the earlier one left. -/
theorem hydration_coverage_is_join (db : DB) (p r : String) (t : Option ThreadId) :
    (∀ epoch, MembershipIsCurrent db p r epoch →
      (∀ row, hydrationAt db p r t = some row → row.membershipEpoch ≠ epoch) →
      ∀ (marks : Multiset HydrationMark) (order : List HydrationMark), (order : Multiset HydrationMark) = marks →
        marks.filter (HydrationMark.Of p r t epoch) ≠ 0 →
        ∃ row, hydrationAt (order.foldl (fun db m => m.publish db) db) p r t = some row ∧
          row.membershipEpoch = epoch ∧ IsJoinOf (marks.filter (HydrationMark.Of p r t epoch)) row) ∧
    (∀ complete rank epoch, epoch ≠ currentMembershipEpoch db p r →
      let result := markConversationHydrated p r t complete rank epoch db
      result.1 = false ∧ { result.2 with roomMembership := db.roomMembership } = db ∧
        ∀ p' r', membershipRow result.2 p' r' = membershipRow db p' r') ∧
    ∀ complete rank epoch row, MembershipIsCurrent db p r epoch → hydrationAt db p r t = some row →
      row.membershipEpoch < epoch →
      hydrationAt (markConversationHydrated p r t complete rank epoch db).2 p r t =
        some (hydrationRow p r t complete rank epoch) := by
  refine ⟨?_, ?_, ?_⟩
  · rintro epoch hcur hfirst marks order rfl hmarks
    have hjoin := @coverageAt_foldl db p r t epoch hcur order
    rw [coverageAt_of_no_row hfirst, bot_sup_eq] at hjoin
    have hvalues : ((order : Multiset HydrationMark).filter (HydrationMark.Of p r t epoch)).map (·.value) ≠ 0 := by
      rwa [Ne, Multiset.map_eq_zero]
    rcases Coverage.join_eq_coe hvalues with ⟨x, hx, hcomplete, hrank⟩
    rw [hx] at hjoin
    rcases coverageAt_eq_coe hjoin with ⟨row, hrow, hepoch, hc, hn⟩
    refine ⟨row, hrow, hepoch, ?_, ?_⟩
    · rw [hc, hcomplete]
      simp [HydrationMark.value]
    · rw [hn]
      simpa [HydrationMark.value] using hrank
  · intro complete rank epoch hepoch
    have hresult : markConversationHydrated p r t complete rank epoch db = (false, claimed p r db) := by
      unfold markConversationHydrated
      rw [claimMembershipEpoch_eq, decide_eq_false fun h => hepoch h.1.symm]
      rfl
    -- only the membership row may come into being, with the values its absence stood for
    rw [hresult]
    exact ⟨rfl, rfl, fun p' r' => membershipRow_claimed p r p' r' db⟩
  · intro complete rank epoch row hcur hrow hlt
    have hrow' := @hydrationAt_publish db p r t ⟨p, r, t, complete, rank, epoch⟩ hcur
    rw [if_pos ⟨rfl, rfl, rfl⟩, hrow] at hrow'
    refine hrow'.trans ?_
    have hkey : (row.principalId, row.roomId, row.threadId) = (p, r, encodeThreadId t) :=
      (Table.get?_eq_some.mp hrow).2
    rw [Prod.mk.injEq, Prod.mk.injEq] at hkey
    simp only [Option.elim_some, growCoverage, hydrationRow, hlt.ne, false_and, if_false, hkey]

namespace TwoWalks

/-- A walk that reached the end under the weaker policy. -/
def wide : HydrationMark := ⟨"@p", "!r", none, true, 1, 0⟩

/-- A walk that gave up under the stronger one. -/
def narrow : HydrationMark := ⟨"@p", "!r", none, false, 3, 0⟩

/-- In both orders the row is complete, of the stronger policy. -/
theorem coverage_of_walks : ∀ order ∈ [[wide, narrow], [narrow, wide]],
    ∃ row, hydrationAt (order.foldl (fun db m => m.publish db) (DB.init fun _ => 0)) "@p" "!r" none = some row ∧
      row.complete = true ∧ row.attemptedPolicyRank = 3 := by
  intro order horder
  have hperm : (order : Multiset HydrationMark) = {wide, narrow} := by
    rw [List.mem_pair] at horder
    rcases horder with rfl | rfl <;> decide
  have hjoin := (hydration_coverage_is_join (DB.init fun _ => 0) "@p" "!r" none).1 0 (by decide)
    (by decide) {wide, narrow} order hperm (by decide)
  rcases hjoin with ⟨row, hrow, -, hcomplete, hrank⟩
  refine ⟨row, hrow, hcomplete.mpr ⟨wide, by decide, rfl⟩, ?_⟩
  exact hrank.unique ⟨⟨narrow, by decide, rfl⟩, by rintro n ⟨m, hm, rfl⟩; revert m; decide⟩

end TwoWalks

end MindRoom
