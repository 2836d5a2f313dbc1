import MindRoom.Tenure

/-! # Deliveries on their way

What holds of the outbox in every run. Once a delivery was offered, nothing of what is sent changes. Of the two stages of
a delivery at most one is a message of its own whose outcome is unknown: a second one would post the answer twice.
-/

namespace MindRoom

/-- The row was offered, and its outcome is unknown. -/
def OutboxRow.InDoubt (r : OutboxRow) : Prop :=
  r.attempted = true ∧ r.acknowledgedEventId = none ∧ r.retired = false ∧ r.permanentFailureReason = none

instance (r : OutboxRow) : Decidable r.InDoubt := inferInstanceAs (Decidable (_ ∧ _))

/-- Only the outcome of a row, its device and its membership change, and an acknowledgement is for good. -/
structure OutboxRow.Frozen (r r' : OutboxRow) : Prop where
  same : r' = { r with
    membershipEpoch := r'.membershipEpoch
    retired := r'.retired
    permanentFailureReason := r'.permanentFailureReason
    sendingDeviceId := r'.sendingDeviceId
    acknowledgedEventId := r'.acknowledgedEventId }
  retired : r.retired = true → r'.retired = true
  acknowledged : ∀ eventId ∈ r.acknowledgedEventId, eventId ∈ r'.acknowledgedEventId

/-- The row is yet to be offered, and INITIAL waits for no edit target. -/
def OutboxRow.Fresh (r : OutboxRow) : Prop :=
  r.attempted = false ∧ (r.stage = .initial → r.editTargetPending = false)

/-- INITIAL, and what was offered, waits for no edit target; where both stages are in doubt, FINAL is an edit. -/
structure DB.Ordered (db : DB) : Prop where
  settled : ∀ r ∈ db.matrixDeliveryOutbox, r.stage = .initial ∨ r.attempted = true → r.editTargetPending = false
  single : ∀ initial ∈ db.matrixDeliveryOutbox, ∀ final ∈ db.matrixDeliveryOutbox,
    initial.principalId = final.principalId → initial.deliveryId = final.deliveryId → initial.stage = .initial →
      final.stage = .final → initial.InDoubt → final.InDoubt → final.editsEventId ≠ none

variable {b : Scope} {db db' : DB} {r r' r'' : OutboxRow} {q : OutboxRow → Prop} [DecidablePred q]
  {f : OutboxRow → OutboxRow} {hf : ∀ r, key (f r) = key r}

theorem OutboxRow.Frozen.refl (r : OutboxRow) : r.Frozen r := ⟨rfl, fun h => h, fun _ h => h⟩

theorem OutboxRow.Frozen.trans (h : r.Frozen r') (h' : r'.Frozen r'') : r.Frozen r'' where
  same := by
    have hsame := h'.same
    rw [h.same] at hsame
    exact hsame
  retired hr := h'.retired (h.retired hr)
  acknowledged eventId hr := h'.acknowledged eventId (h.acknowledged eventId hr)

theorem OutboxRow.Frozen.key_eq (h : r.Frozen r') : key r' = key r := by
  rw [h.same]
  rfl

theorem ordered_init (clock : ℕ → Int) : (DB.init clock).Ordered :=
  ⟨fun _ h => absurd h List.not_mem_nil, fun _ h => absurd h List.not_mem_nil⟩

/-! ## One statement -/

theorem frozen_update (hf : ∀ r, key (f r) = key r) (hr : r ∈ db.matrixDeliveryOutbox) (h : q r → r.Frozen (f r)) :
    ∃ r' ∈ db.matrixDeliveryOutbox.update q f hf, r.Frozen r' := by
  by_cases hq : q r
  · exact ⟨f r, Table.mem_update_of hf hr hq, h hq⟩
  · exact ⟨r, Table.mem_update_of_not hf hr hq, .refl r⟩

/-- The order is kept when every row is yet to be offered or was frozen, and no new doubt arises. -/
theorem DB.Ordered.of_rows (h : db.Ordered) (hrows : ∀ r' ∈ db'.matrixDeliveryOutbox, r'.Fresh ∨
    ∃ r ∈ db.matrixDeliveryOutbox, r.Frozen r' ∧ (r'.InDoubt → r.InDoubt)) : db'.Ordered where
  settled r' hr' hoffered := by
    rcases hrows r' hr' with hfresh | ⟨r, hr, hfrozen, -⟩
    · rcases hoffered with hinitial | hattempted
      · exact hfresh.2 hinitial
      · exact absurd (hfresh.1.symm.trans hattempted) Bool.false_ne_true
    · rw [hfrozen.same] at hoffered ⊢
      exact h.settled r hr hoffered
  single i' hi' f' hf' hp hd hinitial hfinal hdoubt hdoubt' := by
    rcases hrows i' hi' with hfresh | ⟨i, hi, hfrozen, hback⟩
    · exact absurd (hfresh.1.symm.trans hdoubt.1) Bool.false_ne_true
    · rcases hrows f' hf' with hfresh | ⟨f, hf, hfrozen', hback'⟩
      · exact absurd (hfresh.1.symm.trans hdoubt'.1) Bool.false_ne_true
      · have hi' := hback hdoubt
        have hf' := hback' hdoubt'
        rw [hfrozen.same] at hp hd hinitial
        rw [hfrozen'.same] at hp hd hfinal ⊢
        exact h.single i hi f hf hp hd hinitial hfinal hi' hf'

theorem DB.Ordered.of_subset (h : db.Ordered) (hsub : ∀ r ∈ db'.matrixDeliveryOutbox, r ∈ db.matrixDeliveryOutbox) :
    db'.Ordered :=
  h.of_rows fun r hr => .inr ⟨r, hsub r hr, .refl r, fun hdoubt => hdoubt⟩

theorem DB.Ordered.update (h : db.Ordered) (hrows : ∀ r ∈ db.matrixDeliveryOutbox, q r →
    (f r).Fresh ∨ r.Frozen (f r) ∧ ((f r).InDoubt → r.InDoubt)) :
    ({ db with matrixDeliveryOutbox := db.matrixDeliveryOutbox.update q f hf } : DB).Ordered := by
  refine h.of_rows fun r' hr' => ?_
  rcases Table.of_mem_update hf hr' with ⟨r, hr, hq, rfl⟩ | ⟨hr, -⟩
  · rcases hrows r hr hq with hfresh | hfrozen
    · exact .inl hfresh
    · exact .inr ⟨r, hr, hfrozen⟩
  · exact .inr ⟨r', hr, .refl r', fun hdoubt => hdoubt⟩

/-- An offer of one stage finds the other one settled. -/
theorem DB.Ordered.offer (h : db.Ordered) {p d : String} {stage : DeliveryStage} {device : Option String}
    {row : OutboxRow} (hoffer : Offered db p d stage row) :
    (updateOutbox p d stage (fun r => r.attempted = false)
      (fun r => { r with attempted := true, sendingDeviceId := device }) (fun _ => rfl) db).Ordered := by
  obtain ⟨hrow, hkey⟩ := Table.get?_eq_some.mp hoffer.stored
  have htouched : ∀ r ∈ db.matrixDeliveryOutbox, key r = (p, d, stage) ∧ r.attempted = false → r = row :=
    fun r hr hq => Table.eq_of_key_eq hr hrow (hq.1.trans hkey.symm)
  have hstage : row.stage = stage := congrArg (fun k : String × String × DeliveryStage => k.2.2) hkey
  have hstored : ∀ r ∈ db.matrixDeliveryOutbox, r.principalId = row.principalId → r.deliveryId = row.deliveryId →
      outboxAt db p d r.stage = some r := by
    intro r hr hp hd
    refine Table.get?_eq_some.mpr ⟨hr, ?_⟩
    show (r.principalId, r.deliveryId, r.stage) = _
    rw [hp, hd]
    exact congrArg (fun k : String × String × DeliveryStage => (k.1, k.2.1, r.stage)) hkey
  constructor
  · intro r' hr' hwaits
    rcases Table.of_mem_update (by intro _; rfl) hr' with ⟨r, hr, hq, rfl⟩ | ⟨hr, -⟩
    · obtain rfl := htouched r hr hq
      cases hs : r.stage with
      | initial => exact h.settled r hr (.inl hs)
      | final => exact hoffer.settled (hstage.symm.trans hs)
    · exact h.settled r' hr hwaits
  · intro i' hi' f' hf' hp hd hinitial hfinal hdoubt hdoubt'
    rcases Table.of_mem_update (by intro _; rfl) hi' with ⟨i, hi, hq, rfl⟩ | ⟨hi, -⟩
    · obtain rfl := htouched i hi hq
      rcases Table.of_mem_update (by intro _; rfl) hf' with ⟨f, hf, hq', rfl⟩ | ⟨hf, -⟩
      · obtain rfl := htouched f hf hq'
        exact absurd (hinitial.symm.trans hfinal) (by decide)
      · -- FINAL was offered, so that INITIAL is withdrawn instead
        have hfinal' := hstored f' hf hp.symm hd.symm
        rw [hfinal] at hfinal'
        exact absurd ⟨f', hfinal', h.settled f' hf (.inr hdoubt'.1)⟩
          (hoffer.withdrawn (hstage.symm.trans hinitial) hq.2)
    · rcases Table.of_mem_update (by intro _; rfl) hf' with ⟨f, hf, hq', rfl⟩ | ⟨hf, -⟩
      · obtain rfl := htouched f hf hq'
        intro hedits
        have hinitial' := hstored i' hi hp hd
        rw [hinitial] at hinitial'
        exact hoffer.ordered (hstage.symm.trans hfinal) hedits ⟨i', hinitial', hdoubt⟩
      · exact h.single i' hi f' hf hp hd hinitial hfinal hdoubt hdoubt'

theorem DB.Ordered.intend (h : db.Ordered) {p transactionId : String} {intent : DeliveryIntent} {now : Int}
    (hs : intent.Sound) : (recordIntent ((resolveEditTarget db p intent).row p transactionId now) db).Ordered := by
  have hfresh : (resolveEditTarget db p intent).stage = .initial → (resolveEditTarget db p intent).editTargetPending = false := by
    intro hinitial
    rw [resolveEditTarget_stage] at hinitial
    unfold resolveEditTarget
    rw [if_neg fun hfinal => absurd (hinitial.symm.trans hfinal.1) (by decide)]
    exact hs hinitial
  refine h.of_rows fun r' hr' => ?_
  rcases Table.mem_upsert.mp hr' with ⟨r, -, hkey, hq, rfl⟩ | ⟨hr, -⟩ | ⟨rfl, -⟩
  · have hstage : r.stage = (resolveEditTarget db p intent).stage :=
      congrArg (fun k : String × String × DeliveryStage => k.2.2) hkey
    exact .inl ⟨hq.1, fun hinitial => hfresh (hstage.symm.trans hinitial)⟩
  · exact .inr ⟨r', hr, .refl r', fun hdoubt => hdoubt⟩
  · exact .inl ⟨rfl, hfresh⟩

/-- A waiting FINAL is yet to be offered. -/
theorem DB.Ordered.waiting (h : db.Ordered) {p d : String} {row : OutboxRow} (hrow : outboxAt db p d .final = some row)
    (hpending : row.editTargetPending = true) (hr : r ∈ db.matrixDeliveryOutbox) (hkey : key r = (p, d, .final)) :
    r.attempted = false := by
  obtain ⟨hmem, hk⟩ := Table.get?_eq_some.mp hrow
  obtain rfl := Table.eq_of_key_eq hr hmem (hkey.trans hk.symm)
  rw [Bool.eq_false_iff]
  intro hattempted
  rw [h.settled r hr (.inr hattempted)] at hpending
  cases hpending

theorem Delivers.ordered (hd : Delivers b db db') (h : db.Ordered) : db'.Ordered := by
  have hfinal : ∀ {r : OutboxRow} {p d : String}, key r = (p, d, .final) → r.stage ≠ .initial := by
    intro r p d hkey hinitial
    have hstage : r.stage = .final := congrArg (fun k : String × String × DeliveryStage => k.2.2) hkey
    exact absurd (hinitial.symm.trans hstage) (by decide)
  cases hd with
  | intend p intent transactionId now hs => exact h.intend hs
  | withdraw | drop => exact h.of_subset fun r hr => (Table.mem_delete.mp hr).1
  | target p d eventId row hrow hpending =>
    refine h.update fun r hr hq => .inl ⟨?_, fun hinitial => absurd hinitial (hfinal hq.1)⟩
    exact (h.waiting hrow hpending hr hq.1 : r.attempted = false)
  | offer p d stage device row hoffer => exact h.offer hoffer
  | device | carry =>
    exact h.update fun r _ _ => .inr ⟨⟨rfl, fun hr => hr, fun _ hr => hr⟩, fun hdoubt => hdoubt⟩
  | bind p d stage eventId =>
    refine h.update fun r _ hq => .inr ⟨⟨rfl, fun hr => hr, fun e he => ?_⟩, fun hdoubt => ?_⟩
    · rw [hq.2] at he
      cases he
    · cases hdoubt.2.1
  | release p d eventId =>
    exact h.update fun r _ hq => .inl ⟨hq.2.1, fun hinitial => absurd hinitial (hfinal hq.1)⟩
  | refuse =>
    refine h.update fun r _ _ => .inr ⟨⟨rfl, fun hr => hr, fun _ hr => hr⟩, fun hdoubt => ?_⟩
    cases hdoubt.2.2.2
  | retire | fence =>
    refine h.update fun r _ _ => .inr ⟨⟨rfl, fun _ => rfl, fun _ hr => hr⟩, fun hdoubt => ?_⟩
    cases hdoubt.2.2.1

theorem Statement.ordered (hs : Statement b db db') (h : db.Ordered) : db'.Ordered := by
  rcases hs.outbox_or with hd | ⟨hsub, -⟩
  · exact hd.ordered h
  · exact h.of_subset hsub

/-- What was offered is frozen by every statement that does not delete it. -/
theorem Delivers.frozen (hd : Delivers b db db') (h : db.Ordered) (hr : r ∈ db.matrixDeliveryOutbox)
    (hattempted : r.attempted = true) : ∃ r' ∈ db'.matrixDeliveryOutbox, r.Frozen r' := by
  have hoffered : ¬ r.attempted = false := fun hno => Bool.false_ne_true (hno.symm.trans hattempted)
  cases hd with
  | intend p intent transactionId now hs =>
    exact ⟨r, Table.mem_upsert.mpr (.inr (.inl ⟨hr, fun hq => hoffered hq.2.1⟩)), .refl r⟩
  | withdraw p d => exact ⟨r, Table.mem_delete.mpr ⟨hr, fun hq => hoffered hq.2⟩, .refl r⟩
  | drop p d => exact ⟨r, Table.mem_delete.mpr ⟨hr, fun hq => hoffered hq.2.2⟩, .refl r⟩
  | target p d eventId row hrow hpending =>
    have hspared : ¬ (key r = (p, d, .final) ∧ True) := fun hq => hoffered (h.waiting hrow hpending hr hq.1)
    exact ⟨r, Table.mem_update_of_not (by intro _; rfl) hr hspared, .refl r⟩
  | offer => exact ⟨r, Table.mem_update_of_not (by intro _; rfl) hr fun hq => hoffered hq.2, .refl r⟩
  | release => exact ⟨r, Table.mem_update_of_not (by intro _; rfl) hr fun hq => hoffered hq.2.1, .refl r⟩
  | device | refuse | carry => exact frozen_update (by intro _; rfl) hr fun _ => ⟨rfl, fun hr => hr, fun _ hr => hr⟩
  | bind =>
    refine frozen_update (by intro _; rfl) hr fun hq => ⟨rfl, fun hr => hr, fun e he => ?_⟩
    rw [hq.2] at he
    cases he
  | retire | fence => exact frozen_update (by intro _; rfl) hr fun _ => ⟨rfl, fun _ => rfl, fun _ hr => hr⟩

theorem Statement.frozen (hs : Statement b db db') (h : db.Ordered) (hr : r ∈ db.matrixDeliveryOutbox)
    (hattempted : r.attempted = true) (hkept : ¬ b.deletes r) : ∃ r' ∈ db'.matrixDeliveryOutbox, r.Frozen r' := by
  rcases hs.outbox_or with hd | ⟨-, hkeep⟩
  · exact hd.frozen h hr hattempted
  · exact ⟨r, (hkeep r hr).resolve_right hkept, .refl r⟩

/-! ## Runs -/

/-- In every reachable state, where both stages of a delivery were offered and neither outcome is known, FINAL is an
edit: no answer is on its way twice. -/
theorem one_send_in_doubt {host : Host} {db : DB} (h : Reachable host .any db) (p d : String)
    (initial final : OutboxRow) (hinitial : initial ∈ outboxAt db p d .initial) (hfinal : final ∈ outboxAt db p d .final)
    (hdoubt : initial.InDoubt) (hdoubt' : final.InDoubt) : final.editsEventId ≠ none := by
  have hordered : db.Ordered := h.invariant (Scope.run_covers _ _ _) ordered_init fun _ _ hs ho => hs.ordered ho
  obtain ⟨hi, hkey⟩ := Table.get?_eq_some.mp hinitial
  obtain ⟨hf, hkey'⟩ := Table.get?_eq_some.mp hfinal
  have hk : ∀ {r : OutboxRow} {stage : DeliveryStage}, key r = (p, d, stage) →
      r.principalId = p ∧ r.deliveryId = d ∧ r.stage = stage := by
    rintro r stage ⟨⟩
    exact ⟨rfl, rfl, rfl⟩
  refine hordered.single initial hi final hf ?_ ?_ (hk hkey).2.2 (hk hkey').2.2 hdoubt hdoubt'
  · rw [(hk hkey).1, (hk hkey').1]
  · rw [(hk hkey).2.1, (hk hkey').2.1]

/-- The scope of a run in which the deliveries of `cards` only may be deleted after they were offered. -/
def Scope.sending (cards : String → String → Prop) : Scope :=
  { Scope.any with
    approves := cards
    deletes := fun r => cards r.principalId r.deliveryId }

/-- Every operation may be part of such a run, but for the maintenance of grants. -/
theorem Scope.sending_bears (cards : String → String → Prop) {op : Op} (h : ¬ op.Sheds) : (Scope.sending cards).Bears op :=
  ⟨fun hs => absurd hs h, fun _ => trivial, fun _ => trivial, fun hs => absurd hs h,
    fun _ => trivial, fun _ => trivial, fun _ => trivial, fun _ => trivial⟩

theorem RunWithin.writes_sending {host : Host} {cards : String → String → Prop} (h : RunWithin host (.sending cards) db db') :
    Writes (.sending cards) db db' :=
  h.within (fun _ _ hw => hw) fun p roomId =>
    respects_advanceMembershipEpoch (b := .sending cards) ⟨fun _ hcards => hcards, trivial, trivial⟩ host p roomId

/-- What was offered goes on under its transaction id with the same payload, result and edit target, and keeps the event
it was first acknowledged with, whatever runs: cards apart, whose deliveries are deleted. -/
theorem offered_frozen {host : Host} {cards : String → String → Prop} {s t : DB}
    (hs : ReachableWithin host (.sending cards) s) (hrun : RunWithin host (.sending cards) s t) (p d : String)
    (stage : DeliveryStage) (row : OutboxRow) (hrow : row ∈ outboxAt s p d stage) (hattempted : row.attempted = true)
    (hcard : ¬ cards p d) : ∃ row' ∈ outboxAt t p d stage, row.Frozen row' ∧ row'.editTargetPending = false := by
  obtain ⟨clock, hinit⟩ := hs
  have hstatements := hinit.writes_sending.statements (Scope.allows_init _ clock)
  have hordered : s.Ordered := statements_preserve (fun _ _ h ho => h.ordered ho) hstatements (ordered_init clock)
  have hallows := statements_preserve (fun _ _ h ha => h.allows ha) hstatements (Scope.allows_init _ clock)
  obtain ⟨hmem, hkey⟩ := Table.get?_eq_some.mp hrow
  have hkept : ∀ r : OutboxRow, row.Frozen r → ¬ cards r.principalId r.deliveryId := by
    intro r hr
    rw [hr.same]
    cases hkey
    exact hcard
  obtain ⟨ht, row', hmem', hfrozen⟩ : t.Ordered ∧ ∃ r ∈ t.matrixDeliveryOutbox, row.Frozen r := by
    refine statements_preserve (P := fun db => db.Ordered ∧ ∃ r ∈ db.matrixDeliveryOutbox, row.Frozen r)
      (fun u v h hu => ?_) (hrun.writes_sending.statements hallows) ⟨hordered, row, hmem, .refl row⟩
    rcases hu with ⟨ho, r, hr, hfrozen⟩
    have hoffered : r.attempted = true := by
      rw [hfrozen.same]
      exact hattempted
    obtain ⟨r', hr', hnext⟩ := h.frozen ho hr hoffered (hkept r hfrozen)
    exact ⟨h.ordered ho, r', hr', hfrozen.trans hnext⟩
  refine ⟨row', Table.get?_eq_some.mpr ⟨hmem', hfrozen.key_eq.trans hkey⟩, hfrozen, ht.settled row' hmem' (.inr ?_)⟩
  rw [hfrozen.same]
  exact hattempted

/-! ## A placeholder and an edit -/

namespace EditOnItsWay

open OneDelivery

def offered : DB := step host "@p" (.claimMatrixDelivery "d" .initial none) enqueued

def edit : DeliveryRequest := { request with stage := .final, editsEventId := some "$m" }

def edited : DB := step host "@p" (.claimMatrixDelivery "d" .final none) (step host "@p" (.enqueueMatrixDelivery edit) offered)

def refused : DB := step host "@p" (.recordPermanentMatrixDeliveryFailure "d" .initial "M_FORBIDDEN") edited

theorem edit_in_doubt : ∃ final ∈ outboxAt edited "@p" "d" .final, final.editsEventId ≠ none := by
  have hreached : Reachable host .any edited :=
    ⟨fun _ => 0, ((((Relation.ReflTransGen.single (.op "@p" (.enqueueMatrixDelivery request) trivial)).tail
      (.op "@p" (.claimMatrixDelivery "d" .initial none) trivial)).tail
      (.op "@p" (.enqueueMatrixDelivery edit) trivial)).tail (.op "@p" (.claimMatrixDelivery "d" .final none) trivial))⟩
  have hsent : ∃ initial ∈ outboxAt edited "@p" "d" .initial, initial.InDoubt := by decide +kernel
  have hsent' : ∃ final ∈ outboxAt edited "@p" "d" .final, final.InDoubt := by decide +kernel
  obtain ⟨initial, hinitial, hdoubt⟩ := hsent
  obtain ⟨final, hfinal, hdoubt'⟩ := hsent'
  exact ⟨final, hfinal, one_send_in_doubt hreached "@p" "d" initial final hinitial hfinal hdoubt hdoubt'⟩

theorem refused_frozen : ∃ row ∈ outboxAt offered "@p" "d" .initial, ∃ row' ∈ outboxAt refused "@p" "d" .initial,
    row.Frozen row' ∧ row'.editTargetPending = false := by
  have hbears : ∀ {op : Op}, ¬ op.Sheds → (Scope.sending fun _ _ => False).Bears op := Scope.sending_bears _
  have hoffered : RunWithin host (.sending fun _ _ => False) (DB.init fun _ => 0) offered :=
    (Relation.ReflTransGen.single (.op "@p" (.enqueueMatrixDelivery request) (hbears id) trivial)).tail
      (.op "@p" (.claimMatrixDelivery "d" .initial none) (hbears id) trivial)
  have hrefused : RunWithin host (.sending fun _ _ => False) offered refused :=
    ((Relation.ReflTransGen.single (.op "@p" (.enqueueMatrixDelivery edit) (hbears id) trivial)).tail
      (.op "@p" (.claimMatrixDelivery "d" .final none) (hbears id) trivial)).tail
      (.op "@p" (.recordPermanentMatrixDeliveryFailure "d" .initial "M_FORBIDDEN") (hbears id) trivial)
  have hsent : ∃ row ∈ outboxAt offered "@p" "d" .initial, row.attempted = true := by decide +kernel
  obtain ⟨row, hrow, hattempted⟩ := hsent
  exact ⟨row, hrow, offered_frozen ⟨_, hoffered⟩ hrefused "@p" "d" .initial row hrow hattempted id⟩

end EditOnItsWay

end MindRoom
