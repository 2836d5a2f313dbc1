import MindRoom.StoreWrites

/-! # Tenure ownership of the outbox

A delivery is enqueued under one membership of one room. Until it is first offered a fence
retires it with the tenure, so what is offered belongs to the tenure that asked for it. Approval
cards answer to their own cleanup and are set apart.
-/

namespace MindRoom

open Transaction

/-! ## The invariant -/

/-- The rows of one delivery share their room and membership, an acknowledged row was attempted,
and an unretired row yet to be offered belongs to the room's current tenure: cards apart, and
rooms between the end of a tenure and the retirement behind it. -/
structure DB.Tenured (cards away : String → String → Prop) (db : DB) : Prop where
  claimed : ∀ r ∈ db.matrixDeliveryOutbox, r.acknowledgedEventId ≠ none → r.attempted = true
  shared : ∀ r ∈ db.matrixDeliveryOutbox, ∀ r' ∈ db.matrixDeliveryOutbox,
    r.principalId = r'.principalId → r.deliveryId = r'.deliveryId →
      r.roomId = r'.roomId ∧ r.membershipEpoch = r'.membershipEpoch
  current : ∀ r ∈ db.matrixDeliveryOutbox, r.attempted = false → r.retired = false →
    ¬ cards r.principalId r.deliveryId → ¬ away r.principalId r.roomId →
      r.membershipEpoch = currentMembershipEpoch db r.principalId r.roomId

/-- The retired rows stay retired, cards apart. -/
def KeepsRetired (cards : String → String → Prop) (db db' : DB) : Prop :=
  ∀ r ∈ db.matrixDeliveryOutbox, r.retired = true → ¬ cards r.principalId r.deliveryId →
    ∃ r' ∈ db'.matrixDeliveryOutbox, key r' = key r ∧ r'.retired = true

structure OutboxRow.Stays (r r' : OutboxRow) : Prop where
  principalId : r'.principalId = r.principalId
  deliveryId : r'.deliveryId = r.deliveryId
  roomId : r'.roomId = r.roomId
  membershipEpoch : r'.membershipEpoch = r.membershipEpoch
  attempted : r.attempted = true → r'.attempted = true
  retired : r.retired = true → r'.retired = true
  claimed : (r.acknowledgedEventId ≠ none → r.attempted = true) →
    r'.acknowledgedEventId ≠ none → r'.attempted = true

/-- A row that may be inserted: it has the owner of its delivery. -/
structure OutboxRow.Enters (cards away : String → String → Prop) (db : DB) (r : OutboxRow) :
    Prop where
  claimed : r.acknowledgedEventId = none
  shared : ∀ r' ∈ db.matrixDeliveryOutbox, r'.principalId = r.principalId →
    r'.deliveryId = r.deliveryId → r'.roomId = r.roomId ∧ r'.membershipEpoch = r.membershipEpoch
  current : ¬ cards r.principalId r.deliveryId → ¬ away r.principalId r.roomId →
    r.membershipEpoch = currentMembershipEpoch db r.principalId r.roomId

theorem OutboxRow.Stays.refl (r : OutboxRow) : r.Stays r :=
  ⟨rfl, rfl, rfl, rfl, fun h => h, fun h => h, fun h => h⟩

theorem KeepsRetired.refl (cards : String → String → Prop) (db : DB) : KeepsRetired cards db db :=
  fun r hr hretired _ => ⟨r, hr, rfl, hretired⟩

theorem KeepsRetired.trans {cards : String → String → Prop} {s t u : DB}
    (h : KeepsRetired cards s t) (h' : KeepsRetired cards t u) : KeepsRetired cards s u := by
  intro r hr hretired hcard
  obtain ⟨r₁, hr₁, hk₁, hretired₁⟩ := h r hr hretired hcard
  have hp : r₁.principalId = r.principalId := congrArg (fun k => k.1) hk₁
  have hd : r₁.deliveryId = r.deliveryId :=
    congrArg (fun k : String × String × DeliveryStage => k.2.1) hk₁
  obtain ⟨r₂, hr₂, hk₂, hretired₂⟩ := h' r₁ hr₁ hretired₁ (by rw [hp, hd]; exact hcard)
  exact ⟨r₂, hr₂, hk₂.trans hk₁, hretired₂⟩

section

variable {cards away : String → String → Prop} {db db' : DB}

theorem tenured_init (clock : ℕ → Int) : (DB.init clock).Tenured cards away :=
  ⟨fun _ h => absurd h List.not_mem_nil, fun _ h => absurd h List.not_mem_nil, fun _ h => absurd h List.not_mem_nil⟩

/-- The invariant is kept when every row stays or enters, and no tenure moves. -/
theorem DB.Tenured.of_rows (h : db.Tenured cards away)
    (hepoch : ∀ p r, currentMembershipEpoch db' p r = currentMembershipEpoch db p r)
    (new : Option OutboxRow) (hrows : ∀ r' ∈ db'.matrixDeliveryOutbox,
      (∃ r ∈ db.matrixDeliveryOutbox, r.Stays r') ∨ r' ∈ new ∧ r'.Enters cards away db) :
    db'.Tenured cards away where
  claimed r' hr' := by
    rcases hrows r' hr' with ⟨r, hr, hs⟩ | ⟨_, he⟩
    · exact hs.claimed (h.claimed r hr)
    · intro hack
      exact absurd he.claimed hack
  shared r₁ hr₁ r₂ hr₂ hp hd := by
    rcases hrows r₁ hr₁ with ⟨s₁, hs₁, h₁⟩ | ⟨hnew, he⟩
    · rcases hrows r₂ hr₂ with ⟨s₂, hs₂, h₂⟩ | ⟨_, he⟩
      · rw [h₁.principalId, h₂.principalId] at hp
        rw [h₁.deliveryId, h₂.deliveryId] at hd
        rw [h₁.roomId, h₂.roomId, h₁.membershipEpoch, h₂.membershipEpoch]
        exact h.shared s₁ hs₁ s₂ hs₂ hp hd
      · rw [h₁.roomId, h₁.membershipEpoch]
        exact he.shared s₁ hs₁ (h₁.principalId ▸ hp) (h₁.deliveryId ▸ hd)
    · rcases hrows r₂ hr₂ with ⟨s₂, hs₂, h₂⟩ | ⟨hnew', _⟩
      · obtain ⟨hroom, hmember⟩ :=
          he.shared s₂ hs₂ (h₂.principalId ▸ hp.symm) (h₂.deliveryId ▸ hd.symm)
        rw [h₂.roomId, h₂.membershipEpoch]
        exact ⟨hroom.symm, hmember.symm⟩
      · obtain rfl : r₁ = r₂ := Option.mem_unique hnew hnew'
        exact ⟨rfl, rfl⟩
  current r' hr' hattempted hretired hcard haway := by
    rw [hepoch]
    rcases hrows r' hr' with ⟨r, hr, hs⟩ | ⟨_, he⟩
    · rw [hs.principalId, hs.deliveryId] at hcard
      rw [hs.principalId, hs.roomId] at haway
      rw [hs.membershipEpoch, hs.principalId, hs.roomId]
      refine h.current r hr ?_ ?_ hcard haway
      · exact Bool.eq_false_iff.mpr fun ha => Bool.eq_false_iff.mp hattempted (hs.attempted ha)
      · exact Bool.eq_false_iff.mpr fun ha => Bool.eq_false_iff.mp hretired (hs.retired ha)
    · exact he.current hcard haway

/-- What one statement is to keep, whatever rooms are away. -/
structure KeepsTenure (cards : String → String → Prop) (db db' : DB) : Prop where
  tenured : ∀ away, db.Tenured cards away → db'.Tenured cards away
  retired : KeepsRetired cards db db'

theorem KeepsTenure.refl (cards : String → String → Prop) (db : DB) : KeepsTenure cards db db :=
  ⟨fun _ h => h, .refl cards db⟩

theorem KeepsTenure.trans {s t u : DB} (h : KeepsTenure cards s t) (h' : KeepsTenure cards t u) :
    KeepsTenure cards s u :=
  ⟨fun away hs => h'.tenured away (h.tenured away hs), h.retired.trans h'.retired⟩

instance (cards : String → String → Prop) : IsPreorder DB (KeepsTenure cards) where
  refl := KeepsTenure.refl cards
  trans _ _ _ := KeepsTenure.trans

/-- Deleting rows keeps tenures, when no retired row goes but a card's. -/
theorem keepsTenure_of_subset
    (hepoch : ∀ p r, currentMembershipEpoch db' p r = currentMembershipEpoch db p r)
    (hsub : ∀ r ∈ db'.matrixDeliveryOutbox, r ∈ db.matrixDeliveryOutbox)
    (hkeep : ∀ r ∈ db.matrixDeliveryOutbox, r.retired = true → ¬ cards r.principalId r.deliveryId →
      r ∈ db'.matrixDeliveryOutbox) : KeepsTenure cards db db' where
  tenured away h := by
    refine ⟨fun r hr => h.claimed r (hsub r hr),
      fun r hr r' hr' => h.shared r (hsub r hr) r' (hsub r' hr'), fun r hr => ?_⟩
    rw [hepoch]
    exact h.current r (hsub r hr)
  retired r hr hretired hcard := ⟨r, hkeep r hr hretired hcard, rfl, hretired⟩

/-- An update keeps tenures when each row it touches stays. -/
theorem keepsTenure_update {q : OutboxRow → Prop} [DecidablePred q] {f : OutboxRow → OutboxRow}
    {hf : ∀ r, key (f r) = key r} (hs : ∀ r ∈ db.matrixDeliveryOutbox, q r → r.Stays (f r)) : KeepsTenure cards db
      { db with matrixDeliveryOutbox := db.matrixDeliveryOutbox.update q f hf } where
  tenured away h := by
    refine h.of_rows (fun _ _ => rfl) none fun r' hr' => .inl ?_
    have hr' : r' ∈ db.matrixDeliveryOutbox.update q f hf := hr'
    rcases Table.mem_update.mp hr' with ⟨r, hr, hq, rfl⟩ | ⟨hr, _⟩
    · exact ⟨r, hr, hs r hr hq⟩
    · exact ⟨r', hr, .refl r'⟩
  retired r hr hretired hcard := by
    by_cases hq : q r
    · have hmem : f r ∈ db.matrixDeliveryOutbox.update q f hf :=
        Table.mem_update.mpr (.inl ⟨r, hr, hq, rfl⟩)
      exact ⟨f r, hmem, hf r, (hs r hr hq).retired hretired⟩
    · have hmem : r ∈ db.matrixDeliveryOutbox.update q f hf :=
        Table.mem_update.mpr (.inr ⟨hr, hq⟩)
      exact ⟨r, hmem, rfl, hretired⟩

/-! ## Statements -/

theorem resolveEditTarget_owner (db : DB) (p : String) (intent : DeliveryIntent) :
    (resolveEditTarget db p intent).deliveryId = intent.deliveryId ∧
      (resolveEditTarget db p intent).roomId = intent.roomId ∧
        (resolveEditTarget db p intent).membershipEpoch = intent.membershipEpoch := by
  unfold resolveEditTarget
  split
  · split
    · exact ⟨rfl, rfl, rfl⟩
    · split
      · exact ⟨rfl, rfl, rfl⟩
      · split <;> exact ⟨rfl, rfl, rfl⟩
  · exact ⟨rfl, rfl, rfl⟩

/-- An accepted intent agrees with every row of its delivery. -/
theorem owner_of_not_refuses (h : db.Tenured cards away) {p : String} {intent : DeliveryIntent}
    (howner : ¬ OwnerRefuses db p intent) {r : OutboxRow} (hr : r ∈ db.matrixDeliveryOutbox)
    (hp : r.principalId = p) (hd : r.deliveryId = intent.deliveryId) :
    r.roomId = intent.roomId ∧ r.membershipEpoch = intent.membershipEpoch := by
  obtain ⟨owner, hget⟩ : ∃ owner, turnOwner db p intent.deliveryId = some owner := by
    have hstored : outboxAt db p intent.deliveryId r.stage = some r := by
      have hkey : key r = (p, intent.deliveryId, r.stage) := by
        rw [← hp, ← hd]
        rfl
      exact Table.get?_eq_some.mpr ⟨hr, hkey⟩
    unfold turnOwner
    cases hfinal : outboxAt db p intent.deliveryId .final with
    | some final => exact ⟨final, rfl⟩
    | none =>
      cases hstage : r.stage with
      | initial => exact ⟨r, by rw [← hstored, hstage]; rfl⟩
      | final =>
        rw [hstage, hfinal] at hstored
        cases hstored
  have hmem : owner ∈ db.matrixDeliveryOutbox ∧ owner.principalId = p ∧
      owner.deliveryId = intent.deliveryId := by
    unfold turnOwner at hget
    rcases Option.or_eq_some_iff.mp hget with hstored | ⟨_, hstored⟩
    all_goals
      obtain ⟨hmem, hkey⟩ := Table.get?_eq_some.mp hstored
      exact ⟨hmem, congrArg (fun k => k.1) hkey, congrArg (fun k : String × String × DeliveryStage => k.2.1) hkey⟩
  obtain ⟨hroom, hepoch⟩ := h.shared r hr owner hmem.1 (hp.trans hmem.2.1.symm)
    (hd.trans hmem.2.2.symm)
  have hagree : ¬ (owner.retired = true ∨ owner.roomId ≠ intent.roomId ∨
      owner.membershipEpoch ≠ intent.membershipEpoch) := fun hno => howner ⟨owner, hget, hno⟩
  simp only [not_or, not_not] at hagree
  exact ⟨hroom.trans hagree.2.1, hepoch.trans hagree.2.2⟩

/-- Recording an accepted intent keeps tenures: it takes the room's current one, or replaces an
intent of its own delivery. -/
theorem keepsTenure_intend {p transactionId : String} {intent : DeliveryIntent} {now : Int}
    (howner : ¬ OwnerRefuses db p intent) (ha : intent.Authorized db p ∨ cards p intent.deliveryId) :
    KeepsTenure cards db
      (recordIntent ((resolveEditTarget db p intent).row p transactionId now) db) := by
  obtain ⟨hdelivery, hroom, hepoch⟩ := resolveEditTarget_owner db p intent
  have hstage : (resolveEditTarget db p intent).stage = intent.stage := resolveEditTarget_stage ..
  generalize hrow : (resolveEditTarget db p intent).row p transactionId now = row
  have hp : row.principalId = p := by rw [← hrow]; rfl
  have hd : row.deliveryId = intent.deliveryId := by rw [← hrow]; exact hdelivery
  have hs : row.stage = intent.stage := by rw [← hrow]; exact hstage
  have hr : row.roomId = intent.roomId := by rw [← hrow]; exact hroom
  have he : row.membershipEpoch = intent.membershipEpoch := by rw [← hrow]; exact hepoch
  have hack : row.acknowledgedEventId = none := by rw [← hrow]; rfl
  have hkey : key row = (p, intent.deliveryId, intent.stage) := by rw [← hp, ← hd, ← hs]; rfl
  refine ⟨fun away h => ?_, fun r₀ hr₀ hretired _ => ?_⟩
  · have hagree : ∀ r ∈ db.matrixDeliveryOutbox, r.principalId = row.principalId →
        r.deliveryId = row.deliveryId → r.roomId = row.roomId ∧
          r.membershipEpoch = row.membershipEpoch := by
      intro r hr' hp' hd'
      rw [hr, he]
      exact owner_of_not_refuses h howner hr' (hp'.trans hp) (hd'.trans hd)
    refine h.of_rows (fun _ _ => rfl) (some row) fun r' hr' => ?_
    rcases Table.mem_upsert.mp hr' with ⟨r₁, hr₁, hk, _, rfl⟩ | ⟨hold, _⟩ | ⟨rfl, hfree⟩
    · -- the replaced intent had the same owner
      obtain ⟨hroom₁, hepoch₁⟩ := hagree r₁ hr₁ (congrArg (fun k => k.1) hk)
        (congrArg (fun k : String × String × DeliveryStage => k.2.1) hk)
      exact .inl ⟨r₁, hr₁, rfl, rfl, hroom₁.symm, hepoch₁.symm, fun h => h, fun h => h, fun h => h⟩
    · exact .inl ⟨r', hold, .refl r'⟩
    · refine .inr ⟨rfl, hack, hagree, fun hcard _ => ?_⟩
      rcases ha with (hcurrent | ⟨stored, hstored, _⟩) | hcards
      · rw [he, hp, hr]
        exact hcurrent.1.symm
      · obtain ⟨hmem, hk⟩ := Table.get?_eq_some.mp hstored
        exact absurd (hk.trans hkey.symm) (hfree stored hmem)
      · rw [hp, hd] at hcard
        exact absurd hcards hcard
  · by_cases hreplaced : key r₀ = key row ∧ r₀.attempted = false ∧ r₀.permanentFailureReason = none
    · refine ⟨replaceIntent row r₀, Table.mem_upsert.mpr (.inl ?_), rfl, hretired⟩
      exact ⟨r₀, hr₀, hreplaced.1, hreplaced.2, rfl⟩
    · exact ⟨r₀, Table.mem_upsert.mpr (.inr (.inl ⟨hr₀, hreplaced⟩)), rfl, hretired⟩

/-- A carried card takes both its stages along. -/
theorem keepsTenure_carry {p d : String} {epoch : Int} (hcard : cards p d) : KeepsTenure cards db
      { db with
        matrixDeliveryOutbox := db.matrixDeliveryOutbox.update
          (fun r => r.principalId = p ∧ r.deliveryId = d)
          (fun r => { r with membershipEpoch := epoch }) } where
  tenured away h := by
    refine ⟨Table.forall_mem_update (by intro _; rfl) h.claimed fun _ _ _ hr => hr, ?_, ?_⟩
    · intro r₁ hr₁ r₂ hr₂ hp hd
      rcases Table.of_mem_update (by intro _; rfl) hr₁ with ⟨s₁, hs₁, hq₁, rfl⟩ | ⟨hs₁, hq₁⟩
      · rcases Table.of_mem_update (by intro _; rfl) hr₂ with ⟨s₂, hs₂, _, rfl⟩ | ⟨_, hq₂⟩
        · exact ⟨(h.shared s₁ hs₁ s₂ hs₂ hp hd).1, rfl⟩
        · exact absurd ⟨hp.symm.trans hq₁.1, hd.symm.trans hq₁.2⟩ hq₂
      · rcases Table.of_mem_update (by intro _; rfl) hr₂ with ⟨s₂, _, hq₂, rfl⟩ | ⟨hs₂, _⟩
        · exact absurd ⟨hp.trans hq₂.1, hd.trans hq₂.2⟩ hq₁
        · exact h.shared r₁ hs₁ r₂ hs₂ hp hd
    · intro r hr hattempted hretired hno haway
      rcases Table.of_mem_update (by intro _; rfl) hr with ⟨s, _, hq, rfl⟩ | ⟨hs, _⟩
      · exact absurd (hq.1 ▸ hq.2 ▸ hcard) hno
      · exact h.current r hs hattempted hretired hno haway
  retired r hr hretired hno := by
    have hother : ¬ (r.principalId = p ∧ r.deliveryId = d) := by
      rintro ⟨rfl, rfl⟩
      exact hno hcard
    exact ⟨r, Table.mem_update_of_not (by intro _; rfl) hr hother, rfl, hretired⟩

/-- What a scope may do to the deliveries that are not of cards. -/
structure Scope.Spares (b : Scope) (cards : String → String → Prop) : Prop where
  approves : ∀ p d, b.approves p d → cards p d
  deletes : ∀ r, b.deletes r → cards r.principalId r.deliveryId
  acks : ∀ r, b.acks r → r.attempted = true

theorem Delivers.keepsTenure {b : Scope} (hb : b.Spares cards) (h : Delivers b db db') :
    KeepsTenure cards db db' := by
  cases h with
  | intend p intent transactionId now _ howner ha =>
    exact keepsTenure_intend howner (ha.imp_right fun happroves => hb.approves p _ happroves.2)
  | withdraw p d row hrow hretired _ =>
    refine keepsTenure_of_subset (fun _ _ => rfl) (fun r hr => (Table.mem_delete.mp hr).1)
      fun r hr hretired' _ => Table.mem_delete.mpr ⟨hr, ?_⟩
    -- the withdrawn INITIAL is not retired
    rintro ⟨hk, _⟩
    obtain ⟨hmem, hkey⟩ := Table.get?_eq_some.mp hrow
    have heq : r = row := Table.eq_of_key_eq hr hmem (hk.trans hkey.symm)
    rw [heq, hretired] at hretired'
    cases hretired'
  | drop p d happroves =>
    refine keepsTenure_of_subset (fun _ _ => rfl) (fun r hr => (Table.mem_delete.mp hr).1)
      fun r hr _ hcard => Table.mem_delete.mpr ⟨hr, ?_⟩
    rintro ⟨rfl, rfl, _⟩
    exact hcard (hb.approves _ _ happroves)
  | offer p d stage device row _ =>
    exact keepsTenure_update fun r _ _ =>
      ⟨rfl, rfl, rfl, rfl, fun _ => rfl, fun h => h, fun _ _ => rfl⟩
  | bind p d stage eventId hack =>
    refine keepsTenure_update fun r hr hq => ?_
    have hattempted : r.attempted = true :=
      hb.acks r (hack r (Table.get?_eq_some.mpr ⟨hr, hq.1⟩))
    exact ⟨rfl, rfl, rfl, rfl, fun h => h, fun h => h, fun _ _ => hattempted⟩
  | retire p d stage =>
    exact keepsTenure_update fun r _ _ =>
      ⟨rfl, rfl, rfl, rfl, fun h => h, fun _ => rfl, fun h => h⟩
  | fence p r =>
    exact keepsTenure_update fun r _ _ =>
      ⟨rfl, rfl, rfl, rfl, fun h => h, fun _ => rfl, fun h => h⟩
  | target | device | release | refuse =>
    exact keepsTenure_update fun r _ _ =>
      ⟨rfl, rfl, rfl, rfl, fun h => h, fun h => h, fun h => h⟩
  | carry p d epoch happroves => exact keepsTenure_carry (hb.approves p d happroves)

theorem Statement.keepsTenure {b : Scope} (hb : b.Spares cards) (he : ¬ b.ends)
    (h : Statement b db db') : KeepsTenure cards db db' := by
  rcases h.outbox_or with h' | ⟨hsub, hkeep⟩
  · exact h'.keepsTenure hb
  · refine keepsTenure_of_subset (h.epoch he) hsub fun r hr _ hcard => ?_
    exact (hkeep r hr).resolve_right fun hdeletes => hcard (hb.deletes r hdeletes)

end

/-! ## Runs -/

/-- The scope of a run in which `cards` are the deliveries of approval cards, and no delivery is
acknowledged that was not claimed. -/
def Scope.tenured (cards : String → String → Prop) : Scope :=
  { Scope.any with
    approves := cards
    deletes := fun r => cards r.principalId r.deliveryId
    acks := fun r => r.attempted = true
    ends := False }

theorem Scope.tenured_spares (cards : String → String → Prop) : (Scope.tenured cards).Spares cards :=
  ⟨fun _ _ h => h, fun _ h => h, fun _ h => h⟩

/-- Every operation may be part of such a run, but for the maintenance of grants. -/
theorem Scope.tenured_bears (cards : String → String → Prop) {op : Op} (h : ¬ op.Sheds) :
    (Scope.tenured cards).Bears op :=
  ⟨fun hs => absurd hs h, fun _ => trivial, fun _ => trivial, fun hs => absurd hs h,
    fun _ => trivial, fun _ => trivial, fun _ => trivial, fun _ => trivial⟩

/-- What a sequence of statements keeps, of the deliveries and of the cards it may touch. -/
structure Tends (cards : String → String → Prop) (db db' : DB) : Prop where
  keeps : (Scope.tenured cards).Allows db → KeepsTenure cards db db'
  allows : (Scope.tenured cards).Allows db → (Scope.tenured cards).Allows db'

instance (cards : String → String → Prop) : IsPreorder DB (Tends cards) where
  refl db := ⟨fun _ => .refl cards db, fun h => h⟩
  trans _ _ _ h h' :=
    ⟨fun ha => (h.keeps ha).trans (h'.keeps (h.allows ha)), fun ha => h'.allows (h.allows ha)⟩

section

variable {cards : String → String → Prop} {host : Host} {db db' : DB}

theorem Writes.tends (h : Writes (.tenured cards) db db') : Tends cards db db' where
  keeps ha := statements_within (fun _ _ hs => hs.keepsTenure (Scope.tenured_spares cards) id)
    (h.statements ha)
  allows ha := statements_preserve (fun _ _ hs => hs.allows) (h.statements ha) ha

/-- The tenure that ends takes the unattempted deliveries of its room along. -/
theorem tenured_retireUnattempted {away : String → String → Prop} {p r : String}
    (h : db.Tenured cards fun p' r' => away p' r' ∨ (p' = p ∧ r' = r))
    (hcards : ∀ card ∈ db.approvalCards, cards card.principalId card.deliveryId) :
    (retireUnattempted p r db).Tenured cards away := by
  have hkeeps : KeepsTenure cards db (retireUnattempted p r db) :=
    (@Delivers.fence (.tenured cards) p r db).keepsTenure (Scope.tenured_spares cards)
  have hretire := hkeeps.tenured _ h
  refine ⟨hretire.claimed, hretire.shared, fun row hrow hattempted hretired hcard haway => ?_⟩
  refine hretire.current row hrow hattempted hretired hcard ?_
  rintro (hold | ⟨hp, hr⟩)
  · exact haway hold
  · rcases Table.of_mem_update OutboxRow.key_retired hrow with ⟨_, _, _, rfl⟩ | ⟨hmem, hspared⟩
    · cases hretired
    · -- the fence spares what was acknowledged, offered or is a card's
      refine hspared ⟨hp, hr, ?_, hattempted, ?_⟩
      · by_contra hack
        rw [h.claimed row hmem hack] at hattempted
        cases hattempted
      · refine Table.get?_eq_none.mpr fun card hmemcard hk => hcard ?_
        have hallowed := hcards card hmemcard
        have hkp : card.principalId = row.principalId := congrArg (fun k => k.1) hk
        have hkd : card.deliveryId = row.deliveryId := congrArg (fun k => k.2) hk
        rw [hkp, hkd] at hallowed
        exact hallowed

theorem respects_advance_tends (p r : String) : Respects (Tends cards) (advanceMembershipEpoch host p r) := by
  refine ⟨fun s epoch s' h => ?_⟩
  obtain ⟨t, hfirst, hrest⟩ := advance_cases (b := .tenured cards) (fun _ h => h) trivial h
  have hfirst := hfirst.tends
  have hrest := hrest.tends
  have hcards : (Scope.tenured cards).Allows s → (Scope.tenured cards).Allows t :=
    fun ha => hfirst.allows ⟨ha.cards, ha.calls⟩
  refine ⟨fun ha => ?_, fun ha => hrest.allows ⟨(hcards ha).cards, (hcards ha).calls⟩⟩
  have hfirst := hfirst.keeps ⟨ha.cards, ha.calls⟩
  have hrest := hrest.keeps ⟨(hcards ha).cards, (hcards ha).calls⟩
  have hmiddle : KeepsTenure cards t (retireUnattempted p r t) :=
    (@Delivers.fence (.tenured cards) p r t).keepsTenure (Scope.tenured_spares cards)
  refine ⟨fun away h => ?_, ?_⟩
  · refine hrest.tenured away (tenured_retireUnattempted ?_ (hcards ha).cards)
    refine hfirst.tenured _ ⟨h.claimed, h.shared, fun row hrow hattempted hretired hcard haway => ?_⟩
    have hother : ¬ (p, r) = (row.principalId, row.roomId) := by
      rintro hk
      rw [Prod.mk.injEq] at hk
      exact haway (.inr ⟨hk.1.symm, hk.2.symm⟩)
    have hepoch := currentMembershipEpoch_setMembershipEpoch p r
      (currentMembershipEpoch s p r + 1) s row.principalId row.roomId
    rw [if_neg hother] at hepoch
    refine Eq.trans ?_ hepoch.symm
    exact h.current row hrow hattempted hretired hcard fun hold => haway (.inl hold)
  · exact (hfirst.retired.trans hmiddle.retired).trans hrest.retired

theorem RunWithin.tends (h : RunWithin host (.tenured cards) db db') : Tends cards db db' :=
  h.within (fun _ _ hw => hw.tends) respects_advance_tends

/-- In every reachable state the deliveries are tenured, and no room is away. -/
theorem ReachableWithin.tenured (h : ReachableWithin host (.tenured cards) db) :
    (Scope.tenured cards).Allows db ∧ db.Tenured cards fun _ _ => False := by
  obtain ⟨clock, hrun⟩ := h
  have ha := Scope.allows_init (.tenured cards) clock
  exact ⟨hrun.tends.allows ha, (hrun.tends.keeps ha).tenured _ (tenured_init clock)⟩

end

/-- In every reachable state what a claim offers first belongs to the room's current tenure, a
delivery's stages share room and membership, and what is retired is never offered again. -/
theorem outbox_tenure {host : Host} {cards : String → String → Prop} {s : DB}
    (hs : ReachableWithin host (.tenured cards) s) (p d : String) :
    (∀ stage device row, (claim p d stage device s).1 = some row → row.attempted = false →
      ¬ cards p d → row.membershipEpoch = currentMembershipEpoch s p row.roomId) ∧
    (∀ initial ∈ outboxAt s p d .initial, ∀ final ∈ outboxAt s p d .final,
      initial.roomId = final.roomId ∧ initial.membershipEpoch = final.membershipEpoch) ∧
    ∀ stage, ∀ row ∈ outboxAt s p d stage, row.retired = true → (∀ device, (claim p d stage device s).1 = none) ∧
        (¬ cards p d → ∀ t, RunWithin host (.tenured cards) s t → (∃ row' ∈ outboxAt t p d stage, row'.retired = true) ∧
            ∀ device, (claim p d stage device t).1 = none) := by
  obtain ⟨hallows, htenured⟩ := hs.tenured
  refine ⟨fun stage device row hclaim hfirst hcard => ?_, fun initial hinitial final hfinal => ?_,
    fun stage row hrow hretired => ⟨fun device => claim_retired hrow hretired, ?_⟩⟩
  · obtain ⟨current, hc⟩ := claim_returns hclaim
    obtain ⟨hmem, hkey⟩ := Table.get?_eq_some.mp hc.stored
    have hp : current.principalId = p := congrArg (fun k => k.1) hkey
    have hd : current.deliveryId = d := deliveryId_of_outboxAt hc.stored
    have hepoch := htenured.current current hmem (hc.attempted ▸ hfirst) hc.unretired
      (by rw [hp, hd]; exact hcard) id
    rw [hc.membershipEpoch, hc.roomId, hepoch, hp]
  · obtain ⟨hmem, hkey⟩ := Table.get?_eq_some.mp hinitial
    obtain ⟨hmem', hkey'⟩ := Table.get?_eq_some.mp hfinal
    have hp : initial.principalId = final.principalId :=
      (congrArg (fun k => k.1) hkey).trans (congrArg (fun k => k.1) hkey').symm
    have hd : initial.deliveryId = final.deliveryId :=
      (deliveryId_of_outboxAt hinitial).trans (deliveryId_of_outboxAt hfinal).symm
    exact htenured.shared initial hmem final hmem' hp hd
  · intro hcard t hrun
    obtain ⟨hmem, hkey⟩ := Table.get?_eq_some.mp hrow
    have hno : ¬ cards row.principalId row.deliveryId := by
      rw [show row.principalId = p from congrArg (fun k => k.1) hkey, deliveryId_of_outboxAt hrow]
      exact hcard
    obtain ⟨row', hmem', hkey', hretired'⟩ :=
      (hrun.tends.keeps hallows).retired row hmem hretired hno
    have hrow' : outboxAt t p d stage = some row' :=
      Table.get?_eq_some.mpr ⟨hmem', hkey'.trans hkey⟩
    exact ⟨⟨row', hrow', hretired'⟩, fun device => claim_retired hrow' hretired'⟩

/-! ## One delivery -/

namespace OneDelivery

def host : Host := ⟨id, id, fun _ => "", fun _ => ""⟩

def request : DeliveryRequest :=
  { deliveryId := "d", stage := .initial, roomId := "!r", threadId := none, payload := [] }

def enqueued : DB := step host "@p" (.enqueueMatrixDelivery request) (DB.init fun _ => 0)

def retired : DB := step host "@p" (.retireMatrixDelivery "d" .initial "!r" 0) enqueued

/-- The delivery is offered under the tenure it was enqueued in, and once retired it never is. -/
theorem tenure_offered : (∃ row, (claim "@p" "d" .initial none enqueued).1 = some row ∧
      row.membershipEpoch = currentMembershipEpoch enqueued "@p" row.roomId) ∧
    (∃ row ∈ outboxAt retired "@p" "d" .initial, row.retired = true) ∧
      ∀ device, (claim "@p" "d" .initial device retired).1 = none := by
  have henqueued : RunWithin host (.tenured fun _ _ => False) (DB.init fun _ => 0) enqueued :=
    .single (.op "@p" _ (Scope.tenured_bears _ id) trivial)
  have hretired : RunWithin host (.tenured fun _ _ => False) (DB.init fun _ => 0) retired :=
    henqueued.tail (.op "@p" _ (Scope.tenured_bears _ id) trivial)
  refine ⟨?_, ?_⟩
  · have hclaim : ∃ row, (claim "@p" "d" .initial none enqueued).1 = some row ∧
        row.attempted = false := by decide +kernel
    obtain ⟨row, hrow, hfirst⟩ := hclaim
    exact ⟨row, hrow, (outbox_tenure ⟨_, henqueued⟩ "@p" "d").1 .initial none row hrow hfirst id⟩
  · have hrow : ∃ row ∈ outboxAt retired "@p" "d" .initial, row.retired = true := by decide +kernel
    obtain ⟨row, hrow, hret⟩ := hrow
    exact ⟨⟨row, hrow, hret⟩, ((outbox_tenure ⟨_, hretired⟩ "@p" "d").2.2 .initial row hrow hret).1⟩

end OneDelivery

end MindRoom
