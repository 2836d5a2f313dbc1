import MindRoom.Projection

/-! # The projection of one room

What the projection of one principal's room is for: the visible row of every logical message,
the edit held for every absent target and sender, and the set of redacted events. `View.fold`
is the projection as a function on that view, and `viewOf_project` says that the tables carry
it: folding an event into the database folds it into the view of its room.
-/

namespace MindRoom

open Function

/-- The projection of one principal's room, by key. -/
@[ext] structure View where
  visible : String → Option VisibleMessageRow
  held : String → String → Option UnresolvedEditRow
  gone : Set String

def viewOf (principalId roomId : String) (db : DB) : View where
  visible := visibleAt db principalId roomId
  held := heldAt db principalId roomId
  gone := { id | IsTombstoned db principalId roomId id }

namespace View

/-- Nothing folded yet. -/
def empty : View := ⟨fun _ => none, fun _ _ => none, ∅⟩

def install (logicalEventId revisionEventId : String) (revisionTs : Int) (content : Dict)
    (receiptOrder : Nat) (v : View) : View :=
  { v with
    visible := update v.visible logicalEventId ((v.visible logicalEventId).map fun r =>
      { r with
        revisionEventId := revisionEventId
        revisionTs := revisionTs
        contentJson := (storedBody content receiptOrder).1
        refreshToken := (storedBody content receiptOrder).2 }) }

/-- One logical message, unless it is already there. -/
def arrive (row : VisibleMessageRow) (v : View) : View :=
  { v with
    visible := update v.visible row.logicalEventId
      (some ((v.visible row.logicalEventId).getD row)) }

/-- No edit of the target is held any more. -/
def release (target : String) (v : View) : View :=
  { v with held := update v.held target (fun _ => none) }

open Classical in
/-- The edit held for a logical message's own sender, on the row that has arrived for it. -/
noncomputable def applyHeld (event : ProjectedEvent) (receiptOrder : Nat) (v : View) : View :=
  match v.held event.eventId event.sender with
  | none => v.release event.eventId
  | some held =>
    if held.editEventId ∈ v.gone then v.release event.eventId
    else
      (v.release event.eventId).install event.eventId held.editEventId held.editTs
        (visibleContent held.contentJson) receiptOrder

/-- A new logical message takes the edit held for its own sender. -/
noncomputable def foldOriginal (principalId : String) (event : ProjectedEvent)
    (receiptOrder : Nat) (membershipEpoch : Int) (v : View) : View :=
  (v.arrive (originalRow principalId event receiptOrder membershipEpoch)).applyHeld event receiptOrder

/-- The edit held after another one arrives for the same target and sender. -/
def newerHeld (principalId : String) (event : ProjectedEvent) (target : String) :
    Option UnresolvedEditRow → UnresolvedEditRow
  | none => heldRow principalId event target
  | some held =>
    if HeldEditYieldsTo held event then heldRow principalId event target else held

open Classical in
/-- An edit replaces the visible body of its target, or is held until the target arrives. -/
noncomputable def foldEdit (principalId : String) (event : ProjectedEvent) (target : String)
    (receiptOrder : Nat) (v : View) : View :=
  match v.visible target with
  | none =>
    if target ∈ v.gone then v
    else
      { v with
        held := update v.held target (update (v.held target) event.sender
          (some (newerHeld principalId event target (v.held target event.sender)))) }
  | some current =>
    if current.sender ≠ event.sender then v
    else if IsNewerRevision (event.originServerTs, event.eventId)
        (current.revisionTs, current.revisionEventId) then
      v.install target event.eventId event.originServerTs (visibleContent event.content)
        receiptOrder
    else v

/-- A row whose visible revision was redacted: no body, and a refetch owed. -/
def withhold (target : String) (receiptOrder : Nat) (r : VisibleMessageRow) : VisibleMessageRow :=
  if r.revisionEventId = target then
    { r with contentJson := none, refreshToken := some receiptOrder }
  else r

/-- A redaction removes a logical message or withholds the revision it was about. -/
def foldRedaction (target : String) (receiptOrder : Nat) (v : View) : View where
  visible :=
    match v.visible target with
    | some _ => update v.visible target none
    | none => fun id => (v.visible id).map (withhold target receiptOrder)
  held := fun id sender =>
    if id = target then none else (v.held id sender).filter (·.editEventId ≠ target)
  gone := insert target v.gone

open Classical in
/-- One event folded into the view of its room. -/
noncomputable def fold (principalId : String) (event : ProjectedEvent) (receiptOrder : Nat)
    (membershipEpoch : Int) (v : View) : View :=
  match event.redactsEventId with
  | some target => v.foldRedaction target receiptOrder
  | none =>
    if event.eventId ∈ v.gone then v
    else
      match replacementTarget event.content with
      | none => v.foldOriginal principalId event receiptOrder membershipEpoch
      | some target => v.foldEdit principalId event target receiptOrder

end View

/-! ## What the claims and prompts of a fold leave alone -/

/-- All a prompt revision can change: the room's claimed tenure and one new question. -/
theorem recordProjectedPrompt_cases {principalId roomId question revision sender : String}
    {epoch : Int} {content : Dict} {db db' : DB}
    (h : recordProjectedPrompt principalId roomId question revision sender epoch content db = db') :
    db' = db ∨ db' = claimed principalId roomId db ∨ ∃ questionJson, db' = { claimed principalId roomId db with
        interactiveQuestions := db.interactiveQuestions.insertOrIgnore
          ⟨principalId, question, revision, roomId, questionJson, none⟩ } := by
  unfold recordProjectedPrompt at h
  split at h
  · exact .inl h.symm
  · next prompt _ =>
    split at h
    · exact .inl h.symm
    · split at h
      · exact .inl h.symm
      · split at h
        · exact .inl h.symm
        · simp only [claimMembershipEpoch_eq] at h
          split at h
          · exact .inr (.inl h.symm)
          · exact .inr (.inr ⟨promptJson prompt, h.symm⟩)

/-- Nothing happened, or one room's tenure was claimed. -/
def OnlyClaims (principalId : String) (db db' : DB) : Prop :=
  db' = db ∨ ∃ room, db' = claimed principalId room db

theorem onlyClaims_claimActiveDeliveryOwnership (principalId deliveryId : String)
    (stage : DeliveryStage) (expectedRoomId : Option String) (db : DB) : OnlyClaims principalId db
      (claimActiveDeliveryOwnership principalId deliveryId stage expectedRoomId db).2 := by
  unfold claimActiveDeliveryOwnership
  cases outboxAt db principalId deliveryId stage with
  | none => exact .inl rfl
  | some row =>
    simp only [claimMembershipEpoch_eq]
    split
    · exact .inl rfl
    · exact .inr ⟨row.roomId, rfl⟩

/-- All a delivery event's ownership check can change: the tenure it claims. -/
theorem onlyClaims_eventBelongsToMembership (principalId roomId eventId : String) (epoch : Int)
    (sender : String) (transactionId : Option String) (content : Dict) (db : DB) : OnlyClaims principalId db
      (eventBelongsToMembership principalId roomId eventId epoch sender transactionId content db).2
    := by
  unfold eventBelongsToMembership
  cases deliveryOfEvent db principalId roomId eventId sender transactionId content with
  | none => exact .inl rfl
  | some delivery =>
    exact onlyClaims_claimActiveDeliveryOwnership principalId delivery.deliveryId delivery.stage
      (some roomId) db

/-- Without deliveries every event belongs to the membership it is folded under. -/
theorem eventBelongsToMembership_of_empty {db : DB} (h : db.matrixDeliveryOutbox = ∅)
    (principalId roomId eventId : String) (epoch : Int) (sender : String)
    (transactionId : Option String) (content : Dict) :
    eventBelongsToMembership principalId roomId eventId epoch sender transactionId content db
      = (true, db) := by
  have hmarked : ∀ d s, outboxAt db principalId d s = none := fun d s => by
    rw [outboxAt, h, Table.get?_empty]
  have hfind : ∀ p : OutboxRow → Prop, ∀ [DecidablePred p], db.matrixDeliveryOutbox.find? p = none := fun p _ => by
    rw [h, Table.find?_eq_none]
    exact fun r hr => absurd hr Table.not_mem_empty
  have hnone : deliveryOfEvent db principalId roomId eventId sender transactionId content = none := by
    unfold deliveryOfEvent
    split
    · rw [hfind, hfind, Option.or_none, Option.or_none]
      split
      · split
        · rw [hmarked, Option.filter_none]
        · rfl
      · rfl
    · rfl
  rw [eventBelongsToMembership, hnone]

/-! ## Lookups after each statement -/

section

variable {principalId roomId : String} {db : DB}

theorem visibleAt_eq_some {id : String} {r : VisibleMessageRow} : visibleAt db principalId roomId id = some r ↔
      r ∈ db.visibleMessages ∧ r.principalId = principalId ∧ r.roomId = roomId ∧ r.logicalEventId = id := by
  rw [visibleAt, Table.get?_eq_some]
  simp [key]

theorem heldAt_eq_some {target sender : String} {r : UnresolvedEditRow} :
    heldAt db principalId roomId target sender = some r ↔
      r ∈ db.unresolvedEdits ∧ r.principalId = principalId ∧ r.roomId = roomId ∧
        r.targetEventId = target ∧ r.sender = sender := by
  rw [heldAt, Table.get?_eq_some]
  simp [key]

theorem isTombstoned_iff {id : String} : IsTombstoned db principalId roomId id ↔
      (⟨principalId, roomId, id⟩ : TombstoneRow) ∈ db.redactionTombstones := by
  constructor
  · rintro ⟨⟨p, r, i⟩, hr, rfl, rfl, rfl⟩
    exact hr
  · intro h
    exact ⟨_, h, rfl, rfl, rfl⟩

theorem visibleAt_update {p : VisibleMessageRow → Prop} [DecidablePred p]
    {f : VisibleMessageRow → VisibleMessageRow} {hf : ∀ r, key (f r) = key r} {id : String} :
    visibleAt { db with visibleMessages := db.visibleMessages.update p f hf } principalId roomId id =
      (visibleAt db principalId roomId id).map (fun r => if p r then f r else r) := by
  rw [visibleAt, Table.get?_update, visibleAt]

theorem visibleAt_installRevision (id revision : String) (ts : Int) (content : Dict) (n : Nat) (id' : String) :
    visibleAt (installRevision principalId roomId id revision ts content n db) principalId roomId id' =
      if id' = id then
        (visibleAt db principalId roomId id').map fun r =>
          { r with
            revisionEventId := revision
            revisionTs := ts
            contentJson := (storedBody content n).1
            refreshToken := (storedBody content n).2 }
      else visibleAt db principalId roomId id' := by
  rw [installRevision, visibleAt_update]
  cases hr : visibleAt db principalId roomId id' with
  | none => simp
  | some r =>
    obtain ⟨-, h1, h2, h3⟩ := visibleAt_eq_some.mp hr
    by_cases h : id' = id
    · simp [key, h1, h2, h3, h]
    · simp [key, h1, h2, h3, h]

theorem visibleAt_insertVisible (row : VisibleMessageRow) (hp : row.principalId = principalId)
    (hr : row.roomId = roomId) (id : String) : visibleAt (insertVisible row db) principalId roomId id =
      if id = row.logicalEventId then some ((visibleAt db principalId roomId id).getD row)
      else visibleAt db principalId roomId id := by
  subst hp hr
  rw [visibleAt, insertVisible, Table.get?_insertOrIgnore]
  by_cases h : id = row.logicalEventId
  · subst h
    simp [key, visibleAt]
  · have hne : key row ≠ (row.principalId, row.roomId, id) := fun h' =>
      h (congrArg (·.2.2) h').symm
    rw [if_neg hne, if_neg h, visibleAt]

theorem visibleAt_deleteVisible (target id : String) :
    visibleAt (deleteVisible (fun r => key r = (principalId, roomId, target)) db)
        principalId roomId id =
      if id = target then none else visibleAt db principalId roomId id := by
  change (db.visibleMessages.delete _).get? (principalId, roomId, id) = _
  rw [Table.get?_delete]
  change (visibleAt db principalId roomId id).filter _ = _
  cases hr : visibleAt db principalId roomId id with
  | none => simp
  | some r =>
    obtain ⟨-, h1, h2, h3⟩ := visibleAt_eq_some.mp hr
    by_cases h : id = target
    · simp [key, h1, h2, h3, h]
    · simp [key, h1, h2, h3, h]

theorem heldAt_deleteTarget (target id sender : String) :
    heldAt (deleteUnresolved (fun r => r.principalId = principalId ∧ r.roomId = roomId ∧
        r.targetEventId = target) db) principalId roomId id sender =
      if id = target then none else heldAt db principalId roomId id sender := by
  change (db.unresolvedEdits.delete _).get? (principalId, roomId, id, sender) = _
  rw [Table.get?_delete]
  change (heldAt db principalId roomId id sender).filter _ = _
  cases hr : heldAt db principalId roomId id sender with
  | none => simp
  | some r =>
    obtain ⟨-, h1, h2, h3, -⟩ := heldAt_eq_some.mp hr
    by_cases h : id = target
    · simp [h1, h2, h3, h]
    · simp [h1, h2, h3, h]

theorem heldAt_deleteEdit (target id sender : String) :
    heldAt (deleteUnresolved (fun r => r.principalId = principalId ∧ r.roomId = roomId ∧
        r.editEventId = target) db) principalId roomId id sender =
      (heldAt db principalId roomId id sender).filter (fun r => r.editEventId ≠ target) := by
  change (db.unresolvedEdits.delete _).get? (principalId, roomId, id, sender) = _
  rw [Table.get?_delete]
  change (heldAt db principalId roomId id sender).filter _ = _
  cases hr : heldAt db principalId roomId id sender with
  | none => simp
  | some r =>
    obtain ⟨-, h1, h2, -, -⟩ := heldAt_eq_some.mp hr
    by_cases h : r.editEventId = target
    · simp [Option.filter_some, h1, h2, h]
    · simp [Option.filter_some, h]

theorem holdUnresolvedEdit_eq (principalId : String) (event : ProjectedEvent) (target : String)
    (db : DB) : ∃ edits, holdUnresolvedEdit principalId event target db =
      { db with unresolvedEdits := edits } := by
  unfold holdUnresolvedEdit
  cases heldAt db principalId event.roomId target event.sender with
  | none => exact ⟨_, rfl⟩
  | some held =>
    by_cases h : HeldEditYieldsTo held event
    · exact ⟨_, if_neg (not_not_intro h)⟩
    · exact ⟨_, if_pos h⟩

theorem heldAt_holdUnresolvedEdit (event : ProjectedEvent) (target : String)
    (hroom : event.roomId = roomId) (id sender : String) :
    heldAt (holdUnresolvedEdit principalId event target db) principalId roomId id sender =
      if id = target ∧ sender = event.sender then
        some (View.newerHeld principalId event target (heldAt db principalId roomId id sender))
      else heldAt db principalId roomId id sender := by
  subst hroom
  by_cases hkey : id = target ∧ sender = event.sender
  · obtain ⟨rfl, rfl⟩ := hkey
    simp only [and_self, if_true]
    cases hg : heldAt db principalId event.roomId id event.sender with
    | none =>
      have hg' : db.unresolvedEdits.get? (principalId, event.roomId, id, event.sender) = none := hg
      simp only [holdUnresolvedEdit, hg]
      rw [heldAt, Table.get?_insertOrIgnore, hg']
      simp [heldRow, key, View.newerHeld]
    | some held =>
      have hg' : db.unresolvedEdits.get? (principalId, event.roomId, id, event.sender) =
        some held := hg
      obtain ⟨-, h1, h2, h3, h4⟩ := heldAt_eq_some.mp hg
      by_cases hy : HeldEditYieldsTo held event
      · simp only [holdUnresolvedEdit, hg, hy, not_true, if_false, View.newerHeld, if_true]
        rw [heldAt, Table.get?_upsert, hg']
        simp [heldRow, key, h1, h2, h3, h4]
      · simp only [holdUnresolvedEdit, hg, hy, not_false_eq_true, if_true, View.newerHeld, if_false]
  · rw [if_neg hkey]
    have hne : ∀ row : UnresolvedEditRow, row = heldRow principalId event target →
        key row ≠ (principalId, event.roomId, id, sender) := by
      rintro row rfl h'
      exact hkey ⟨(congrArg (·.2.2.1) h').symm, (congrArg (·.2.2.2) h').symm⟩
    unfold holdUnresolvedEdit
    split
    · split
      · rfl
      · rw [heldAt, Table.get?_upsert, if_neg (hne _ rfl), heldAt]
    · rw [heldAt, Table.get?_insertOrIgnore, if_neg (hne _ rfl), heldAt]

theorem isTombstoned_recordTombstone (target id : String) :
    IsTombstoned (recordTombstone principalId roomId target db) principalId roomId id ↔
      id = target ∨ IsTombstoned db principalId roomId id := by
  rw [isTombstoned_iff, isTombstoned_iff, recordTombstone, Table.mem_insertOrIgnore]
  constructor
  · rintro (h | ⟨h, -⟩)
    · exact .inr h
    · exact .inl (congrArg TombstoneRow.redactedEventId h)
  · rintro (rfl | h)
    · by_cases h : (⟨principalId, roomId, id⟩ : TombstoneRow) ∈ db.redactionTombstones
      · exact .inl h
      · refine .inr ⟨rfl, fun r hr hk => h ?_⟩
        obtain ⟨p, q, i⟩ := r
        simp only [key, Prod.mk.injEq] at hk
        obtain ⟨rfl, rfl, rfl⟩ := hk
        exact hr
    · exact .inl h

end

/-! ## The tables carry the view -/

section

variable {principalId roomId : String} {db : DB}

theorem viewOf_congr {db' : DB} (hv : db'.visibleMessages = db.visibleMessages)
    (hu : db'.unresolvedEdits = db.unresolvedEdits) (ht : db'.redactionTombstones = db.redactionTombstones) :
    viewOf principalId roomId db' = viewOf principalId roomId db := by
  refine View.ext (funext fun id => ?_) (funext fun id => funext fun sender => ?_) ?_
  · simp only [viewOf, visibleAt, hv]
  · simp only [viewOf, heldAt, hu]
  · simp only [viewOf, IsTombstoned, ht]

@[simp] theorem viewOf_claimed (p r : String) :
    viewOf principalId roomId (claimed p r db) = viewOf principalId roomId db :=
  viewOf_congr rfl rfl rfl

@[simp] theorem viewOf_recordProjectedPrompt (p r question revision sender : String) (epoch : Int) (content : Dict) :
    viewOf principalId roomId (recordProjectedPrompt p r question revision sender epoch content db)
      = viewOf principalId roomId db := by
  rcases recordProjectedPrompt_cases (rfl : recordProjectedPrompt p r question revision sender epoch
    content db = _) with h | h | ⟨_, h⟩ <;> rw [h] <;> exact viewOf_congr rfl rfl rfl

@[simp] theorem viewOf_eventBelongsToMembership (p r eventId : String) (epoch : Int)
    (sender : String) (transactionId : Option String) (content : Dict) : viewOf principalId roomId
      (eventBelongsToMembership p r eventId epoch sender transactionId content db).2
      = viewOf principalId roomId db := by
  rcases onlyClaims_eventBelongsToMembership p r eventId epoch sender transactionId content db with
    h | ⟨_, h⟩ <;> rw [h]
  exact viewOf_claimed p _

theorem viewOf_installRevision (id revision : String) (ts : Int) (content : Dict) (n : Nat) :
    viewOf principalId roomId (installRevision principalId roomId id revision ts content n db) =
      (viewOf principalId roomId db).install id revision ts content n := by
  refine View.ext ?_ rfl rfl
  funext id'
  refine (visibleAt_installRevision id revision ts content n id').trans ?_
  by_cases h : id' = id
  · subst h
    simp [View.install, viewOf]
  · simp [View.install, viewOf, h]

theorem viewOf_insertVisible (row : VisibleMessageRow) (hp : row.principalId = principalId) (hr : row.roomId = roomId) :
    viewOf principalId roomId (insertVisible row db) = (viewOf principalId roomId db).arrive row := by
  refine View.ext ?_ rfl rfl
  funext id
  refine (visibleAt_insertVisible row hp hr id).trans ?_
  by_cases h : id = row.logicalEventId
  · subst h
    simp [View.arrive, viewOf]
  · simp [View.arrive, viewOf, h]

theorem viewOf_deleteTarget (target : String) :
    viewOf principalId roomId (deleteUnresolved (fun r => r.principalId = principalId ∧
        r.roomId = roomId ∧ r.targetEventId = target) db) =
      (viewOf principalId roomId db).release target := by
  refine View.ext rfl ?_ rfl
  funext id sender
  refine (heldAt_deleteTarget target id sender).trans ?_
  by_cases h : id = target
  · subst h
    simp [View.release]
  · simp [View.release, viewOf, h]

variable {event : ProjectedEvent}

theorem viewOf_applyUnresolvedEdit (hroom : event.roomId = roomId) (n : Nat) (epoch : Int) :
    viewOf principalId roomId (applyUnresolvedEdit principalId event n epoch db) =
      (viewOf principalId roomId db).applyHeld event n := by
  subst hroom
  unfold applyUnresolvedEdit View.applyHeld
  change viewOf _ _ (match heldAt db principalId event.roomId event.eventId event.sender with
    | none => _ | some held => _) = match heldAt db principalId event.roomId event.eventId
      event.sender with | none => _ | some held => _
  cases heldAt db principalId event.roomId event.eventId event.sender with
  | none => exact viewOf_deleteTarget event.eventId
  | some held =>
    simp only
    by_cases h : held.editEventId ∈ (viewOf principalId event.roomId db).gone
    · refine (congrArg _ (if_pos h)).trans ?_
      rw [if_pos h]
      exact viewOf_deleteTarget event.eventId
    · refine (congrArg _ (if_neg h)).trans ?_
      rw [if_neg h, viewOf_installRevision, viewOf_recordProjectedPrompt, viewOf_deleteTarget]

theorem viewOf_projectOriginal (hroom : event.roomId = roomId) (n : Nat) (epoch : Int) :
    viewOf principalId roomId (projectOriginal principalId event n epoch db) =
      (viewOf principalId roomId db).foldOriginal principalId event n epoch := by
  have hrow : (originalRow principalId event n epoch).principalId = principalId := rfl
  rw [projectOriginal, viewOf_applyUnresolvedEdit hroom, viewOf_recordProjectedPrompt,
    viewOf_insertVisible _ hrow hroom, View.foldOriginal]

theorem viewOf_projectEdit (hroom : event.roomId = roomId) (target : String) (n : Nat) (epoch : Int) :
    viewOf principalId roomId (projectEdit principalId event target n epoch db) =
      (viewOf principalId roomId db).foldEdit principalId event target n := by
  unfold projectEdit View.foldEdit
  rw [hroom]
  change viewOf _ _ (match visibleAt db principalId roomId target with
    | none => _ | some current => _) = match visibleAt db principalId roomId target with
      | none => _ | some current => _
  cases visibleAt db principalId roomId target with
  | none =>
    simp only
    by_cases h : target ∈ (viewOf principalId roomId db).gone
    · refine (congrArg _ (if_pos h)).trans ?_
      rw [if_pos h]
    · refine (congrArg _ (if_neg h)).trans ?_
      rw [if_neg h]
      obtain ⟨edits, he⟩ := holdUnresolvedEdit_eq principalId event target db
      refine View.ext (by rw [he]; rfl) ?_ (by rw [he]; rfl)
      funext id sender
      refine (heldAt_holdUnresolvedEdit event target hroom id sender).trans ?_
      by_cases hid : id = target
      · subst hid
        by_cases hs : sender = event.sender
        · subst hs
          simp [viewOf]
        · simp [viewOf, hs]
      · simp [viewOf, hid]
  | some current =>
    simp only
    by_cases hs : current.sender ≠ event.sender
    · rw [if_pos hs, if_pos hs]
    · rw [if_neg hs, if_neg hs]
      by_cases hn : IsNewerRevision (event.originServerTs, event.eventId)
        (current.revisionTs, current.revisionEventId)
      · rw [if_pos hn, if_pos hn, viewOf_installRevision, viewOf_recordProjectedPrompt]
      · rw [if_neg hn, if_neg hn, viewOf_recordProjectedPrompt]

theorem viewOf_projectRedaction (hroom : event.roomId = roomId) (target : String) (n : Nat) :
    viewOf principalId roomId (projectRedaction principalId event target n db) =
      (viewOf principalId roomId db).foldRedaction target n := by
  unfold projectRedaction
  rw [hroom]
  have hheld : ∀ id sender, heldAt (deleteUnresolved (fun r => r.principalId = principalId ∧
      r.roomId = roomId ∧ r.targetEventId = target) (deleteUnresolved (fun r =>
        r.principalId = principalId ∧ r.roomId = roomId ∧ r.editEventId = target) db))
        principalId roomId id sender =
      ((viewOf principalId roomId db).foldRedaction target n).held id sender := fun id sender => by
    rw [heldAt_deleteTarget, heldAt_deleteEdit]
    rfl
  have hgone : { id | IsTombstoned (recordTombstone principalId roomId target db) principalId
      roomId id } = Insert.insert target (viewOf principalId roomId db).gone := by
    ext id
    exact isTombstoned_recordTombstone target id
  change viewOf _ _ (match visibleAt db principalId roomId target with
    | some _ => _ | none => _) = _
  cases hv : visibleAt db principalId roomId target with
  | some row =>
    refine View.ext (funext fun id => ?_) (funext fun id => funext fun sender => hheld id sender)
      hgone
    refine (visibleAt_deleteVisible target id).trans ?_
    change (if id = target then none else visibleAt db principalId roomId id) =
      (match visibleAt db principalId roomId target with | some _ => _ | none => _ : _ → _) id
    rw [hv]
    by_cases h : id = target
    · subst h
      simp
    · simp [viewOf, h]
  | none =>
    refine View.ext (funext fun id => ?_) (funext fun id => funext fun sender => hheld id sender)
      hgone
    refine visibleAt_update.trans ?_
    change (visibleAt db principalId roomId id).map _ =
      (match visibleAt db principalId roomId target with | some _ => _ | none => _ : _ → _) id
    rw [hv]
    refine Option.map_congr fun r hr => ?_
    obtain ⟨-, h1, h2, -⟩ := visibleAt_eq_some.mp hr
    simp [View.withhold, h1, h2]

theorem viewOf_foldEvent (hroom : event.roomId = roomId) (n : Nat) (epoch : Int) :
    viewOf principalId roomId (foldEvent principalId event n epoch db).2 =
      (viewOf principalId roomId db).fold principalId event n epoch := by
  unfold foldEvent View.fold
  rw [hroom]
  cases event.redactsEventId with
  | some target => exact viewOf_projectRedaction hroom target n
  | none =>
    by_cases h : event.eventId ∈ (viewOf principalId roomId db).gone
    · refine (congrArg (fun r => viewOf _ _ (Prod.snd r)) (if_pos h)).trans ?_
      exact (if_pos h).symm
    · refine (congrArg (fun r => viewOf _ _ (Prod.snd r)) (if_neg h)).trans ?_
      refine Eq.trans ?_ (if_neg h).symm
      cases replacementTarget event.content with
      | none => exact viewOf_projectOriginal hroom n epoch
      | some target => exact viewOf_projectEdit hroom target n epoch

/-- Folding an event that belongs to its membership folds the view of its room. -/
theorem viewOf_project (hroom : event.roomId = roomId) (n : Nat) (epoch : Int)
    (hbelongs : (eventBelongsToMembership principalId event.roomId event.eventId epoch event.sender
      event.transactionId event.content db).1 = true) :
    viewOf principalId roomId (project principalId event n epoch db).2 =
      (viewOf principalId roomId db).fold principalId event n epoch := by
  have hclaim : viewOf principalId roomId (eventBelongsToMembership principalId event.roomId
      event.eventId epoch event.sender event.transactionId event.content db).2 =
      viewOf principalId roomId db := viewOf_eventBelongsToMembership ..
  unfold project
  generalize eventBelongsToMembership principalId event.roomId event.eventId epoch event.sender
    event.transactionId event.content db = b at hbelongs hclaim
  obtain ⟨belongs, db'⟩ := b
  obtain rfl : belongs = true := hbelongs
  simp only [Bool.true_eq_false, if_false]
  rw [viewOf_foldEvent hroom, ← hclaim]
  exact congrArg _ (viewOf_congr rfl rfl rfl)

/-! ### Other rooms

A statement that names one principal's room leaves every other view alone. -/

section

variable {p r : String}

def InRoom (p r : String) (q : VisibleMessageRow → Prop) : Prop :=
  ∀ row, q row → row.principalId = p ∧ row.roomId = r

variable {q : VisibleMessageRow → Prop} {event : ProjectedEvent}

theorem visibleAt_update_other (hne : (principalId, roomId) ≠ (p, r))
    [DecidablePred q] (hq : InRoom p r q) {f : VisibleMessageRow → VisibleMessageRow}
    {hf : ∀ row, key (f row) = key row} (id : String) :
    visibleAt { db with visibleMessages := db.visibleMessages.update q f hf } principalId roomId id =
      visibleAt db principalId roomId id := by
  rw [visibleAt_update]
  cases hr : visibleAt db principalId roomId id with
  | none => rfl
  | some row =>
    obtain ⟨-, h1, h2, -⟩ := visibleAt_eq_some.mp hr
    have hnq : ¬ q row := fun h => hne (by rw [← h1, ← h2, (hq row h).1, (hq row h).2])
    rw [Option.map_some, if_neg hnq]

theorem visibleAt_deleteVisible_other (hne : (principalId, roomId) ≠ (p, r))
    [DecidablePred q] (hq : InRoom p r q) (id : String) :
    visibleAt (deleteVisible q db) principalId roomId id = visibleAt db principalId roomId id := by
  change (db.visibleMessages.delete q).get? (principalId, roomId, id) = _
  rw [Table.get?_delete]
  change (visibleAt db principalId roomId id).filter _ = _
  cases hr : visibleAt db principalId roomId id with
  | none => rfl
  | some row =>
    obtain ⟨-, h1, h2, -⟩ := visibleAt_eq_some.mp hr
    have hnq : ¬ q row := fun h => hne (by rw [← h1, ← h2, (hq row h).1, (hq row h).2])
    simp [Option.filter_some, hnq]

theorem heldAt_deleteUnresolved_other (hne : (principalId, roomId) ≠ (p, r))
    {q : UnresolvedEditRow → Prop} [DecidablePred q]
    (hq : ∀ row, q row → row.principalId = p ∧ row.roomId = r) (target sender : String) :
    heldAt (deleteUnresolved q db) principalId roomId target sender =
      heldAt db principalId roomId target sender := by
  change (db.unresolvedEdits.delete q).get? (principalId, roomId, target, sender) = _
  rw [Table.get?_delete]
  change (heldAt db principalId roomId target sender).filter _ = _
  cases hr : heldAt db principalId roomId target sender with
  | none => rfl
  | some row =>
    obtain ⟨-, h1, h2, -⟩ := heldAt_eq_some.mp hr
    have hnq : ¬ q row := fun h => hne (by rw [← h1, ← h2, (hq row h).1, (hq row h).2])
    simp [Option.filter_some, hnq]

theorem viewOf_updateVisible_other (hne : (principalId, roomId) ≠ (p, r)) [DecidablePred q] (hq : InRoom p r q)
    {f : VisibleMessageRow → VisibleMessageRow} {hf : ∀ row, key (f row) = key row} :
    viewOf principalId roomId { db with visibleMessages := db.visibleMessages.update q f hf } =
      viewOf principalId roomId db :=
  View.ext (funext fun id => visibleAt_update_other hne hq id) rfl rfl

theorem viewOf_installRevision_other (hne : (principalId, roomId) ≠ (p, r)) (id revision : String)
    (ts : Int) (content : Dict) (n : Nat) :
    viewOf principalId roomId (installRevision p r id revision ts content n db) =
      viewOf principalId roomId db :=
  viewOf_updateVisible_other hne fun row h => by
    simp only [key, Prod.mk.injEq] at h
    exact ⟨h.1, h.2.1⟩

theorem viewOf_deleteVisible_other (hne : (principalId, roomId) ≠ (p, r)) [DecidablePred q] (hq : InRoom p r q) :
    viewOf principalId roomId (deleteVisible q db) = viewOf principalId roomId db :=
  View.ext (funext fun id => visibleAt_deleteVisible_other hne hq id) rfl rfl

theorem viewOf_deleteUnresolved_other (hne : (principalId, roomId) ≠ (p, r))
    {q : UnresolvedEditRow → Prop} [DecidablePred q] (hq : ∀ row, q row → row.principalId = p ∧ row.roomId = r) :
    viewOf principalId roomId (deleteUnresolved q db) = viewOf principalId roomId db :=
  View.ext rfl (funext fun t => funext fun s => heldAt_deleteUnresolved_other hne hq t s) rfl

theorem viewOf_insertVisible_other (row : VisibleMessageRow)
    (hne : (principalId, roomId) ≠ (row.principalId, row.roomId)) :
    viewOf principalId roomId (insertVisible row db) = viewOf principalId roomId db := by
  refine View.ext (funext fun id => ?_) rfl rfl
  change (insertVisible row db).visibleMessages.get? (principalId, roomId, id) = _
  rw [insertVisible, Table.get?_insertOrIgnore]
  refine if_neg fun h => hne ?_
  simp only [key, Prod.mk.injEq] at h
  rw [h.1, h.2.1]

theorem viewOf_holdUnresolvedEdit_other (event : ProjectedEvent) (target : String)
    (hne : (principalId, roomId) ≠ (p, event.roomId)) :
    viewOf principalId roomId (holdUnresolvedEdit p event target db) =
      viewOf principalId roomId db := by
  have hkey : ∀ id sender, key (heldRow p event target) ≠ (principalId, roomId, id, sender) :=
    fun id sender h => hne (by
      simp only [heldRow, key, Prod.mk.injEq] at h
      rw [h.1, h.2.1])
  unfold holdUnresolvedEdit
  split
  · split
    · rfl
    · refine View.ext rfl (funext fun id => funext fun sender => ?_) rfl
      change (Table.upsert _ _ _ _ _).get? (principalId, roomId, id, sender) = _
      rw [Table.get?_upsert]
      exact if_neg (hkey id sender)
  · refine View.ext rfl (funext fun id => funext fun sender => ?_) rfl
    change (Table.insertOrIgnore _ _).get? (principalId, roomId, id, sender) = _
    rw [Table.get?_insertOrIgnore]
    exact if_neg (hkey id sender)

theorem viewOf_recordTombstone_other (hne : (principalId, roomId) ≠ (p, r)) (target : String) :
    viewOf principalId roomId (recordTombstone p r target db) = viewOf principalId roomId db := by
  refine View.ext rfl rfl (Set.ext fun id => ?_)
  change IsTombstoned _ _ _ _ ↔ IsTombstoned _ _ _ _
  rw [isTombstoned_iff, isTombstoned_iff, recordTombstone, Table.mem_insertOrIgnore]
  refine ⟨fun h => h.elim (fun h' => h') fun h => ?_, .inl⟩
  refine absurd ?_ hne
  rw [TombstoneRow.mk.injEq] at h
  rw [h.1.1, h.1.2.1]

theorem viewOf_applyUnresolvedEdit_other
    (hne : (principalId, roomId) ≠ (p, event.roomId)) (n : Nat) (epoch : Int) :
    viewOf principalId roomId (applyUnresolvedEdit p event n epoch db) =
      viewOf principalId roomId db := by
  have hdel : viewOf principalId roomId (deleteUnresolved (fun row => row.principalId = p ∧
      row.roomId = event.roomId ∧ row.targetEventId = event.eventId) db) =
      viewOf principalId roomId db :=
    viewOf_deleteUnresolved_other hne fun _ h => ⟨h.1, h.2.1⟩
  unfold applyUnresolvedEdit
  cases heldAt db p event.roomId event.eventId event.sender with
  | none => exact hdel
  | some held =>
    simp only
    split
    · exact hdel
    · rw [viewOf_installRevision_other hne, viewOf_recordProjectedPrompt, hdel]

theorem viewOf_projectEdit_other
    (hne : (principalId, roomId) ≠ (p, event.roomId)) (target : String) (n : Nat) (epoch : Int) :
    viewOf principalId roomId (projectEdit p event target n epoch db) =
      viewOf principalId roomId db := by
  unfold projectEdit
  cases visibleAt db p event.roomId target with
  | none =>
    simp only
    split
    · rfl
    · exact viewOf_holdUnresolvedEdit_other event target hne
  | some current =>
    simp only
    split
    · rfl
    · split
      · rw [viewOf_installRevision_other hne, viewOf_recordProjectedPrompt]
      · rw [viewOf_recordProjectedPrompt]

theorem viewOf_projectRedaction_other
    (hne : (principalId, roomId) ≠ (p, event.roomId)) (target : String) (n : Nat) :
    viewOf principalId roomId (projectRedaction p event target n db) =
      viewOf principalId roomId db := by
  have hcleared : ∀ db' : DB, viewOf principalId roomId db' = viewOf principalId roomId
      (deleteUnresolved (fun row => row.principalId = p ∧ row.roomId = event.roomId ∧
        row.targetEventId = target) (deleteUnresolved (fun row => row.principalId = p ∧
          row.roomId = event.roomId ∧ row.editEventId = target) (deleteQuestions
            (fun q => q.principalId = p ∧ q.roomId = event.roomId ∧ q.revisionEventId = target)
              (recordTombstone p event.roomId target db)))) →
      viewOf principalId roomId db' = viewOf principalId roomId db := fun db' h => by
    rw [h, viewOf_deleteUnresolved_other hne fun _ h => ⟨h.1, h.2.1⟩,
      viewOf_deleteUnresolved_other hne fun _ h => ⟨h.1, h.2.1⟩]
    refine Eq.trans ?_ (viewOf_recordTombstone_other hne target)
    exact viewOf_congr rfl rfl rfl
  unfold projectRedaction
  simp only
  split
  · refine hcleared _ (viewOf_deleteVisible_other hne fun row h => ?_)
    simp only [key, Prod.mk.injEq] at h
    exact ⟨h.1, h.2.1⟩
  · exact hcleared _ (viewOf_updateVisible_other hne fun row h => ⟨h.1, h.2.1⟩)

/-- A fold touches the view of its own room only. -/
theorem viewOf_project_other
    (hne : (principalId, roomId) ≠ (p, event.roomId)) (n : Nat) (epoch : Int) :
    viewOf principalId roomId (project p event n epoch db).2 = viewOf principalId roomId db := by
  have hclaim : viewOf principalId roomId (eventBelongsToMembership p event.roomId event.eventId
      epoch event.sender event.transactionId event.content db).2 = viewOf principalId roomId db :=
    viewOf_eventBelongsToMembership ..
  have hfold : ∀ db', viewOf principalId roomId (foldEvent p event n epoch db').2 =
      viewOf principalId roomId db' := fun db' => by
    unfold foldEvent
    cases event.redactsEventId with
    | some target => exact viewOf_projectRedaction_other hne target n
    | none =>
      simp only
      split
      · rfl
      · cases replacementTarget event.content with
        | none =>
          refine (viewOf_applyUnresolvedEdit_other hne n epoch).trans ?_
          rw [viewOf_recordProjectedPrompt]
          exact viewOf_insertVisible_other _ hne
        | some target => exact viewOf_projectEdit_other hne target n epoch
  unfold project
  simp only
  split
  · exact hclaim
  · exact (hfold _).trans ((viewOf_congr rfl rfl rfl).trans hclaim)

end

end

end MindRoom
