import MindRoom.StoreWrites

/-! # The representation of the projection

A visible row is readable or owes a refresh, an edit is held only while its target is not on
record, and everything derived for a room carries the room's current tenure.
-/

namespace MindRoom

open Transaction

/-- The stored body and what it owes exclude each other. -/
def VisibleMessageRow.Stored (r : VisibleMessageRow) : Prop :=
  r.contentJson = none ↔ r.refreshToken ≠ none

def UnresolvedEditRow.Targets (u : UnresolvedEditRow) (r : VisibleMessageRow) : Prop :=
  r.principalId = u.principalId ∧ r.roomId = u.roomId ∧ r.logicalEventId = u.targetEventId

/-- The projection tables are well formed under the tenures `epoch` reads. -/
structure Represented (visible : Table VisibleMessageRow) (unresolved : Table UnresolvedEditRow)
    (hydration : Table HydrationRow) (epoch : String → String → Int) : Prop where
  stored : ∀ r ∈ visible, r.Stored
  held : ∀ u ∈ unresolved, ∀ r ∈ visible, ¬ u.Targets r
  visibleEpoch : ∀ r ∈ visible, r.membershipEpoch = epoch r.principalId r.roomId
  hydrationEpoch : ∀ r ∈ hydration, r.membershipEpoch = epoch r.principalId r.roomId

/-- The projection tables of a database are well formed. -/
def DB.Represented (db : DB) : Prop :=
  MindRoom.Represented db.visibleMessages db.unresolvedEdits db.conversationHydration
    (currentMembershipEpoch db)

theorem stored_storedBody (content : Dict) (n : Nat) :
    (storedBody content n).1 = none ↔ (storedBody content n).2 ≠ none := by
  unfold storedBody
  split <;> simp

/-! ## Statements on the tables -/

namespace Represented

variable {visible visible' : Table VisibleMessageRow} {unresolved unresolved' : Table UnresolvedEditRow}
  {hydration hydration' : Table HydrationRow} {epoch epoch' : String → String → Int}

theorem sub (h : Represented visible unresolved hydration epoch)
    (hv : ∀ r ∈ visible', r ∈ visible) (hu : ∀ u ∈ unresolved', u ∈ unresolved) (hh : ∀ r ∈ hydration', r ∈ hydration) :
    Represented visible' unresolved' hydration' epoch where
  stored r hr := h.stored r (hv r hr)
  held u hu' r hr := h.held u (hu u hu') r (hv r hr)
  visibleEpoch r hr := h.visibleEpoch r (hv r hr)
  hydrationEpoch r hr := h.hydrationEpoch r (hh r hr)

/-- Another revision, or none, on rows that stay where they are. -/
theorem revise (h : Represented visible unresolved hydration epoch) {p : VisibleMessageRow → Prop}
    [DecidablePred p] {f : VisibleMessageRow → VisibleMessageRow} (hf : ∀ r, key (f r) = key r)
    (hepoch : ∀ r, (f r).membershipEpoch = r.membershipEpoch) (hstored : ∀ r, (f r).Stored) :
    Represented (visible.update p f hf) unresolved hydration epoch := by
  have hrow : ∀ r ∈ visible.update p f hf, ∃ r₀ ∈ visible, key r = key r₀ ∧
      r.membershipEpoch = r₀.membershipEpoch ∧ r.Stored := by
    intro r hr
    rcases Table.mem_update.mp hr with ⟨r₀, hr₀, _, rfl⟩ | ⟨hr, _⟩
    · exact ⟨r₀, hr₀, hf r₀, hepoch r₀, hstored r₀⟩
    · exact ⟨r, hr, rfl, rfl, h.stored r hr⟩
  have hkey : ∀ {r r₀ : VisibleMessageRow}, key r = key r₀ →
      r.principalId = r₀.principalId ∧ r.roomId = r₀.roomId ∧
        r.logicalEventId = r₀.logicalEventId := fun hk =>
    ⟨congrArg (·.1) hk, congrArg (·.2.1) hk, congrArg (·.2.2) hk⟩
  refine ⟨fun r hr => ?_, fun u hu r hr => ?_, fun r hr => ?_, h.hydrationEpoch⟩
  · obtain ⟨_, _, _, _, hs⟩ := hrow r hr
    exact hs
  · obtain ⟨r₀, hr₀, hk, _, _⟩ := hrow r hr
    obtain ⟨hp, hroom, hid⟩ := hkey hk
    rintro ⟨hup, hur, hut⟩
    exact h.held u hu r₀ hr₀ ⟨hp ▸ hup, hroom ▸ hur, hid ▸ hut⟩
  · obtain ⟨r₀, hr₀, hk, he, _⟩ := hrow r hr
    obtain ⟨hp, hroom, _⟩ := hkey hk
    rw [he, hp, hroom]
    exact h.visibleEpoch r₀ hr₀

/-- A new logical message that no held edit waits for. -/
theorem insert (h : Represented visible unresolved hydration epoch) {row : VisibleMessageRow}
    (hstored : row.Stored) (hepoch : row.membershipEpoch = epoch row.principalId row.roomId)
    (hfree : ∀ u ∈ unresolved, ¬ u.Targets row) :
    Represented (visible.insertOrIgnore row) unresolved hydration epoch := by
  refine ⟨fun r hr => ?_, fun u hu r hr => ?_, fun r hr => ?_, h.hydrationEpoch⟩
  all_goals
    rcases Table.mem_insertOrIgnore.mp hr with hr | ⟨rfl, _⟩
  · exact h.stored r hr
  · exact hstored
  · exact h.held u hu r hr
  · exact hfree u hu
  · exact h.visibleEpoch r hr
  · exact hepoch

/-- A held edit whose target is not on record. -/
theorem hold (h : Represented visible unresolved hydration epoch)
    (hu : ∀ u ∈ unresolved', u ∈ unresolved ∨ ∀ r ∈ visible, ¬ u.Targets r) :
    Represented visible unresolved' hydration epoch where
  stored := h.stored
  held u hu' := (hu u hu').elim (h.held u) id
  visibleEpoch := h.visibleEpoch
  hydrationEpoch := h.hydrationEpoch

/-- Coverage published under the room's tenure. -/
theorem hydrate (h : Represented visible unresolved hydration epoch) {row : HydrationRow}
    (hepoch : row.membershipEpoch = epoch row.principalId row.roomId) : Represented visible unresolved
      (hydration.upsert row (fun _ => True) (growCoverage row)) epoch where
  stored := h.stored
  held := h.held
  visibleEpoch := h.visibleEpoch
  hydrationEpoch r hr := by
    rcases Table.mem_upsert.mp hr with ⟨r₀, _, hk, _, rfl⟩ | ⟨hr, _⟩ | ⟨rfl, _⟩
    · have hp : r₀.principalId = row.principalId := congrArg (·.1) hk
      have hroom : r₀.roomId = row.roomId := congrArg (·.2.1) hk
      show row.membershipEpoch = epoch r₀.principalId r₀.roomId
      rw [hp, hroom, hepoch]
    · exact h.hydrationEpoch r hr
    · exact hepoch

/-- The tenure of one room ends, and nothing derived for it remains. -/
theorem fence (h : Represented visible unresolved hydration epoch) {p r : String}
    (hepoch : ∀ p' r', (p', r') ≠ (p, r) → epoch' p' r' = epoch p' r') : Represented
      (visible.delete fun row => row.principalId = p ∧ row.roomId = r)
      (unresolved.delete fun row => row.principalId = p ∧ row.roomId = r)
      (hydration.delete fun row => row.principalId = p ∧ row.roomId = r) epoch' where
  stored row hrow := h.stored row (Table.mem_delete.mp hrow).1
  held u hu row hrow := h.held u (Table.mem_delete.mp hu).1 row (Table.mem_delete.mp hrow).1
  visibleEpoch row hrow := by
    obtain ⟨hmem, hother⟩ := Table.mem_delete.mp hrow
    rw [h.visibleEpoch row hmem, hepoch]
    exact fun heq => hother (Prod.mk.injEq _ _ _ _ ▸ heq)
  hydrationEpoch row hrow := by
    obtain ⟨hmem, hother⟩ := Table.mem_delete.mp hrow
    rw [h.hydrationEpoch row hmem, hepoch]
    exact fun heq => hother (Prod.mk.injEq _ _ _ _ ▸ heq)

end Represented

/-! ## Statements on the database -/

namespace DB.Represented

variable {db db' : DB}

/-- The projection tables and the tenures are all the representation speaks of. -/
theorem congr (h : db.Represented) (hv : db'.visibleMessages = db.visibleMessages)
    (hu : db'.unresolvedEdits = db.unresolvedEdits)
    (hh : db'.conversationHydration = db.conversationHydration) (ht : tenures db' = tenures db) :
    db'.Represented := by
  have he : currentMembershipEpoch db' = currentMembershipEpoch db :=
    funext fun p => funext fun r => currentMembershipEpoch_of_tenures ht p r
  unfold DB.Represented
  rw [hv, hu, hh, he]
  exact h

theorem of_core (h : db.Represented) (hc : db'.core.visible = db.core.visible)
    (hu : db'.core.unresolved = db.core.unresolved) (hh : db'.core.hydration = db.core.hydration)
    (hm : db'.core.membership = db.core.membership) : db'.Represented :=
  h.congr hc hu hh (tenures_of_core hm)

theorem recordProjectedPrompt (h : db.Represented) (p r question revision sender : String)
    (epoch : Int) (content : Dict) :
    (recordProjectedPrompt p r question revision sender epoch content db).Represented := by
  have hten := (ProjectionFrame.recordProjectedPrompt p r question revision sender epoch content
    db).tenures
  rcases recordProjectedPrompt_cases (rfl : MindRoom.recordProjectedPrompt p r question revision
    sender epoch content db = _) with heq | heq | ⟨_, heq⟩
  all_goals
    rw [heq] at hten ⊢
    exact h.congr rfl rfl rfl hten

theorem revise (h : db.Represented) {q : VisibleMessageRow → Prop} {_ : DecidablePred q}
    {f : VisibleMessageRow → VisibleMessageRow} (hf : ∀ r, key (f r) = key r)
    (hepoch : ∀ r, (f r).membershipEpoch = r.membershipEpoch) (hstored : ∀ r, (f r).Stored) :
    DB.Represented { db with visibleMessages := db.visibleMessages.update q f hf } :=
  MindRoom.Represented.revise h hf hepoch hstored

theorem installRevision (h : db.Represented) (p r id revision : String) (ts : Int) (content : Dict)
    (n : Nat) : (installRevision p r id revision ts content n db).Represented := by
  apply h.revise
  · exact fun _ => rfl
  · exact fun _ => stored_storedBody content n

theorem deleteVisible (h : db.Represented) (q : VisibleMessageRow → Prop) [DecidablePred q] :
    (deleteVisible q db).Represented :=
  h.sub (fun _ hr => (Table.mem_delete.mp hr).1) (fun _ hu => hu) fun _ hr => hr

theorem deleteUnresolved (h : db.Represented) (q : UnresolvedEditRow → Prop) [DecidablePred q] :
    (deleteUnresolved q db).Represented :=
  h.sub (fun _ hr => hr) (fun _ hu => (Table.mem_delete.mp hu).1) fun _ hr => hr

theorem deleteHydration (h : db.Represented) (p r t : String) : (deleteHydration p r t db).Represented :=
  h.sub (fun _ hr => hr) (fun _ hu => hu) fun _ hr => (Table.mem_delete.mp hr).1

/-! ### Folds -/

theorem holdUnresolvedEdit (h : db.Represented) (p : String) (event : ProjectedEvent)
    (target : String) (hno : visibleAt db p event.roomId target = none) :
    (holdUnresolvedEdit p event target db).Represented := by
  have hfree : ∀ u : UnresolvedEditRow, u.principalId = p → u.roomId = event.roomId →
      u.targetEventId = target → ∀ r ∈ db.visibleMessages, ¬ u.Targets r := by
    rintro u rfl hroom rfl r hr ⟨hp, hr', hid⟩
    refine Table.get?_eq_none.mp hno r hr ?_
    show (r.principalId, r.roomId, r.logicalEventId) = _
    rw [hp, hr', hid, hroom]
  unfold MindRoom.holdUnresolvedEdit
  split
  · split
    · exact h
    · refine h.hold fun u hu => ?_
      simp only [Table.mem_upsert] at hu
      rcases hu with ⟨u₀, hu₀, hk, _, rfl⟩ | ⟨hu, _⟩ | ⟨rfl, _⟩
      · exact .inr (hfree _ (congrArg (·.1) hk) (congrArg (·.2.1) hk) (congrArg (·.2.2.1) hk))
      · exact .inl hu
      · exact .inr (hfree _ rfl rfl rfl)
  · refine h.hold fun u hu => ?_
    rcases Table.mem_insertOrIgnore.mp hu with hu | ⟨rfl, _⟩
    · exact .inl hu
    · exact .inr (hfree _ rfl rfl rfl)

/-- An original arrives together with the release of what was held for it. -/
theorem projectOriginal (h : db.Represented) {p : String} {event : ProjectedEvent} {n : Nat}
    {epoch : Int} (hepoch : currentMembershipEpoch db p event.roomId = epoch) :
    (projectOriginal p event n epoch db).Represented := by
  have hinsert : (MindRoom.deleteUnresolved (fun r => r.principalId = p ∧
      r.roomId = event.roomId ∧ r.targetEventId = event.eventId)
      (insertVisible (originalRow p event n epoch) db)).Represented := by
    refine (h.deleteUnresolved _).insert (stored_storedBody event.content n) hepoch.symm ?_
    intro u hu ht
    exact (Table.mem_delete.mp hu).2 ⟨ht.1.symm, ht.2.1.symm, ht.2.2.symm⟩
  have hprompt : (MindRoom.deleteUnresolved (fun r => r.principalId = p ∧
      r.roomId = event.roomId ∧ r.targetEventId = event.eventId)
      (MindRoom.recordProjectedPrompt p event.roomId event.eventId event.eventId event.sender epoch
        event.content (insertVisible (originalRow p event n epoch) db))).Represented := by
    have hten := (ProjectionFrame.recordProjectedPrompt p event.roomId event.eventId event.eventId
      event.sender epoch event.content (insertVisible (originalRow p event n epoch) db)).tenures
    rcases recordProjectedPrompt_cases (rfl : MindRoom.recordProjectedPrompt p event.roomId
      event.eventId event.eventId event.sender epoch event.content
      (insertVisible (originalRow p event n epoch) db) = _) with heq | heq | ⟨_, heq⟩
    all_goals
      rw [heq] at hten ⊢
      exact hinsert.congr rfl rfl rfl hten
  unfold MindRoom.projectOriginal applyUnresolvedEdit
  dsimp only
  split
  · exact hprompt
  · split
    · exact hprompt
    · exact (hprompt.recordProjectedPrompt ..).installRevision ..

theorem projectEdit (h : db.Represented) (p : String) (event : ProjectedEvent) (target : String)
    (n : Nat) (epoch : Int) : (projectEdit p event target n epoch db).Represented := by
  unfold MindRoom.projectEdit
  split
  · next hno =>
    split
    · exact h
    · exact h.holdUnresolvedEdit p event target hno
  · split
    · exact h
    · dsimp only
      split
      · exact (h.recordProjectedPrompt ..).installRevision ..
      · exact h.recordProjectedPrompt ..

theorem projectRedaction (h : db.Represented) (p : String) (event : ProjectedEvent)
    (target : String) (n : Nat) : (projectRedaction p event target n db).Represented := by
  have hcleared : ∀ q : InteractiveQuestionRow → Prop, ∀ [DecidablePred q],
      (deleteQuestions q (recordTombstone p event.roomId target db)).Represented :=
    fun _ => h.congr rfl rfl rfl rfl
  unfold MindRoom.projectRedaction
  dsimp only
  split
  · exact (((hcleared _).deleteUnresolved _).deleteUnresolved _).deleteVisible _
  · apply DB.Represented.revise
    · exact ((hcleared _).deleteUnresolved _).deleteUnresolved _
    · exact fun _ => rfl
    · intro _
      simp [VisibleMessageRow.Stored]

theorem foldEvent (h : db.Represented) {p : String} {event : ProjectedEvent} {n : Nat} {epoch : Int}
    (hepoch : currentMembershipEpoch db p event.roomId = epoch) : (foldEvent p event n epoch db).2.Represented := by
  unfold MindRoom.foldEvent
  split
  · exact h.projectRedaction ..
  · split
    · exact h
    · split
      · exact h.projectOriginal hepoch
      · exact h.projectEdit ..

/-! ### Refetches and stale deliveries -/

theorem recordRefetchedRevision (h : db.Represented) (p : String) (k : RefetchKey)
    (revision : RefetchedRevision) (row : VisibleMessageRow) :
    (recordRefetchedRevision p k revision row db).Represented := by
  refine DB.Represented.recordProjectedPrompt ?_ p k.roomId k.logicalEventId
    revision.revisionEventId row.sender row.membershipEpoch revision.content
  apply h.revise
  · exact fun _ => rfl
  · intro _
    simp [VisibleMessageRow.Stored]

theorem dropRefetchedMessage (h : db.Represented) (p : String) (k : RefetchKey) :
    (dropRefetchedMessage p k db).2.Represented := by
  unfold MindRoom.dropRefetchedMessage
  split
  · exact h
  · exact (h.deleteVisible _).deleteHydration ..

theorem discardDeliveryEvent (h : db.Represented) (p e : String) : (discardDeliveryEvent p e db).Represented := by
  unfold MindRoom.discardDeliveryEvent
  dsimp only
  split
  · exact (h.deleteUnresolved _).deleteVisible _
  · exact ((h.deleteUnresolved _).deleteVisible _).deleteHydration ..

end DB.Represented

/-! ## Statements -/

/-- Every statement keeps the representation. -/
theorem Statement.represented {b : Scope} (hr : b.rooms) {db db' : DB} (hs : Statement b db db')
    (h : db.Represented) : db'.Represented := by
  have hbeside : db'.core.visible = db.core.visible ∧ db'.core.unresolved = db.core.unresolved ∧
      db'.core.hydration = db.core.hydration ∧ db'.core.membership = db.core.membership →
      db'.Represented := fun hc => h.of_core hc.1 hc.2.1 hc.2.2.1 hc.2.2.2
  cases hs with
  | amend hs =>
    exact hbeside ⟨congrArg Core.visible hs.core, congrArg Core.unresolved hs.core,
      congrArg Core.hydration hs.core, congrArg Core.membership hs.core⟩
  | outbox hs =>
    rw [hs.eq]
    exact h.congr rfl rfl rfl rfl
  | gap p r _ =>
    obtain ⟨rows, heq⟩ := recordRoomHistoryRecoveryLocked_eq p r
      ⟨currentMembershipEpoch db p r, MindRoom.departureFenced db p r⟩ db
    rw [heq]
    exact h.congr rfl rfl rfl rfl
  | settle p recovery exhausted rank _ _ =>
    obtain ⟨rows, heq⟩ := settleRoomHistoryRecovery_eq p recovery exhausted rank db
    rw [heq]
    exact h.congr rfl rfl rfl rfl
  | claimed p r => exact h.congr rfl rfl rfl (ProjectionFrame.claim p r db).tenures
  | deleteOutbox | journal | snapshot | unselect | consume | consumers =>
    exact h.congr rfl rfl rfl rfl
  | fold p event n epoch _ hepoch =>
    have h' : DB.Represented { db with folded := db.folded ++ [(p, event)] } :=
      h.congr rfl rfl rfl rfl
    exact h'.foldEvent (hepoch hr)
  | install p k revision row _ _ _ _ => exact h.recordRefetchedRevision ..
  | drop p k => exact h.dropRefetchedMessage ..
  | discard p e => exact h.discardDeliveryEvent ..
  | hydrate row hepoch => exact MindRoom.Represented.hydrate h hepoch.symm
  | producer p effect _ => exact h.congr rfl rfl rfl rfl
  | departureFenced p r fenced _ =>
    have he : currentMembershipEpoch (setDepartureFenced p r fenced db) =
        currentMembershipEpoch db :=
      funext fun p' => funext fun r' =>
        currentMembershipEpoch_setDepartureFenced p r fenced db p' r'
    unfold DB.Represented
    rw [he]
    exact h
  | fence p r _ =>
    refine MindRoom.Represented.fence h fun p' r' hne => ?_
    exact (currentMembershipEpoch_setMembershipEpoch p r _ db p' r').trans
      (if_neg (Ne.symm hne))

/-- In every reachable state a visible row is readable or owes a refresh, no edit is held for a
message on record, and what was derived for a room carries the room's tenure. -/
theorem representation_invariant {host : Host} {s : DB}
    (hs : Reachable host (.run (fun _ => True) True fun _ _ => True) s) :
    (∀ r ∈ s.visibleMessages, r.contentJson = none ↔ r.refreshToken ≠ none) ∧
    (∀ u ∈ s.unresolvedEdits, ∀ r ∈ s.visibleMessages, u.Targets r → r.sender ≠ u.sender) ∧ (∀ r ∈ s.visibleMessages,
      r.membershipEpoch = currentMembershipEpoch s r.principalId r.roomId) ∧
    ∀ r ∈ s.conversationHydration, r.membershipEpoch = currentMembershipEpoch s r.principalId r.roomId := by
  have hcovers := Scope.run_covers (fun _ => True) True fun _ _ => True
  have h : s.Represented := by
    refine hs.invariant hcovers (fun clock => ?_) fun _ _ hst => hst.represented trivial
    exact ⟨fun _ hr => absurd hr Table.not_mem_empty, fun _ hu => absurd hu Table.not_mem_empty,
      fun _ hr => absurd hr Table.not_mem_empty, fun _ hr => absurd hr Table.not_mem_empty⟩
  exact ⟨h.stored, fun u hu r hr ht => absurd ht (h.held u hu r hr), h.visibleEpoch, h.hydrationEpoch⟩

/-! ## One run -/

namespace WithheldAnswer

def host : Host := ⟨id, id, fun _ => "", fun _ => ""⟩

def message (eventId : String) (ts : Int) : ProjectedEvent where
  eventId := eventId
  roomId := "!r"
  threadId := none
  sender := "@a"
  originServerTs := ts
  content := [("body", .str "answer")]
  replacesEventId := none
  redactsEventId := none
  transactionId := none

def edit (eventId target : String) (ts : Int) : ProjectedEvent :=
  { message eventId ts with
    content :=
      [("m.relates_to", .obj [("rel_type", .str "m.replace"), ("event_id", .str target)]),
        ("m.new_content", .obj [("body", .str "edited")])]
    replacesEventId := some target }

def redaction (eventId target : String) : ProjectedEvent :=
  { message eventId 0 with content := [], redactsEventId := some target }

/-- The edit on screen is redacted, and another one waits for its message. -/
def walk : List ProjectedEvent :=
  [message "$o" 1, edit "$e" "$o" 2, edit "$x" "$q" 3, redaction "$d" "$e"]

def walked : DB := step host "@p" (.installHydrationChunk "!r" walk 0) (DB.init fun _ => 0)

def hydrated : DB := step host "@p" (.markConversationHydrated "!r" none true 1 0) walked

theorem reachable_hydrated : Reachable host (.run (fun _ => True) True fun _ _ => True) hydrated := by
  refine ⟨fun _ => 0, .tail (.single (.op "@p" _ ?_)) (.op "@p" _ trivial)⟩
  intro event hevent
  have hroom : ∀ e ∈ walk, e.roomId = "!r" := by decide
  exact ⟨trivial, fun _ => hroom event hevent⟩

/-- The message owes a refresh, the edit is held, and both and the coverage are of this tenure. -/
theorem representation_hydrated : ((∀ r ∈ hydrated.visibleMessages, r.contentJson = none ↔ r.refreshToken ≠ none) ∧
      (∀ u ∈ hydrated.unresolvedEdits, ∀ r ∈ hydrated.visibleMessages, u.Targets r → r.sender ≠ u.sender) ∧
      (∀ r ∈ hydrated.visibleMessages, r.membershipEpoch = currentMembershipEpoch hydrated r.principalId r.roomId) ∧
      ∀ r ∈ hydrated.conversationHydration,
        r.membershipEpoch = currentMembershipEpoch hydrated r.principalId r.roomId) ∧
    (hydrated.visibleMessages.rows.map fun r => (r.logicalEventId, r.refreshToken)) =
      [("$o", some 0)] ∧
    (hydrated.unresolvedEdits.rows.map fun u => u.targetEventId) = ["$q"] ∧
    hydrated.conversationHydration.rows.length = 1 :=
  ⟨representation_invariant reachable_hydrated, by decide +kernel, by decide +kernel, by decide +kernel⟩

end WithheldAnswer

end MindRoom
