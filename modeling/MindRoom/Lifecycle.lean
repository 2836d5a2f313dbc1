import MindRoom.StoreWrites

/-! # The lifecycle of a journal row

A journal row is the proof that an event had its one turn. No operation loses it or changes its
identity, it is settled at most once, and the consumer that claimed it keeps it.
-/

namespace MindRoom

open Transaction

variable {b : Scope}

instance : IsPreorder (Table JournalRow) Ages where
  refl := Ages.refl
  trans _ _ _ := Ages.trans

theorem Statement.ages {db db' : DB} (h : Statement b db db') : Ages db.journalEvents db'.journalEvents := by
  have hsame : ∀ {s s' : DB}, s'.journalEvents = s.journalEvents →
      Ages s.journalEvents s'.journalEvents := fun heq => heq ▸ Ages.refl _
  cases h with
  | journal rows ha => exact ha
  | amend h => exact hsame (congrArg Core.journal h.core)
  | outbox h =>
    rw [h.eq]
    exact Ages.refl _
  | gap p r _ =>
    obtain ⟨rows, heq⟩ := recordRoomHistoryRecoveryLocked_eq p r
      ⟨currentMembershipEpoch db p r, MindRoom.departureFenced db p r⟩ db
    rw [heq]
    exact Ages.refl _
  | settle p recovery exhausted rank _ _ =>
    obtain ⟨rows, heq⟩ := settleRoomHistoryRecovery_eq p recovery exhausted rank db
    rw [heq]
    exact Ages.refl _
  | fold p event n epoch _ _ => exact hsame (ProjectionFrame.fold p event n epoch db).journalEvents
  | install p k revision row _ _ _ _ =>
    exact hsame (ProjectionFrame.recordRefetchedRevision p k revision row db).journalEvents
  | drop p k => exact hsame (ProjectionFrame.dropRefetchedMessage p k db).journalEvents
  | discard p e => exact hsame (ProjectionFrame.discardDeliveryEvent p e db).journalEvents
  | claimed | deleteOutbox | snapshot | unselect | consume | hydrate | fence | departureFenced
  | producer | consumers => exact hsame rfl

/-- From any reachable state on, no journal row is lost, each one only ages, and a settled one
has released its payload and its consumer. -/
theorem journal_lifecycle {host : Host} {s s' : DB} (hs : Reachable host .any s) (hrun : Run host .any s s') :
    (∀ r ∈ s.journalEvents, ∃ r' ∈ s'.journalEvents, r.Ages r') ∧ ∀ r ∈ s'.journalEvents, r.Released := by
  have hcovers := Scope.run_covers (fun _ => True) False fun _ _ => True
  have hstep : ∀ t t', Statement .any t t' → Ages s.journalEvents t.journalEvents →
      Ages s.journalEvents t'.journalEvents := fun _ _ hst hages => hages.trans hst.ages
  have hages : Ages s.journalEvents s'.journalEvents :=
    @statements_preserve _ _ _ (fun t => Ages s.journalEvents t.journalEvents) hstep
      (hrun.statements hcovers hs) (Ages.refl _)
  refine ⟨hages.rows, hages.released ?_⟩
  exact hs.invariant hcovers (fun clock r hr => absurd hr Table.not_mem_empty)
    fun _ _ h => h.ages.released

/-! ## One run -/

namespace OneReaction

def host : Host := ⟨id, id, fun _ => "", fun _ => ""⟩

def reaction : InboundEvent where
  eventId := "$r"
  roomId := "!r"
  threadId := none
  kind := .reaction
  eventClass := .actionable
  sender := "@u"
  originServerTs := 1
  source := []

def admitted : DB := step host "p" (.admitEvent reaction none) (DB.init fun _ => 0)

def consumed : DB := step host "p" (.claimSemanticConsumer "$r" .stopReaction) admitted

def settled : DB := step host "p" (.settle "$r") consumed

/-- The reaction is claimed and settled, and its row is still there, released. -/
theorem lifecycle_settled : ((∀ r ∈ consumed.journalEvents, ∃ r' ∈ settled.journalEvents, r.Ages r') ∧
      ∀ r ∈ settled.journalEvents, r.Released) ∧
    (consumed.journalEvents.rows.map fun r => (r.eventId, r.state, r.semanticConsumer)) =
      [("$r", .pending, some .stopReaction)] ∧
    (settled.journalEvents.rows.map fun r => (r.eventId, r.state, r.semanticConsumer)) =
      [("$r", .settled, none)] := by
  have hconsumed : Reachable host .any consumed :=
    ⟨fun _ => 0, .tail (.single (.op "p" _ (Op.admissible_any ..)))
      (.op "p" _ (Op.admissible_any ..))⟩
  exact ⟨journal_lifecycle hconsumed (.single (.op "p" _ (Op.admissible_any ..))), by decide +kernel, by decide +kernel⟩

end OneReaction

end MindRoom
