import MindRoom.TurnMerge

/-! # Facts that only grow

What no record of a turn may lose to a later one: redactions of its events, the receipt orders of
edits and stops, and the redaction of a revision, with the cleanup that was done for it.
-/

namespace MindRoom

/-! ## Revisions -/

/-- A redacted revision stays redacted, and owes no cleanup again once it owes none. -/
def RevisionsKept (before after : Mapping String RevisionReplay) : Prop :=
  ∀ k old, before.value? k = some old → old.redacted = true →
    ∃ new, after.value? k = some new ∧ new.redacted = true ∧
      (old.cleanupPending = false → new.cleanupPending = false)

theorem RevisionsKept.refl (m : Mapping String RevisionReplay) : RevisionsKept m m :=
  fun _ old hold hredacted => ⟨old, hold, hredacted, id⟩

theorem RevisionsKept.trans {a b c : Mapping String RevisionReplay} (h : RevisionsKept a b)
    (h' : RevisionsKept b c) : RevisionsKept a c := by
  intro k old hold hredacted
  obtain ⟨mid, hmid, hmidRedacted, hclean⟩ := h k old hold hredacted
  obtain ⟨new, hnew, hnewRedacted, hclean'⟩ := h' k mid hmid hmidRedacted
  exact ⟨new, hnew, hnewRedacted, fun hc => hclean' (hclean hc)⟩

/-- A fold keeps what each of its steps keeps. -/
theorem RevisionsKept.foldl {α : Type} {f : Mapping String RevisionReplay → α → Mapping String RevisionReplay}
    (hf : ∀ m a, RevisionsKept m (f m a)) (l : List α) (m : Mapping String RevisionReplay) :
    RevisionsKept m (l.foldl f m) := by
  induction l generalizing m with
  | nil => exact RevisionsKept.refl m
  | cons a l ih => exact (hf m a).trans (ih (f m a))

/-- Setting a revision that is there to one with the same redaction and cleanup keeps revisions. -/
theorem RevisionsKept.set {m : Mapping String RevisionReplay} {k : String} {old new : RevisionReplay}
    (hold : m.value? k = some old) (hredacted : old.redacted = true → new.redacted = true)
    (hclean : old.redacted = true → old.cleanupPending = false → new.cleanupPending = false) :
    RevisionsKept m (m.set k new) := by
  intro k' old' hold' hredacted'
  rw [Mapping.value?_set]
  by_cases hk : k = k'
  · subst hk
    obtain rfl := Option.mem_unique hold hold'
    exact ⟨new, if_pos rfl, hredacted hredacted', hclean hredacted'⟩
  · exact ⟨old', by rw [if_neg hk, hold'], hredacted', id⟩

theorem RevisionsKept.setdefault (m : Mapping String RevisionReplay) (k : String)
    (v : RevisionReplay) : RevisionsKept m (m.setdefault k v) := by
  intro k' old hold hredacted
  refine ⟨old, ?_, hredacted, id⟩
  rw [Mapping.value?_setdefault, hold]
  simp

theorem selectedReplay_kept (candidate : TurnRecord) :
    RevisionsKept candidate.revisionReplay candidate.selectedReplay := by
  apply RevisionsKept.foldl
  intro m item
  dsimp only
  split
  · exact RevisionsKept.setdefault _ _ _
  · exact RevisionsKept.refl m

@[simp] theorem preserveSummaryProvenance_redacted (current previous : RevisionReplay) :
    (preserveSummaryProvenance current previous).redacted = current.redacted := by
  unfold preserveSummaryProvenance
  split <;> rfl

@[simp] theorem preserveSummaryProvenance_cleanupPending (current previous : RevisionReplay) :
    (preserveSummaryProvenance current previous).cleanupPending = current.cleanupPending := by
  unfold preserveSummaryProvenance
  split <;> rfl

/-- What a redacted revision is joined to is redacted, and clean if it was. -/
theorem RevisionReplay.join_redacted {old : RevisionReplay} {new : Option RevisionReplay}
    (h : old.redacted = true) : (old.join new).redacted = true ∧
      (old.cleanupPending = false → (old.join new).cleanupPending = false) := by
  unfold RevisionReplay.join
  simp only [preserveSummaryProvenance_redacted, preserveSummaryProvenance_cleanupPending]
  cases new with
  | none => exact ⟨h, id⟩
  | some new =>
    dsimp only
    by_cases hnew : new.redacted = true
    · rw [if_neg fun hboth => hboth.2 hnew, if_pos ⟨h, hnew⟩]
      refine ⟨h, fun hclean => ?_⟩
      change (old.cleanupPending && new.cleanupPending) = false
      rw [hclean, Bool.false_and]
    · rw [if_pos ⟨h, hnew⟩]
      exact ⟨h, id⟩

theorem RevisionReplay.join_redacted_some {old new : RevisionReplay} (h : new.redacted = true) :
    (old.join (some new)).redacted = true ∧
      (new.cleanupPending = false → (old.join (some new)).cleanupPending = false) := by
  unfold RevisionReplay.join
  simp only [preserveSummaryProvenance_redacted, preserveSummaryProvenance_cleanupPending]
  by_cases hold : old.redacted = true
  · rw [if_neg fun hboth => hboth.2 h, if_pos ⟨hold, h⟩]
    refine ⟨hold, fun hclean => ?_⟩
    change (old.cleanupPending && new.cleanupPending) = false
    rw [hclean, Bool.and_false]
  · rw [if_neg fun hboth => hold hboth.1, if_neg fun hboth => hold hboth.1]
    split <;> exact ⟨h, id⟩

/-- Joining keeps the revisions of both sides. -/
theorem joinReplay_kept (replay authority : Mapping String RevisionReplay) :
    RevisionsKept replay (TurnRecord.joinReplay replay authority) ∧
      RevisionsKept authority (TurnRecord.joinReplay replay authority) := by
  unfold TurnRecord.joinReplay
  constructor
  · intro k new hnew hredacted
    rw [Mapping.value?_joinWith, hnew]
    cases hold : authority.value? k with
    | none => exact ⟨new, rfl, hredacted, id⟩
    | some old => exact ⟨_, rfl, RevisionReplay.join_redacted_some hredacted⟩
  · intro k old hold hredacted
    rw [Mapping.value?_joinWith, hold]
    exact ⟨_, rfl, RevisionReplay.join_redacted hredacted⟩

theorem tombstoneReplay_kept (replay : Mapping String RevisionReplay) (tombstonedEventIds : List String) :
    RevisionsKept replay (TurnRecord.tombstoneReplay replay tombstonedEventIds) := by
  apply RevisionsKept.foldl
  intro m e
  split
  · next value hvalue =>
    split
    · exact RevisionsKept.refl m
    · next hnot =>
      exact RevisionsKept.set hvalue (fun _ => rfl) fun hredacted => absurd hredacted hnot
  · exact RevisionsKept.refl m

theorem restoreProofs_kept (proofs replay : Mapping String RevisionReplay) :
    RevisionsKept replay (restoreProofs proofs replay) := by
  apply RevisionsKept.foldl
  intro m item
  split
  · next response value _ hvalue => exact RevisionsKept.set hvalue id fun _ => id
  · exact RevisionsKept.refl m

/-- Sanitising keeps the revisions of the candidate and of its authority. -/
theorem sanitizeRevisionReplay_kept (candidate : TurnRecord) (authority : Option TurnRecord)
    (tombstonedEventIds : List String) : RevisionsKept candidate.revisionReplay
        (sanitizeRevisionReplay candidate authority tombstonedEventIds).revisionReplay ∧
      ∀ r ∈ authority, RevisionsKept r.revisionReplay
        (sanitizeRevisionReplay candidate authority tombstonedEventIds).revisionReplay := by
  have htombstone := tombstoneReplay_kept
    (TurnRecord.joinReplay candidate.selectedReplay (authority.elim ∅ (·.revisionReplay)))
    tombstonedEventIds
  obtain ⟨hself, hauthority⟩ := joinReplay_kept candidate.selectedReplay
    (authority.elim ∅ (·.revisionReplay))
  constructor
  · exact ((selectedReplay_kept candidate).trans hself).trans htombstone
  · rintro r ⟨rfl⟩
    exact hauthority.trans htombstone

/-! ## Records -/

structure TurnRecord.Grows (before after : TurnRecord) : Prop where
  redactions : ∀ e ∈ before.redactedSourceEventIds, e ∈ after.redactedSourceEventIds
  latestEdit : NotBelow before.latestEditReceiptOrder after.latestEditReceiptOrder
  userStop : NotBelow before.userStopReceiptOrder after.userStopReceiptOrder
  revisions : RevisionsKept before.revisionReplay after.revisionReplay

namespace TurnRecord

theorem Grows.refl (r : TurnRecord) : r.Grows r :=
  ⟨fun _ => id, NotBelow.refl _, NotBelow.refl _, RevisionsKept.refl _⟩

theorem Grows.trans {a b c : TurnRecord} (h : a.Grows b) (h' : b.Grows c) : a.Grows c :=
  ⟨fun e he => h'.redactions e (h.redactions e he), h.latestEdit.trans h'.latestEdit,
    h.userStop.trans h'.userStop, h.revisions.trans h'.revisions⟩

theorem SameFacts.grows {r r' : TurnRecord} (h : r.SameFacts r')
    (hrevisions : RevisionsKept r.revisionReplay r'.revisionReplay) : r.Grows r' where
  redactions _ he := h.redactions.symm ▸ he
  latestEdit := h.latestEdit.symm ▸ NotBelow.refl _
  userStop := h.userStop.symm ▸ NotBelow.refl _
  revisions := hrevisions

/-- Reading a stored record back loses nothing. -/
theorem fromLedgerRecord_grows {e : String} {r r' : TurnRecord} (hr : r.Canonical)
    (h : fromLedgerRecord e r = some r') : r.Grows r' := by
  have hrevisions : RevisionsKept r.revisionReplay (r.revisionReplay.mapValues fun _ revision =>
      { revision with responseEventId := canonicalOptionalString revision.responseEventId }) := by
    intro k old hold hredacted
    rw [Mapping.value?_mapValues, hold]
    exact ⟨_, rfl, hredacted, id⟩
  have hsame : r.SameFacts
      { r with
        revisionReplay := r.revisionReplay.mapValues fun _ revision =>
          { revision with responseEventId := canonicalOptionalString revision.responseEventId }
        sourceEventMetadata := r.sourceEventMetadata.map readSourceEventMetadata } :=
    ⟨⟨rfl, rfl, rfl, rfl⟩, rfl, rfl, rfl, rfl, rfl, rfl⟩
  unfold fromLedgerRecord at h
  split at h
  · cases h
  · dsimp only at h
    split at h
    · cases h
      exact (hsame.canonicalize hr).grows hrevisions
    · cases h

end TurnRecord

/-! ## Merging -/

/-- The newer record keeps every event either record of its turn has redacted. -/
theorem keepOlder_redactions {newer older : TurnRecord} (hn : newer.Canonical) (ho : older.Canonical)
    (hsources : older.sourceEventIds = newer.sourceEventIds) {e : String}
    (he : e ∈ newer.redactedSourceEventIds ∨ e ∈ older.redactedSourceEventIds) :
    e ∈ (keepOlder newer older).redactedSourceEventIds := by
  have hindexed : ∀ r : TurnRecord, r.Canonical → e ∈ r.redactedSourceEventIds →
      e ≠ "" ∧ (e ∈ r.sourceEventIds ∨ e ∈ r.discoveryEventIds) := by
    intro r hr hmem
    rw [← hr.redactions, List.mem_filter, mem_canonicalSourceEventIds, decide_eq_true_iff] at hmem
    exact ⟨hmem.1.2, List.mem_append.mp hmem.2⟩
  have hmem : e ≠ "" ∧ (e ∈ newer.sourceEventIds ∨
      e ∈ newer.discoveryEventIds ∨ e ∈ older.discoveryEventIds) := by
    rcases he with he | he
    · obtain ⟨hne, hin⟩ := hindexed newer hn he
      exact ⟨hne, hin.imp_right .inl⟩
    · obtain ⟨hne, hin⟩ := hindexed older ho he
      rw [hsources] at hin
      exact ⟨hne, hin.imp_right .inr⟩
  have hcanonical : canonicalSourceEventIds newer.sourceEventIds = newer.sourceEventIds := hn.sources
  change e ∈ List.filter (fun e => decide (e ∈ canonicalSourceEventIds newer.sourceEventIds ++
    List.filter (fun e => decide (e ∉ canonicalSourceEventIds newer.sourceEventIds))
      (canonicalSourceEventIds (newer.discoveryEventIds ++ older.discoveryEventIds))))
    (canonicalSourceEventIds (newer.redactedSourceEventIds ++ older.redactedSourceEventIds))
  simp only [hcanonical, List.mem_filter, mem_canonicalSourceEventIds, List.mem_append, decide_eq_true_iff]
  refine ⟨⟨he, hmem.1⟩, ?_⟩
  by_cases hin : e ∈ newer.sourceEventIds
  · exact .inl hin
  · exact .inr ⟨⟨hmem.2.resolve_left hin, hmem.1⟩, hin⟩

theorem mergeSameIdentityRecords_grows {candidate existing : TurnRecord} (hc : candidate.Canonical)
    (he : existing.Canonical) (hsame : SameTurnIdentity existing candidate) :
    existing.Grows (mergeSameIdentityRecords candidate existing) := by
  have hjoins := mergeSameIdentityRecords_joins hc he hsame
  have hstop : NotBelow existing.userStopReceiptOrder
      (mergeSameIdentityRecords candidate existing).userStopReceiptOrder := by
    rw [hjoins.userStop, maxOrder_comm]
    exact NotBelow.maxOrder he.userStop _
  have hedit : NotBelow existing.latestEditReceiptOrder
      (mergeSameIdentityRecords candidate existing).latestEditReceiptOrder := by
    rw [hjoins.latestEdit, maxOrder_comm]
    exact NotBelow.maxOrder he.latestEdit _
  have hc' := sanitizeRevisionReplay_sameFacts hc (some existing) []
  have hcc := sanitizeRevisionReplay_canonical candidate (some existing) []
  have hcr := (sanitizeRevisionReplay_kept candidate (some existing) []).2 existing rfl
  refine ⟨?_, hedit, hstop, ?_⟩
  all_goals
    unfold mergeSameIdentityRecords
    dsimp only
    generalize sanitizeRevisionReplay candidate (some existing) [] = c at hc' hcc hcr
    have he' := sanitizeRevisionReplay_sameFacts he (some c) []
    have hec := sanitizeRevisionReplay_canonical existing (some c) []
    have her := (sanitizeRevisionReplay_kept existing (some c) []).1
    generalize sanitizeRevisionReplay existing (some c) [] = x at he' hec her
  · intro e hred
    have hx : e ∈ x.redactedSourceEventIds := he'.redactions.symm ▸ hred
    have hsources : x.sourceEventIds = c.sourceEventIds := by
      rw [he'.sources, hc'.sources, hsame.1]
    have hfirst := keepOlder_redactions hcc hec hsources (.inr hx)
    have hsecond := keepOlder_redactions hec hcc hsources.symm (.inl hx)
    split
    · split
      · exact hfirst
      · exact hsecond
    · split
      · exact hfirst
      · exact hsecond
  · split
    · split
      · exact hcr
      · exact her
    · split
      · exact hcr
      · exact her

theorem mergeCommittedResponse_grows {current committed m : TurnRecord} (hc : current.Canonical)
    {tombstonedEventIds : List String}
    (h : mergeCommittedResponse (some current) committed tombstonedEventIds = some m) :
    current.Grows m := by
  obtain ⟨_, hanswers, hedit⟩ := mergeCommittedResponse_answers hc h
  refine ⟨fun e he => hanswers.redactions.symm ▸ he, hedit, hanswers.userStop.symm ▸ NotBelow.refl _, ?_⟩
  unfold mergeCommittedResponse at h
  dsimp only at h
  split at h
  · cases h
  · cases h
    have hauthority := (sanitizeRevisionReplay_kept committed (some current) tombstonedEventIds).2
      current rfl
    generalize sanitizeRevisionReplay committed (some current) tombstonedEventIds = answer at hauthority ⊢
    generalize hmerged : TurnRecord.canonicalize _ = merged
    have hreplay : merged.revisionReplay = restoreProofs committed.revisionReplay answer.revisionReplay := by
      rw [← hmerged]
      rfl
    have hsanitized := (sanitizeRevisionReplay_kept merged none tombstonedEventIds).1
    rw [hreplay] at hsanitized
    exact (hauthority.trans (restoreProofs_kept _ _)).trans hsanitized

namespace TurnRecords

variable {records : Mapping String TurnRecord}

/-- Where every stored record is of one turn, no alias of it is dropped. -/
theorem keepDiscovery_grows {m : TurnRecord} (hm : m.Canonical)
    (hrecords : ∀ e r, records.value? e = some r → SameTurnIdentity r m) : m.Grows (keepDiscovery m records) := by
  have hfilter : m.discoveryEventIds.filter (fun e => (records.value? e).all fun existing =>
      !existing.completed || SameTurnIdentity existing m) = m.discoveryEventIds := by
    rw [List.filter_eq_self]
    intro e _
    cases hr : records.value? e with
    | none => rfl
    | some r => simp [hrecords e r hr]
  have hsame : m.SameFacts { m with
      discoveryEventIds := m.discoveryEventIds.filter fun e =>
        (records.value? e).all fun existing => !existing.completed || SameTurnIdentity existing m } :=
    ⟨⟨rfl, hfilter, rfl, rfl⟩, rfl, rfl, rfl, rfl, rfl, rfl⟩
  exact (hsame.canonicalize hm).grows (RevisionsKept.refl _)

/-- A candidate of a stored turn grows from what every stored record of it has. -/
theorem joinStoredTurn_grows {base p : TurnRecord} (hp : p.Canonical) (hrecords : AllCanonical records)
    (hbase : ∀ r, StoredTurn records p r → base.Grows r) {stored : TurnRecord}
    (hstored : StoredTurn records p stored) : base.Grows (joinStoredTurn p records) := by
  unfold joinStoredTurn
  dsimp only
  generalize hbest : TurnRecord.highestPrecedence _ = best
  cases best with
  | none =>
    obtain ⟨e, he, hr, hsame⟩ := hstored
    have hnone := List.filterMap_eq_nil_iff.mp (highestPrecedence_eq_none hbest) e he
    rw [hr] at hnone
    simp [Option.filter, hsame] at hnone
  | some existing =>
    obtain ⟨e, he, hfilter⟩ := List.mem_filterMap.mp (highestPrecedence_mem hbest)
    obtain ⟨hr, hsame⟩ := Option.mem_filter_iff.mp hfilter
    have hsame : SameTurnIdentity existing p := by simpa using hsame
    exact (hbase existing ⟨e, he, hr, hsame⟩).trans
      (mergeSameIdentityRecords_grows hp (hrecords e existing hr) hsame)

/-- Where every stored record is of the candidate's turn, nothing is detached. -/
theorem detachConflicts_of_sameTurn {s p : TurnRecord}
    (hs : s.Canonical) (hrecords : ∀ e r, records.value? e = some r → SameTurnIdentity r s)
    (h : detachConflicts s records = some p) : p = s := by
  rcases detachConflicts_eq_some hs h with ⟨_, hps⟩ | ⟨hne, _⟩
  · exact hps
  · obtain ⟨x, hx⟩ := List.exists_mem_of_ne_nil _ hne
    obtain ⟨_, hany⟩ := List.mem_filter.mp hx
    cases hr : records.value? x with
    | none => simp [hr] at hany
    | some r => simp [hr, hrecords x r hr] at hany

theorem keepCommitted_grows {current : Option TurnRecord} {c f : TurnRecord} (hc : c.Canonical)
    (h : keepCommitted current c = some f) : c.Grows f := by
  unfold keepCommitted at h
  cases current with
  | none =>
    cases h
    exact TurnRecord.Grows.refl c
  | some current =>
    dsimp only at h
    split at h
    · exact mergeCommittedResponse_grows hc h
    · cases h
      exact TurnRecord.Grows.refl c

theorem forgetCleaned_grows (outbox : Table OutboxRow) (current : Option TurnRecord) (c : TurnRecord) :
    c.Grows (forgetCleaned outbox current c) := by
  unfold forgetCleaned
  split
  · split
    · exact ⟨fun _ => id, NotBelow.refl _, NotBelow.refl _, RevisionsKept.refl _⟩
    · exact TurnRecord.Grows.refl c
  · exact TurnRecord.Grows.refl c

/-- A cached ledger write of a stored turn grows from what every stored record of it has. -/
theorem writtenRecord_grows {outbox : Table OutboxRow}
    {base c f : TurnRecord} (hc : c.Canonical) (hrecords : AllCanonical records)
    (hturn : ∀ e r, records.value? e = some r → SameTurnIdentity r c ∧ base.Grows r) {e : String}
    {stored : TurnRecord} (he : e ∈ c.indexedEventIds) (hstored : records.value? e = some stored)
    (h : writtenRecord outbox records c = some f) : base.Grows f := by
  have hs := sanitizeRevisionReplay_sameFacts hc none (tombstonedRevisions c records)
  have hsc := sanitizeRevisionReplay_canonical c none (tombstonedRevisions c records)
  obtain ⟨m, hm, hrest⟩ := Option.bind_eq_some_iff.mp h
  obtain ⟨k, hk, hf⟩ := Option.bind_eq_some_iff.mp hrest
  obtain ⟨p, hp, rfl⟩ := Option.map_eq_some_iff.mp hm
  generalize sanitizeRevisionReplay c none (tombstonedRevisions c records) = s at hs hsc hp
  have hsame : ∀ e r, records.value? e = some r → SameTurnIdentity r s := by
    intro e r hr
    obtain ⟨hsources, hanchor⟩ := (hturn e r hr).1
    exact ⟨hsources.trans hs.sources.symm, hanchor.trans hs.anchor.symm⟩
  obtain rfl := detachConflicts_of_sameTurn hsc hsame hp
  have hbase := joinStoredTurn_grows hsc hrecords (fun r ⟨e, _, hr, _⟩ => (hturn e r hr).2)
    ⟨e, hs.indexed.symm ▸ he, hstored, hsame e stored hstored⟩
  obtain ⟨_, _, hjoins⟩ := joinStoredTurn_joins hsc hrecords
  have hkept : (joinStoredTurn p records).Grows (keepDiscovery (joinStoredTurn p records) records) := by
    apply keepDiscovery_grows hjoins.canonical
    intro e r hr
    obtain ⟨hsources, hanchor⟩ := hsame e r hr
    exact ⟨hsources.trans hjoins.sources.symm, hanchor.trans hjoins.anchor.symm⟩
  have hcommitted := keepCommitted_grows (hjoins.keepDiscovery records).canonical hk
  rw [← Option.some.inj hf]
  exact ((hbase.trans hkept).trans hcommitted).trans (forgetCleaned_grows _ _ _)

/-- What a delivered answer stores grows from the record that is there. -/
theorem committedRecord_grows {c f current : TurnRecord}
    (hrecords : AllCanonical records) (hcurrent : currentRecord records c = some current)
    (h : committedRecord records c = .ok (some f)) : current.Grows f := by
  obtain ⟨e, _, he⟩ := List.exists_of_findSome?_eq_some hcurrent
  unfold committedRecord at h
  dsimp only at h
  split at h
  · cases h
  · rw [hcurrent] at h
    split at h
    · obtain rfl := Option.some.inj (Except.ok.inj h)
      exact TurnRecord.Grows.refl current
    · split at h
      · cases h
      · exact mergeCommittedResponse_grows (hrecords e current he) (Except.ok.inj h)

end TurnRecords

end MindRoom
