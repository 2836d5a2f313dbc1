import MindRoom.TurnHistory

/-! # Coherence of the turn-record index

Whatever records are written, an agent's rows under one anchor are those of one record: each of
them holds it, the anchor is its own, and their events are the ones it is indexed by.
-/

namespace MindRoom.TurnRecords

/-- The rows that share an agent and an anchor with a row are exactly the rows of its record. -/
structure CoherentAt (rows : Table TurnRecordRow) (r : TurnRecordRow) : Prop where
  same : ∀ r' ∈ rows, r'.agentName = r.agentName → r'.anchorEventId = r.anchorEventId →
    r'.recordJson = r.recordJson
  record : ∃ record, decodeRow r = .ok record ∧ record.anchorEventId = some r.anchorEventId ∧
    ∀ e, e ∈ record.indexedEventIds ↔ ∃ r' ∈ rows, r'.agentName = r.agentName ∧
      r'.anchorEventId = r.anchorEventId ∧ r'.indexEventId = e

def Coherent (rows : Table TurnRecordRow) : Prop := ∀ r ∈ rows, CoherentAt rows r

/-- One record under one anchor, besides the group of every row. -/
structure OneRecord (rows : Table TurnRecordRow) : Prop where
  stored : AllStored rows
  eq_record : ∀ r ∈ rows, ∀ r' ∈ rows, r'.agentName = r.agentName → r'.anchorEventId = r.anchorEventId →
    r'.recordJson = r.recordJson

variable {rows rows' : Table TurnRecordRow} {agentName anchorEventId : String} {record : TurnRecord}

theorem oneRecord_empty : OneRecord ∅ where
  stored := allStored_empty
  eq_record _ hr := absurd hr Table.not_mem_empty

/-- A write takes away every other row with its anchor, whether or not the anchor is one of the
record's events. -/
theorem OneRecord.upsert (h : OneRecord rows) (hcanonical : record.Canonical)
    (hanchor : record.anchorEventId = some anchorEventId) (hnamed : anchorEventId ≠ "")
    (hsourced : record.sourceEventIds ≠ []) :
    OneRecord (upsert rows agentName record.indexedEventIds anchorEventId record) := by
  have hids : record.indexedEventIds ≠ [] := by
    intro hnil
    exact hsourced (List.append_eq_nil_iff.mp hnil).1
  refine ⟨h.stored.upsert hcanonical hanchor hnamed hsourced, ?_⟩
  intro r hr r' hr' hagent hsame
  rcases (mem_upsert hids).mp hr with ⟨e, -, rfl⟩ | ⟨hold, hkept⟩
  · rcases (mem_upsert hids).mp hr' with ⟨e', -, rfl⟩ | ⟨-, hkept'⟩
    · rfl
    · exact absurd ⟨hagent, .inr (.inl hsame)⟩ hkept'
  · rcases (mem_upsert hids).mp hr' with ⟨e', -, rfl⟩ | ⟨hold', -⟩
    · exact absurd ⟨hagent.symm, .inr (.inl hsame.symm)⟩ hkept
    · exact h.eq_record r hold r' hold' hagent hsame

theorem OneRecord.coherent (h : OneRecord rows) : Coherent rows := by
  intro r hr
  refine ⟨h.eq_record r hr, ?_⟩
  have hstored := h.stored r hr
  have hanchor : canonicalOptionalString r.recordJson.anchorEventId ≠ none := by
    rw [hstored.anchor]
    simp [canonicalOptionalString, Option.filter, hstored.named]
  rcases TurnRecord.fromLedgerRecord_canonical hstored.canonical hstored.indexed hanchor hstored.sourced with
    ⟨record, hrecord, hfacts, -⟩
  have hdecode : decodeRow r = .ok record := by
    unfold decodeRow
    rw [hrecord]
    rfl
  refine ⟨record, hdecode, hfacts.anchor.trans hstored.anchor, fun e => ?_⟩
  rw [hfacts.indexed]
  constructor
  · intro he
    exact ⟨_, hstored.group e he, rfl, rfl, rfl⟩
  · rintro ⟨r', hr', hagent, hsame, rfl⟩
    rw [← h.eq_record r hr r' hr' hagent hsame]
    exact (h.stored r' hr').indexed

/-! ## Writes -/

theorem anchor_ne_of_canonical {r : TurnRecord} (h : r.Canonical) : r.anchorEventId ≠ some "" := by
  intro hempty
  have hanchor := h.anchor
  rw [hempty] at hanchor
  exact h.not_mem_empty (List.mem_of_getLast? hanchor)

/-- What a cached write stores is of a turn. -/
theorem writtenRecord_sourced {outbox : Table OutboxRow} {records : Mapping String TurnRecord} {c f : TurnRecord}
    (hrecords : AllCanonical records) (hc : c.Canonical) (hsourced : c.sourceEventIds ≠ [])
    (hf : writtenRecord outbox records c = some f) : f.Canonical ∧ f.sourceEventIds ≠ [] := by
  rcases writtenRecord_writes hrecords hf with ⟨ts, p, hp, hwrites⟩
  refine ⟨hwrites.canonical, ?_⟩
  rw [hwrites.sources]
  rcases detachConflicts_eq_some (sanitizeRevisionReplay_canonical c none ts) hp with
    ⟨-, rfl⟩ | ⟨-, hprojects⟩
  · rw [(sanitizeRevisionReplay_sameFacts hc none ts).sources]
    exact hsourced
  · rw [hprojects.sources]
    exact hprojects.nonempty

/-- What a delivered answer stores is of a turn. -/
theorem Claims.committed_sourced (hs : AllStored rows) {c f : TurnRecord} {records : Mapping String TurnRecord}
    (h : Claims rows agentName c records) (hc : c.Canonical) (hsourced : c.sourceEventIds ≠ [])
    (hf : committedRecord records c = .ok (some f)) : f.Canonical ∧ f.sourceEventIds ≠ [] := by
  rcases committedRecord_eq_ok h.canonical hc hf with
    ⟨-, ⟨-, hfc, hsame, -⟩ | ⟨current, hcurrent, hsame, hfc, -⟩⟩
  · exact ⟨hfc, hsame.sources ▸ hsourced⟩
  · rcases List.exists_of_findSome?_eq_some hcurrent with ⟨e, -, he⟩
    rcases h.sound e current he with ⟨-, row, hrow, -, -, hfacts⟩
    refine ⟨hfc, ?_⟩
    rw [hsame.sources, hfacts.sources]
    exact (hs row hrow).sourced

theorem TurnWrite.run_oneRecord {w : TurnWrite} (h : OneRecord rows) (hrun : w.run rows = .ok rows') :
    OneRecord rows' := by
  have hstore : ∀ (f : TurnRecord) (a : String), f.Canonical ∧ f.sourceEventIds ≠ [] →
      f.anchorEventId = some a →
      OneRecord (TurnRecords.upsert rows w.agentName f.indexedEventIds a f) := by
    rintro f a ⟨hcanonical, hsourced⟩ ha
    exact h.upsert hcanonical ha (fun hempty => anchor_ne_of_canonical hcanonical (hempty ▸ ha)) hsourced
  cases w with
  | cached outbox agentName ids anchor recordJson =>
    rcases Transaction.except_bind_eq_ok.mp hrun with ⟨⟨result, rows₁⟩, hwrite, hrows⟩
    obtain rfl := Except.ok.inj hrows
    rcases writeRecord_eq_ok hwrite with ⟨c, records, hc, hclaim, rfl, ⟨-, rfl⟩ | ⟨f, a, hf, ha, rfl⟩⟩
    · exact h
    · rcases @TurnWrite.candidate_canonical (.cached outbox agentName ids anchor recordJson) c hc with
        ⟨hcanonical, hsourced, -⟩
      have hclaims := claimTurnRecords_claims h.stored hclaim
      exact hstore f a (writtenRecord_sourced hclaims.canonical hcanonical hsourced hf) ha
  | terminal prepared =>
    rcases Transaction.except_bind_eq_ok.mp hrun with ⟨⟨result, rows₁⟩, hwrite, hrows⟩
    obtain rfl := Except.ok.inj hrows
    rcases commitTerminal_eq_ok hwrite with ⟨c, records, hc, hclaim, rfl | ⟨f, a, hf, ha, rfl⟩⟩
    · exact h
    · rcases @TurnWrite.candidate_canonical (.terminal prepared) c hc with ⟨hcanonical, hsourced, -⟩
      have hclaims := claimTurnRecords_claims h.stored hclaim
      exact hstore f a (hclaims.committed_sourced h.stored hcanonical hsourced hf) ha

/-- The rows after a write. A write that raises is rolled back. -/
def TurnWrite.leave (w : TurnWrite) (rows : Table TurnRecordRow) : Table TurnRecordRow :=
  match w.run rows with
  | .ok rows' => rows'
  | .error _ => rows

theorem TurnWrite.leave_oneRecord (w : TurnWrite) (h : OneRecord rows) : OneRecord (w.leave rows) := by
  unfold TurnWrite.leave
  split
  · next hrun => exact TurnWrite.run_oneRecord h hrun
  · exact h

theorem oneRecord_foldl (writes : List TurnWrite) (h : OneRecord rows) :
    OneRecord (writes.foldl (fun rows w => w.leave rows) rows) := by
  induction writes generalizing rows with
  | nil => exact h
  | cons w writes ih => exact ih (w.leave_oneRecord h)

/-- After every sequence of writes of turn records on an empty table, the rows of an agent that
share an anchor are those of one record. -/
theorem coherent_of_writes (writes : List TurnWrite) : Coherent (writes.foldl (fun rows w => w.leave rows) ∅) :=
  (oneRecord_foldl writes oneRecord_empty).coherent

end MindRoom.TurnRecords
