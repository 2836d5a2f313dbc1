import Mathlib.Data.List.Dedup
import MindRoom.Transaction
import MindRoom.TurnFacts

/-! # The rows of a turn

One record is stored under every event of its turn, so the rows of an agent fall into groups:
one for each turn, with the turn's anchor and its record on every row. Every write replaces
whole groups.
-/

namespace MindRoom.TurnRecords

/-! ## Replacing rows -/

theorem mem_foldl_upsert {rows : Table TurnRecordRow} {agentName anchorEventId : String}
    {record : TurnRecord} {ids : List String} {r : TurnRecordRow} :
    r ∈ ids.foldl (fun rows e =>
      rows.upsert ⟨agentName, e, anchorEventId, record⟩ (fun _ => True)
        (fun r => { r with anchorEventId := anchorEventId, recordJson := record })) rows ↔
      (∃ e ∈ ids, r = ⟨agentName, e, anchorEventId, record⟩) ∨
        (r ∈ rows ∧ ¬ (r.agentName = agentName ∧ r.indexEventId ∈ ids)) := by
  induction ids generalizing rows with
  | nil => simp
  | cons e ids ih =>
    have hone : r ∈ rows.upsert ⟨agentName, e, anchorEventId, record⟩ (fun _ => True)
        (fun r => { r with anchorEventId := anchorEventId, recordJson := record }) ↔
        r = ⟨agentName, e, anchorEventId, record⟩ ∨
          (r ∈ rows ∧ ¬ (r.agentName = agentName ∧ r.indexEventId = e)) := by
      rw [Table.mem_upsert]
      have hkey : ∀ r' : TurnRecordRow,
          key r' = key (⟨agentName, e, anchorEventId, record⟩ : TurnRecordRow) ↔
            r'.agentName = agentName ∧ r'.indexEventId = e := fun r' => Prod.ext_iff
      simp only [hkey, and_true, true_and]
      constructor
      · rintro (⟨r₁, _, ⟨rfl, rfl⟩, rfl⟩ | h | ⟨rfl, _⟩)
        · exact .inl rfl
        · exact .inr h
        · exact .inl rfl
      · rintro (rfl | h)
        · by_cases hex : ∃ r₁ ∈ rows, r₁.agentName = agentName ∧ r₁.indexEventId = e
          · obtain ⟨r₁, hr₁, rfl, rfl⟩ := hex
            exact .inl ⟨r₁, hr₁, ⟨rfl, rfl⟩, rfl⟩
          · exact .inr (.inr ⟨rfl, fun r₁ hr₁ hk => hex ⟨r₁, hr₁, (hkey r₁).mp hk⟩⟩)
        · exact .inr (.inl h)
    rw [List.foldl_cons, ih, hone]
    constructor
    · rintro (⟨e', he', rfl⟩ | ⟨rfl | ⟨hr, hne⟩, hids⟩)
      · exact .inl ⟨e', List.mem_cons_of_mem _ he', rfl⟩
      · exact .inl ⟨e, List.mem_cons_self, rfl⟩
      · refine .inr ⟨hr, ?_⟩
        rintro ⟨hagent, hmem⟩
        rcases List.mem_cons.mp hmem with he | he
        · exact hne ⟨hagent, he⟩
        · exact hids ⟨hagent, he⟩
    · rintro (⟨e', he', rfl⟩ | ⟨hr, hne⟩)
      · by_cases he : e' ∈ ids
        · exact .inl ⟨e', he, rfl⟩
        · have he' : e' = e := (List.mem_cons.mp he').resolve_right he
          subst he'
          exact .inr ⟨.inl rfl, fun h => he h.2⟩
      · exact .inr ⟨.inr ⟨hr, fun h => hne ⟨h.1, h.2 ▸ List.mem_cons_self⟩⟩,
          fun h => hne ⟨h.1, List.mem_cons_of_mem _ h.2⟩⟩

/-- A row of an agent that is in the way of a write: it has one of the events, the anchor, or the
anchor of a row that has one of the events. -/
def Replaces (rows : Table TurnRecordRow) (agentName : String) (ids : List String)
    (anchorEventId : String) (r : TurnRecordRow) : Prop :=
  r.agentName = agentName ∧ (r.indexEventId ∈ ids ∨ r.anchorEventId = anchorEventId ∨
    ∃ r' ∈ rows, r'.agentName = agentName ∧ r'.indexEventId ∈ ids ∧ r'.anchorEventId = r.anchorEventId)

theorem mem_upsert {rows : Table TurnRecordRow} {agentName anchorEventId : String}
    {record : TurnRecord} {ids : List String} (hids : ids ≠ []) {r : TurnRecordRow} :
    r ∈ upsert rows agentName ids anchorEventId record ↔
      (∃ e ∈ ids, r = ⟨agentName, e, anchorEventId, record⟩) ∨
        (r ∈ rows ∧ ¬ Replaces rows agentName ids anchorEventId r) := by
  unfold upsert
  rw [if_neg hids]
  dsimp only
  rw [mem_foldl_upsert, Table.mem_delete]
  apply or_congr_right
  rw [and_assoc]
  apply and_congr_right
  intro _
  simp only [List.mem_cons, List.mem_map, Table.mem_select, Replaces]
  constructor
  · rintro ⟨hkept, hids⟩ ⟨hagent, h | h | ⟨r', hr', hagent', hindex, hanchor⟩⟩
    · exact hids ⟨hagent, h⟩
    · exact hkept ⟨hagent, .inl h, fun hmem => hids ⟨hagent, hmem⟩⟩
    · exact hkept ⟨hagent, .inr ⟨r', ⟨hr', hagent', hindex⟩, hanchor⟩, fun hmem => hids ⟨hagent, hmem⟩⟩
  · intro h
    constructor
    · rintro ⟨hagent, hanchor | ⟨r', ⟨hr', hagent', hindex⟩, hanchor⟩, _⟩
      · exact h ⟨hagent, .inr (.inl hanchor)⟩
      · exact h ⟨hagent, .inr (.inr ⟨r', hr', hagent', hindex, hanchor⟩)⟩
    · rintro ⟨hagent, hmem⟩
      exact h ⟨hagent, .inl hmem⟩

/-! ## Groups -/

/-- A row and the group of its turn: every event of the record has a row with the same anchor and
record. -/
structure Stored (rows : Table TurnRecordRow) (r : TurnRecordRow) : Prop where
  canonical : r.recordJson.Canonical
  anchor : r.recordJson.anchorEventId = some r.anchorEventId
  named : r.anchorEventId ≠ ""
  sourced : r.recordJson.sourceEventIds ≠ []
  indexed : r.indexEventId ∈ r.recordJson.indexedEventIds
  group : ∀ e ∈ r.recordJson.indexedEventIds,
    (⟨r.agentName, e, r.anchorEventId, r.recordJson⟩ : TurnRecordRow) ∈ rows

/-- A stored row whose anchor is a source of the turn. -/
structure Filed (rows : Table TurnRecordRow) (r : TurnRecordRow) : Prop extends Stored rows r where
  anchored : r.anchorEventId ∈ r.recordJson.sourceEventIds

def AllStored (rows : Table TurnRecordRow) : Prop := ∀ r ∈ rows, Stored rows r

def Grouped (rows : Table TurnRecordRow) : Prop := ∀ r ∈ rows, Filed rows r

theorem grouped_empty : Grouped ∅ := fun _ hr => absurd hr Table.not_mem_empty

section

variable {rows : Table TurnRecordRow} {agentName anchorEventId : String} {record : TurnRecord}

theorem Grouped.stored (h : Grouped rows) : AllStored rows := fun r hr => (h r hr).toStored

theorem allStored_empty : AllStored ∅ := fun _ hr => absurd hr Table.not_mem_empty

theorem Stored.source {r : TurnRecordRow} (h : Stored rows r) {e : String}
    (he : e ∈ r.recordJson.sourceEventIds) :
    (⟨r.agentName, e, r.anchorEventId, r.recordJson⟩ : TurnRecordRow) ∈ rows :=
  h.group e (List.mem_append_left _ he)

/-- Two rows of one agent on one event of a turn are rows of that turn. -/
theorem Grouped.eq_of_indexed (h : Grouped rows) {r r' : TurnRecordRow} (hr : r ∈ rows)
    (hr' : r' ∈ rows) (hagent : r'.agentName = r.agentName)
    (hindex : r'.indexEventId ∈ r.recordJson.indexedEventIds) :
    r'.recordJson = r.recordJson ∧ r'.anchorEventId = r.anchorEventId := by
  have hrow := (h r hr).group r'.indexEventId hindex
  have heq := Table.eq_of_key_eq hr' hrow (Prod.ext hagent rfl)
  rw [heq]
  exact ⟨rfl, rfl⟩

/-- Two stored turns of one agent with a source in common are one. -/
theorem Grouped.eq_of_source (h : Grouped rows) {r r' : TurnRecordRow} (hr : r ∈ rows)
    (hr' : r' ∈ rows) (hagent : r'.agentName = r.agentName) {e : String}
    (he : e ∈ r.recordJson.indexedEventIds) (he' : e ∈ r'.recordJson.sourceEventIds) :
    r'.recordJson = r.recordJson ∧ r'.anchorEventId = r.anchorEventId := by
  have hrow := (h r' hr').source he'
  have heq := Table.eq_of_key_eq hrow ((h r hr).group e he) (Prod.ext hagent rfl)
  rw [TurnRecordRow.mk.injEq] at heq
  exact ⟨heq.2.2.2, heq.2.2.1⟩

/-- Two rows of one agent with one anchor are rows of one turn. -/
theorem Grouped.eq_of_anchor (h : Grouped rows) {r r' : TurnRecordRow} (hr : r ∈ rows)
    (hr' : r' ∈ rows) (hagent : r'.agentName = r.agentName)
    (hanchor : r'.anchorEventId = r.anchorEventId) : r'.recordJson = r.recordJson := by
  have hmem := (h r hr).anchored
  exact (h.eq_of_source hr hr' hagent (List.mem_append_left _ hmem)
    (hanchor ▸ (h r' hr').anchored)).1

/-- A write leaves every row with the group of its turn. -/
theorem AllStored.upsert (h : AllStored rows) (hcanonical : record.Canonical)
    (hanchor : record.anchorEventId = some anchorEventId) (hnamed : anchorEventId ≠ "")
    (hsourced : record.sourceEventIds ≠ []) :
    AllStored (upsert rows agentName record.indexedEventIds anchorEventId record) := by
  have hids : record.indexedEventIds ≠ [] := by
    intro hnil
    exact hsourced (List.append_eq_nil_iff.mp hnil).1
  intro r hr
  rcases (mem_upsert hids).mp hr with ⟨e, he, rfl⟩ | ⟨hold, hkept⟩
  · exact ⟨hcanonical, hanchor, hnamed, hsourced, he,
      fun e' he' => (mem_upsert hids).mpr (.inl ⟨e', he', rfl⟩)⟩
  · have hstored := h r hold
    refine { hstored with group := fun e he => (mem_upsert hids).mpr (.inr ⟨hstored.group e he, ?_⟩) }
    -- a replaced row of the group would have replaced all of it
    rintro ⟨hagent, hin | hin | hin⟩
    · exact hkept ⟨hagent, .inr (.inr ⟨_, hstored.group e he, hagent, hin, rfl⟩)⟩
    · exact hkept ⟨hagent, .inr (.inl hin)⟩
    · exact hkept ⟨hagent, .inr (.inr hin)⟩

/-- A write of an anchored record leaves every row in the group of its turn. -/
theorem Grouped.upsert (h : Grouped rows) (hcanonical : record.Canonical)
    (hanchor : record.anchorEventId = some anchorEventId)
    (hanchored : anchorEventId ∈ record.sourceEventIds) :
    Grouped (upsert rows agentName record.indexedEventIds anchorEventId record) := by
  have hids : record.indexedEventIds ≠ [] :=
    List.ne_nil_of_mem (List.mem_append_left _ hanchored)
  have hnamed : anchorEventId ≠ "" := fun he => hcanonical.not_mem_empty (he ▸ hanchored)
  intro r hr
  refine ⟨h.stored.upsert hcanonical hanchor hnamed (List.ne_nil_of_mem hanchored) r hr, ?_⟩
  rcases (mem_upsert hids).mp hr with ⟨_, _, rfl⟩ | ⟨hold, _⟩
  · exact hanchored
  · exact (h r hold).anchored

/-! ## Claims -/

/-- The records a write has claimed: each is stored, and every record stored under an event of the
candidate is claimed. -/
structure Claims (rows : Table TurnRecordRow) (agentName : String) (candidate : TurnRecord)
    (records : Mapping String TurnRecord) : Prop where
  sound : ∀ e r, records.value? e = some r → r.Canonical ∧
    ∃ row ∈ rows, row.agentName = agentName ∧ row.indexEventId = e ∧ row.recordJson.SameFacts r
  grows : ∀ e r, records.value? e = some r →
    ∃ row ∈ rows, row.agentName = agentName ∧ row.recordJson.Grows r
  complete : ∀ row ∈ rows, row.agentName = agentName → row.indexEventId ∈ candidate.indexedEventIds →
    ∃ r, records.value? row.indexEventId = some r ∧ row.recordJson.SameFacts r

theorem decodeRow_eq_ok {row : TurnRecordRow} {r : TurnRecord} (h : decodeRow row = .ok r) :
    TurnRecord.fromLedgerRecord row.indexEventId row.recordJson = some r := by
  unfold decodeRow at h
  split at h
  · next hr => exact hr.trans (congrArg some (Except.ok.inj h))
  · cases h

/-- The stored record of a row is read back as it was written. -/
theorem Stored.decode {row : TurnRecordRow} (h : Stored rows row) {r : TurnRecord}
    (hr : decodeRow row = .ok r) :
    r.Canonical ∧ row.recordJson.SameFacts r ∧ row.recordJson.Grows r := by
  have hanchor : canonicalOptionalString row.recordJson.anchorEventId ≠ none := by
    rw [h.anchor]
    simp [canonicalOptionalString, Option.filter, h.named]
  obtain ⟨r', hr', hfacts, hcanonical⟩ := TurnRecord.fromLedgerRecord_canonical h.canonical h.indexed
    hanchor h.sourced
  have hdecoded := decodeRow_eq_ok hr
  obtain rfl := Option.mem_unique hr' hdecoded
  exact ⟨hcanonical, hfacts, TurnRecord.fromLedgerRecord_grows h.canonical hdecoded⟩

variable {records : Mapping String TurnRecord}

/-- Claiming some events looks up exactly the rows they have. -/
theorem claimRecords_value? {ids : List String}
    (h : claimRecords rows agentName ids = .ok records) (e : String) :
    (e ∉ ids → records.value? e = none) ∧
      (e ∈ ids → ∀ row, rows.get? (agentName, e) = some row →
        ∃ r, decodeRow row = .ok r ∧ records.value? e = some r) ∧
      (rows.get? (agentName, e) = none → records.value? e = none) := by
  have hfold : ∀ (l : List String) (acc : Mapping String TurnRecord), l.Nodup →
      l.foldlM (claimRecord rows agentName) acc = .ok records →
      (e ∉ l → records.value? e = acc.value? e) ∧
        (e ∈ l → ∀ row, rows.get? (agentName, e) = some row →
          ∃ r, decodeRow row = .ok r ∧ records.value? e = some r) ∧
        (rows.get? (agentName, e) = none → records.value? e = acc.value? e) := by
    intro l
    induction l with
    | nil =>
      intro acc _ hl
      obtain rfl : acc = records := Except.ok.inj hl
      exact ⟨fun _ => rfl, fun he => absurd he List.not_mem_nil, fun _ => rfl⟩
    | cons e₀ l ih =>
      intro acc hnodup hl
      rw [List.nodup_cons] at hnodup
      rw [List.foldlM_cons, claimRecord] at hl
      cases hrow : rows.get? (agentName, e₀) with
      | none =>
        simp only [hrow] at hl
        obtain ⟨hout, hin, hnone⟩ := ih acc hnodup.2 hl
        refine ⟨fun he => hout fun hmem => he (List.mem_cons_of_mem _ hmem), ?_, hnone⟩
        intro he row hrow'
        rcases List.mem_cons.mp he with rfl | he
        · rw [hrow] at hrow'
          cases hrow'
        · exact hin he row hrow'
      | some row₀ =>
        simp only [hrow] at hl
        cases hdecode : decodeRow row₀ with
        | error err =>
          rw [hdecode] at hl
          cases hl
        | ok r₀ =>
          rw [hdecode] at hl
          obtain ⟨hout, hin, hnone⟩ := ih (acc.set e₀ r₀) hnodup.2 hl
          refine ⟨?_, ?_, ?_⟩
          · intro he
            rw [List.mem_cons, not_or] at he
            rw [hout he.2, Mapping.value?_set, if_neg (Ne.symm he.1)]
          · intro he row hrow'
            rcases List.mem_cons.mp he with rfl | he
            · obtain rfl : row₀ = row := Option.mem_unique hrow hrow'
              exact ⟨r₀, hdecode, by rw [hout hnodup.1, Mapping.value?_set, if_pos rfl]⟩
            · exact hin he row hrow'
          · intro hrow'
            have hne : e₀ ≠ e := by
              rintro rfl
              rw [hrow] at hrow'
              cases hrow'
            rw [hnone hrow', Mapping.value?_set, if_neg hne]
  obtain ⟨hout, hin, hnone⟩ := hfold ids.dedup ∅ (List.nodup_dedup ids) h
  exact ⟨fun he => hout fun hmem => he (List.mem_dedup.mp hmem),
    fun he => hin (List.mem_dedup.mpr he), hnone⟩

/-- What is claimed is what the rows store. -/
theorem claimRecords_sound (hs : AllStored rows) {ids : List String}
    (h : claimRecords rows agentName ids = .ok records) {e : String} {r : TurnRecord}
    (hr : records.value? e = some r) :
    r.Canonical ∧ ∃ row ∈ rows, row.agentName = agentName ∧ row.indexEventId = e ∧
      row.recordJson.SameFacts r ∧ row.recordJson.Grows r := by
  obtain ⟨hout, hin, hnone⟩ := claimRecords_value? h e
  have he : e ∈ ids := by
    by_contra he
    rw [hout he] at hr
    cases hr
  cases hrow : rows.get? (agentName, e) with
  | none =>
    rw [hnone hrow] at hr
    cases hr
  | some row =>
    obtain ⟨r', hdecode, hr'⟩ := hin he row hrow
    obtain rfl := Option.mem_unique hr' hr
    obtain ⟨hmem, hkey⟩ := Table.get?_eq_some.mp hrow
    obtain ⟨hagent, hindex⟩ := Prod.ext_iff.mp hkey
    obtain ⟨hcanonical, hfacts, hgrows⟩ := (hs row hmem).decode hdecode
    exact ⟨hcanonical, row, hmem, hagent, hindex, hfacts, hgrows⟩

theorem claimTurnRecords_claims (hs : AllStored rows) {candidate : TurnRecord}
    (h : claimTurnRecords rows agentName candidate = .ok records) :
    Claims rows agentName candidate records := by
  unfold claimTurnRecords at h
  obtain ⟨owners, _, h⟩ := Transaction.except_bind_eq_ok.mp h
  dsimp only at h
  generalize candidate.sourceEventIds ++ owners.flatMap (·.sourceEventIds) = sourceIds at h
  obtain ⟨first, hfirst, h⟩ := Transaction.except_bind_eq_ok.mp h
  split at h
  · cases h
  · obtain ⟨auxiliary, hauxiliary, h⟩ := Transaction.except_bind_eq_ok.mp h
    cases h
    have hsound : ∀ e r, (first.merge auxiliary).value? e = some r → r.Canonical ∧
        ∃ row ∈ rows, row.agentName = agentName ∧ row.indexEventId = e ∧
          row.recordJson.SameFacts r ∧ row.recordJson.Grows r := by
      intro e r hr
      rw [Mapping.value?_merge] at hr
      rcases Option.or_eq_some_iff.mp hr with hr | ⟨_, hr⟩
      · exact claimRecords_sound hs hauxiliary hr
      · exact claimRecords_sound hs hfirst hr
    refine ⟨fun e r hr => ?_, fun e r hr => ?_, ?_⟩
    · obtain ⟨hcanonical, row, hrow, hagent, hindex, hfacts, _⟩ := hsound e r hr
      exact ⟨hcanonical, row, hrow, hagent, hindex, hfacts⟩
    · obtain ⟨_, row, hrow, hagent, _, _, hgrows⟩ := hsound e r hr
      exact ⟨row, hrow, hagent, hgrows⟩
    · intro row hmem hagent hindex
      have hrow : rows.get? (agentName, row.indexEventId) = some row :=
        Table.get?_eq_some.mpr ⟨hmem, Prod.ext hagent rfl⟩
      obtain ⟨hout, hin, _⟩ := claimRecords_value? hauxiliary row.indexEventId
      have hstored := hs row hmem
      rw [Mapping.value?_merge]
      by_cases hsource : row.indexEventId ∈ sourceIds
      · have hnot : row.indexEventId ∉ (candidate.indexedEventIds ++ candidate.revisionReplay.keys ++
            first.values.flatMap fun owner =>
              owner.indexedEventIds ++ owner.revisionReplay.keys).filter (· ∉ sourceIds) := by
          intro hmem'
          simp [hsource] at hmem'
        obtain ⟨r, hdecode, hr⟩ := (claimRecords_value? hfirst row.indexEventId).2.1 hsource row hrow
        exact ⟨r, by rw [hout hnot, Option.none_or, hr], (hstored.decode hdecode).2.1⟩
      · have hin' : row.indexEventId ∈ (candidate.indexedEventIds ++ candidate.revisionReplay.keys ++
            first.values.flatMap fun owner =>
              owner.indexedEventIds ++ owner.revisionReplay.keys).filter (· ∉ sourceIds) := by
          rw [List.mem_filter, List.mem_append, List.mem_append]
          exact ⟨.inl (.inl hindex), by simpa using hsource⟩
        obtain ⟨r, hdecode, hr⟩ := hin hin' row hrow
        exact ⟨r, by rw [hr, Option.some_or], (hstored.decode hdecode).2.1⟩

/-! ## Writes -/

theorem writeRecord_eq_ok {outbox : Table OutboxRow} {ids : List String} {recordJson : TurnRecord}
    {result : Option TurnRecord} {rows' : Table TurnRecordRow}
    (h : writeRecord outbox agentName ids anchorEventId recordJson rows = .ok (result, rows')) :
    ∃ c records, ids.head?.bind (TurnRecord.fromLedgerRecord · recordJson) = some c ∧
      claimTurnRecords rows agentName c = .ok records ∧
      result = writtenRecord outbox records c ∧
      ((result = none ∧ rows' = rows) ∨
        ∃ f a, result = some f ∧ f.anchorEventId = some a ∧
          rows' = upsert rows agentName f.indexedEventIds a f) := by
  unfold writeRecord at h
  split at h
  · cases h
  · next c hc =>
    split at h
    · cases h
    · obtain ⟨records, hrecords, h⟩ := Transaction.except_bind_eq_ok.mp h
      refine ⟨c, records, hc, hrecords, ?_⟩
      split at h
      · next hnone =>
        obtain ⟨rfl, rfl⟩ := Prod.ext_iff.mp (Except.ok.inj h)
        exact ⟨hnone.symm, .inl ⟨rfl, rfl⟩⟩
      · next f hf =>
        split at h
        · cases h
        · next a ha =>
          obtain ⟨rfl, rfl⟩ := Prod.ext_iff.mp (Except.ok.inj h)
          exact ⟨hf.symm, .inr ⟨f, a, rfl, ha, rfl⟩⟩

theorem commitTerminal_eq_ok {prepared : TerminalTurnWrite} {result : Option TerminalTurnWrite}
    {rows' : Table TurnRecordRow} (h : commitTerminal prepared rows = .ok (result, rows')) :
    ∃ c records, prepared.indexEventIds.head?.bind
        (TurnRecord.fromLedgerRecord · prepared.recordJson) = some c ∧
      claimTurnRecords rows prepared.agentName c = .ok records ∧
      (rows' = rows ∨ ∃ f a, committedRecord records c = .ok (some f) ∧ f.anchorEventId = some a ∧
        rows' = upsert rows prepared.agentName f.indexedEventIds a f) := by
  unfold commitTerminal at h
  split at h
  · cases h
  · next c hc =>
    obtain ⟨records, hrecords, h⟩ := Transaction.except_bind_eq_ok.mp h
    refine ⟨c, records, hc, hrecords, ?_⟩
    obtain ⟨committed, hcommitted, h⟩ := Transaction.except_bind_eq_ok.mp h
    split at h
    · exact .inl (Prod.ext_iff.mp (Except.ok.inj h)).2.symm
    · next f =>
      split at h
      · exact .inl (Prod.ext_iff.mp (Except.ok.inj h)).2.symm
      · next a ha =>
        exact .inr ⟨f, a, hcommitted, ha, (Prod.ext_iff.mp (Except.ok.inj h)).2.symm⟩

theorem Claims.canonical {candidate : TurnRecord}
    (h : Claims rows agentName candidate records) : AllCanonical records :=
  fun e r hr => (h.sound e r hr).1

/-- The record of a stored turn has its anchor among its sources. -/
theorem Claims.anchored (hg : Grouped rows) {candidate : TurnRecord}
    (h : Claims rows agentName candidate records) {e : String}
    {r : TurnRecord} (hr : records.value? e = some r) : r.Anchored := by
  obtain ⟨_, row, hrow, _, _, hfacts⟩ := h.sound e r hr
  have hfiled := hg row hrow
  exact hfacts.anchored ⟨row.anchorEventId, hfiled.anchored, hfiled.anchor⟩

/-- The turn a candidate is resolved to has its anchor among its sources. -/
theorem detached_anchored {c p : TurnRecord} (hc : c.Canonical) (hanchored : c.Anchored)
    {ts : List String}
    (h : detachConflicts (sanitizeRevisionReplay c none ts) records = some p) : p.Anchored := by
  have hs := sanitizeRevisionReplay_sameFacts hc none ts
  rcases detachConflicts_eq_some (sanitizeRevisionReplay_canonical c none ts) h with
    ⟨_, rfl⟩ | ⟨_, hprojects⟩
  · exact hs.anchored hanchored
  · exact hprojects.anchored

/-- What a delivered answer stores has its anchor among its sources. -/
theorem Claims.committed_anchored (hg : Grouped rows) {c f : TurnRecord}
    (h : Claims rows agentName c records) (hc : c.Canonical)
    (hanchored : c.Anchored) (hf : committedRecord records c = .ok (some f)) :
    f.Canonical ∧ f.Anchored := by
  obtain ⟨_, ⟨_, hfc, hsame, _⟩ | ⟨current, hcurrent, hsame, hfc, _⟩⟩ :=
    committedRecord_eq_ok h.canonical hc hf
  · exact ⟨hfc, hsame.anchored hanchored⟩
  · obtain ⟨e, _, he⟩ := List.exists_of_findSome?_eq_some hcurrent
    exact ⟨hfc, hsame.anchored (h.anchored hg he)⟩

end

/-! ## Runs -/

inductive TurnWrite where
  | cached (outbox : Table OutboxRow) (agentName : String) (indexEventIds : List String)
      (anchorEventId : String) (recordJson : TurnRecord)
  | terminal (prepared : TerminalTurnWrite)

namespace TurnWrite

def agentName : TurnWrite → String
  | cached _ agentName _ _ _ => agentName
  | terminal prepared => prepared.agentName

def recordJson : TurnWrite → TurnRecord
  | cached _ _ _ _ recordJson => recordJson
  | terminal prepared => prepared.recordJson

def candidate : TurnWrite → Option TurnRecord
  | cached _ _ indexEventIds _ recordJson =>
    indexEventIds.head?.bind (TurnRecord.fromLedgerRecord · recordJson)
  | terminal prepared =>
    prepared.indexEventIds.head?.bind (TurnRecord.fromLedgerRecord · prepared.recordJson)

def run (w : TurnWrite) (rows : Table TurnRecordRow) : Except StoreError (Table TurnRecordRow) :=
  match w with
  | cached outbox agentName indexEventIds anchorEventId recordJson => do
      let written ← writeRecord outbox agentName indexEventIds anchorEventId recordJson rows
      return written.2
  | terminal prepared => do
      let written ← commitTerminal prepared rows
      return written.2

/-- A decoded candidate of an anchored record is canonical and anchored. -/
theorem candidate_anchored {w : TurnWrite} (hw : w.recordJson.Anchored) {c : TurnRecord}
    (hc : w.candidate = some c) : c.Canonical ∧ c.Anchored := by
  have hdecoded : ∃ e, TurnRecord.fromLedgerRecord e w.recordJson = some c := by
    cases w <;> exact (Option.bind_eq_some_iff.mp hc).imp fun _ h => h.2
  obtain ⟨e, he⟩ := hdecoded
  obtain ⟨hcanonical, _, hsources, hanchor, hne⟩ := TurnRecord.fromLedgerRecord_eq_some he
  obtain ⟨a, ha, hraw⟩ := hw
  have hempty : a ≠ "" := by
    rintro rfl
    rw [hanchor, hraw] at hne
    exact hne rfl
  refine ⟨hcanonical, a, ?_, ?_⟩
  · rw [hsources, mem_canonicalSourceEventIds]
    exact ⟨ha, hempty⟩
  · rw [hanchor, hraw]
    simp [canonicalOptionalString, Option.filter, hempty]

end TurnWrite

/-- The turn records an agent's anchored writes can lead to. -/
inductive Reachable : Table TurnRecordRow → Prop where
  | init : Reachable ∅
  | step {rows rows' : Table TurnRecordRow} (w : TurnWrite) (h : Reachable rows)
      (hw : w.recordJson.Anchored) (hrun : w.run rows = .ok rows') : Reachable rows'

variable {rows rows' : Table TurnRecordRow}

/-- What is written is a canonical record with its anchor among its sources. -/
theorem TurnWrite.run_cases {w : TurnWrite} (hw : w.recordJson.Anchored) (hg : Grouped rows)
    (h : w.run rows = .ok rows') :
    rows' = rows ∨ ∃ f a, f.Canonical ∧ a ∈ f.sourceEventIds ∧ f.anchorEventId = some a ∧
      rows' = upsert rows w.agentName f.indexedEventIds a f := by
  cases w with
  | cached outbox agentName ids anchor recordJson =>
    obtain ⟨⟨result, rows₁⟩, hwrite, hrows⟩ := Transaction.except_bind_eq_ok.mp h
    cases hrows
    obtain ⟨c, records, hc, hclaim, rfl, ⟨_, rfl⟩ | ⟨f, a, hf, ha, rfl⟩⟩ := writeRecord_eq_ok hwrite
    · exact .inl rfl
    · obtain ⟨hcanonical, hanchored⟩ := TurnWrite.candidate_anchored hw hc
      have hclaims := claimTurnRecords_claims hg.stored hclaim
      obtain ⟨ts, p, hp, hwrites⟩ := writtenRecord_writes hclaims.canonical hf
      obtain ⟨a', ha', hanchor⟩ := detached_anchored hcanonical hanchored hp
      obtain rfl := Option.some.inj (ha.symm.trans (hwrites.anchor.trans hanchor))
      exact .inr ⟨f, a, hwrites.canonical, hwrites.sources ▸ ha', ha, rfl⟩
  | terminal prepared =>
    obtain ⟨⟨result, rows₁⟩, hwrite, hrows⟩ := Transaction.except_bind_eq_ok.mp h
    cases hrows
    obtain ⟨c, records, hc, hclaim, rfl | ⟨f, a, hf, ha, rfl⟩⟩ := commitTerminal_eq_ok hwrite
    · exact .inl rfl
    · obtain ⟨hcanonical, hanchored⟩ := TurnWrite.candidate_anchored hw hc
      have hclaims := claimTurnRecords_claims hg.stored hclaim
      obtain ⟨hfc, a', ha', hanchor⟩ := hclaims.committed_anchored hg hcanonical hanchored hf
      obtain rfl := Option.mem_unique ha hanchor
      exact .inr ⟨f, a, hfc, ha', ha, rfl⟩

theorem TurnWrite.run_grouped {w : TurnWrite} (hw : w.recordJson.Anchored) (hg : Grouped rows)
    (h : w.run rows = .ok rows') : Grouped rows' := by
  rcases TurnWrite.run_cases hw hg h with rfl | ⟨f, a, hcanonical, hanchored, hanchor, rfl⟩
  · exact hg
  · exact hg.upsert hcanonical hanchor hanchored

theorem Reachable.grouped (h : Reachable rows) : Grouped rows := by
  induction h with
  | init => exact grouped_empty
  | step w _ hw hrun ih => exact TurnWrite.run_grouped hw ih hrun

end MindRoom.TurnRecords
