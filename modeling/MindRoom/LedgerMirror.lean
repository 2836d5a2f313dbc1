import MindRoom.HandledLedger
import Mathlib.Data.List.Induction

/-! # The ledger answers as its database does

The map of a ledger mirrors the rows when it has, under each event, what the row of the event is
decoded to. A write keeps this if it leaves no event of a turn behind that it takes others of;
cleanup always does, since it drops whole turns.
-/

namespace MindRoom.HandledTurnLedger

open TurnRecords (OneRecord AllStored Claims decodeRow)

variable {agentName : String} {records : Table TurnRecordRow} {responses m m' : Mapping String TurnRecord}
  {record : TurnRecord} {k : String}

/-! ## The map of a fresh process -/

def rowRecord (agentName : String) (records : Table TurnRecordRow) (eventId : String) : Option TurnRecord :=
  (records.get? (agentName, eventId)).bind fun row => TurnRecord.fromLedgerRecord row.indexEventId row.recordJson

theorem rowRecord_eq_some : rowRecord agentName records k = some record ↔
    ∃ row ∈ records, row.agentName = agentName ∧ row.indexEventId = k ∧
      TurnRecord.fromLedgerRecord k row.recordJson = some record := by
  unfold rowRecord
  rw [Option.bind_eq_some_iff]
  constructor
  · rintro ⟨row, hrow, hdecode⟩
    rcases Table.get?_eq_some.mp hrow with ⟨hmem, hkey⟩
    have hindex : row.indexEventId = k := congrArg Prod.snd hkey
    exact ⟨row, hmem, congrArg Prod.fst hkey, hindex, hindex ▸ hdecode⟩
  · rintro ⟨row, hmem, hagent, rfl, hdecode⟩
    exact ⟨row, Table.get?_eq_some.mpr ⟨hmem, Prod.ext hagent rfl⟩, hdecode⟩

theorem mem_loadAll {row : TurnRecordRow} :
    row ∈ loadAll agentName records ↔ row ∈ records ∧ row.agentName = agentName := by
  unfold loadAll
  rw [List.mem_insertionSort, Table.mem_select]

/-- The rows of one agent have different events. -/
theorem nodup_loadAll : ((loadAll agentName records).map (·.indexEventId)).Nodup := by
  have hselect : ((records.select (·.agentName = agentName)).map (·.indexEventId)).Nodup := by
    apply List.Nodup.map_on
    · intro row hrow row' hrow' hindex
      rw [Table.mem_select] at hrow hrow'
      exact Table.eq_of_key_eq hrow.1 hrow'.1 (Prod.ext (hrow.2.trans hrow'.2.symm) hindex)
    · exact (List.Nodup.of_map _ records.primaryKey).filter _
  exact ((List.perm_insertionSort _ _).map _).nodup_iff.mpr hselect

theorem value?_load : (load agentName records).value? k = rowRecord agentName records k := by
  apply Option.ext
  intro record
  unfold load decodeResponses
  rw [rowRecord_eq_some, Mapping.value?_foldl_set_empty, List.mem_filterMap]
  · constructor
    · rintro ⟨row, hrow, hitem⟩
      rcases mem_loadAll.mp hrow with ⟨hmem, hagent⟩
      rcases Option.map_eq_some_iff.mp hitem with ⟨record', hdecode, heq⟩
      rw [Mapping.Item.mk.injEq] at heq
      rcases heq with ⟨rfl, rfl⟩
      exact ⟨row, hmem, hagent, rfl, hdecode⟩
    · rintro ⟨row, hmem, hagent, rfl, hdecode⟩
      exact ⟨row, mem_loadAll.mpr ⟨hmem, hagent⟩, by rw [hdecode]; rfl⟩
  · have hsublist : List.Sublist (((loadAll agentName records).filterMap fun row =>
        (TurnRecord.fromLedgerRecord row.indexEventId row.recordJson).map fun record =>
          (⟨row.indexEventId, record⟩ : Mapping.Item String TurnRecord)).map (·.key))
        ((loadAll agentName records).map (·.indexEventId)) := by
      generalize loadAll agentName records = l
      induction l with
      | nil => exact List.Sublist.refl _
      | cons row l ih =>
        rw [List.filterMap_cons, List.map_cons]
        cases TurnRecord.fromLedgerRecord row.indexEventId row.recordJson with
        | none => exact ih.cons _
        | some record => exact ih.cons_cons _
    exact nodup_loadAll.sublist hsublist

/-- The map has under each event what the row of the event is decoded to. -/
def Mirrors (agentName : String) (l : LedgerState) : Prop :=
  ∀ e, l.responses.value? e = rowRecord agentName l.records e

/-! ## Lookups -/

/-- A stored record is decoded the same under each of its events. -/
theorem fromLedgerRecord_congr {e e' : String} {raw : TurnRecord} {r : TurnRecord}
    (h : TurnRecord.fromLedgerRecord e raw = some r) (he' : e' ∈ r.indexedEventIds) :
    TurnRecord.fromLedgerRecord e' raw = some r := by
  unfold TurnRecord.fromLedgerRecord at h ⊢
  split at h
  · cases h
  · next hvalid =>
    rw [if_neg hvalid]
    dsimp only at h ⊢
    split at h
    · rw [Option.some.injEq] at h
      rw [h, if_pos he']
    · cases h

theorem rowRecord_of_stored (hrows : AllStored records) {row : TurnRecordRow} (hrow : row ∈ records)
    (hagent : row.agentName = agentName) : ∃ r, decodeRow row = .ok r ∧ row.recordJson.SameFacts r ∧ r.Canonical ∧
      rowRecord agentName records row.indexEventId = some r := by
  have hstored := hrows row hrow
  have hanchor : canonicalOptionalString row.recordJson.anchorEventId ≠ none := by
    rw [hstored.anchor]
    simp [canonicalOptionalString, Option.filter, hstored.named]
  rcases TurnRecord.fromLedgerRecord_canonical hstored.canonical hstored.indexed hanchor hstored.sourced with
    ⟨r, hdecode, hfacts, hcanonical⟩
  refine ⟨r, ?_, hfacts, hcanonical, rowRecord_eq_some.mpr ⟨row, hrow, hagent, rfl, hdecode⟩⟩
  unfold decodeRow
  rw [hdecode]
  rfl

theorem rowRecord_canonical (hrows : AllStored records) (h : rowRecord agentName records k = some record) :
    ∃ row ∈ records, row.agentName = agentName ∧ row.indexEventId = k ∧ decodeRow row = .ok record ∧
      row.recordJson.SameFacts record ∧ record.Canonical := by
  rcases rowRecord_eq_some.mp h with ⟨row, hrow, hagent, rfl, -⟩
  rcases rowRecord_of_stored hrows hrow hagent with ⟨r, hdecode, hfacts, hcanonical, hrecord⟩
  rw [h] at hrecord
  cases hrecord
  exact ⟨row, hrow, hagent, rfl, hdecode, hfacts, hcanonical⟩

/-- Two stored events with the same indexed events have the same record. -/
theorem rowRecord_coherent (hrows : AllStored records) {k' : String} {record' : TurnRecord}
    (h : rowRecord agentName records k = some record) (h' : rowRecord agentName records k' = some record')
    (hindexed : record.indexedEventIds = record'.indexedEventIds) : record = record' := by
  rcases rowRecord_eq_some.mp h with ⟨row, hrow, hagent, rfl, hdecode⟩
  rcases rowRecord_eq_some.mp h' with ⟨row', hrow', hagent', rfl, hdecode'⟩
  rcases rowRecord_canonical hrows h with ⟨row₁, hrow₁, hagent₁, hindex₁, -, hfacts, -⟩
  have hsame : row₁ = row := Table.eq_of_key_eq hrow₁ hrow (Prod.ext (hagent₁.trans hagent.symm) hindex₁)
  subst hsame
  have hin : row'.indexEventId ∈ row₁.recordJson.indexedEventIds := by
    rw [← hfacts.toSameIndexes.indexed, hindexed]
    rcases rowRecord_canonical hrows h' with ⟨row₂, hrow₂, -, hindex₂, -, hfacts₂, -⟩
    rw [hfacts₂.toSameIndexes.indexed, ← hindex₂]
    exact (hrows row₂ hrow₂).indexed
  have hmem := (hrows row₁ hrow₁).group _ hin
  have heq := Table.eq_of_key_eq hrow' hmem (Prod.ext (hagent'.trans hagent.symm) rfl)
  have hraw : row'.recordJson = row₁.recordJson := by rw [heq]
  rw [hraw] at hdecode'
  have hrecord := fromLedgerRecord_congr hdecode (hfacts.toSameIndexes.indexed ▸ hin)
  rw [hdecode', Option.some.injEq] at hrecord
  exact hrecord.symm

/-- Records that differ have different events. -/
def Coherent (m : Mapping String TurnRecord) : Prop :=
  ∀ r ∈ m.values, ∀ r' ∈ m.values, r.indexedEventIds = r'.indexedEventIds → r = r'

theorem value?_foldl_indexed {l : List TurnRecord} {m : Mapping (List String) TurnRecord} {ids : List String}
    (hl : ∀ r ∈ l, ∀ r' ∈ l, r.indexedEventIds = r'.indexedEventIds → r = r') :
    (l.foldl (fun matched record => matched.set record.indexedEventIds record) m).value? ids = some record ↔
      (record ∈ l ∧ record.indexedEventIds = ids) ∨
        ((∀ r ∈ l, r.indexedEventIds ≠ ids) ∧ m.value? ids = some record) := by
  induction l generalizing m with
  | nil => simp
  | cons r l ih =>
    have hl' : ∀ r ∈ l, ∀ r' ∈ l, r.indexedEventIds = r'.indexedEventIds → r = r' :=
      fun r hr r' hr' => hl r (List.mem_cons_of_mem _ hr) r' (List.mem_cons_of_mem _ hr')
    rw [List.foldl_cons, ih hl', Mapping.value?_set]
    constructor
    · rintro (⟨hmem, hids⟩ | ⟨hout, hset⟩)
      · exact .inl ⟨List.mem_cons_of_mem _ hmem, hids⟩
      · split at hset
        · next hids =>
          cases hset
          exact .inl ⟨List.mem_cons_self, hids⟩
        · next hids =>
          refine .inr ⟨?_, hset⟩
          intro r' hr'
          rcases List.mem_cons.mp hr' with rfl | hr'
          · exact hids
          · exact hout r' hr'
    · rintro (⟨hmem, hids⟩ | ⟨hout, hset⟩)
      · rcases List.mem_cons.mp hmem with rfl | hmem
        · by_cases hagain : ∃ r' ∈ l, r'.indexedEventIds = ids
          · -- a later record with the same events is this one
            rcases hagain with ⟨r', hr', hids'⟩
            have heq := hl record hmem r' (List.mem_cons_of_mem _ hr') (hids.trans hids'.symm)
            exact .inl ⟨heq ▸ hr', hids⟩
          · refine .inr ⟨fun r' hr' hids' => hagain ⟨r', hr', hids'⟩, ?_⟩
            rw [if_pos hids]
        · exact .inl ⟨hmem, hids⟩
      · refine .inr ⟨fun r' hr' => hout r' (List.mem_cons_of_mem _ hr'), ?_⟩
        rw [if_neg (hout r List.mem_cons_self)]
        exact hset

theorem value?_matchingTurns (hm : Coherent m) {responseEventId : String} {ids : List String} :
    (matchingTurns m responseEventId).value? ids = some record ↔
      record ∈ m.values ∧ Shows responseEventId record ∧ record.indexedEventIds = ids := by
  unfold matchingTurns
  rw [value?_foldl_indexed]
  · rw [List.mem_filter, decide_eq_true_iff, and_assoc]
    constructor
    · rintro (h | ⟨-, hnone⟩)
      · exact h
      · cases hnone
    · exact .inl
  · intro r hr r' hr'
    exact hm r (List.mem_filter.mp hr).1 r' (List.mem_filter.mp hr').1

/-- Maps with the same records under the same events give the same answers. -/
theorem turnRecordForResponseEventId_congr (hm : Coherent m) (h : ∀ e, m.value? e = m'.value? e)
    (responseEventId : String) :
    turnRecordForResponseEventId m responseEventId = turnRecordForResponseEventId m' responseEventId := by
  have hvalues : ∀ r, r ∈ m.values ↔ r ∈ m'.values := by
    intro r
    rw [Mapping.mem_values, Mapping.mem_values]
    exact exists_congr fun e => by rw [h]
  have hm' : Coherent m' := fun r hr r' hr' => hm r ((hvalues r).mpr hr) r' ((hvalues r').mpr hr')
  have hperm : (matchingTurns m responseEventId).rows.Perm (matchingTurns m' responseEventId).rows := by
    apply Mapping.perm_rows
    intro ids
    apply Option.ext
    intro r
    rw [value?_matchingTurns hm, value?_matchingTurns hm', hvalues]
  unfold turnRecordForResponseEventId
  dsimp only
  rw [hperm.length_eq]
  split
  · rfl
  · next hfew =>
    -- at most one turn is left, so the order of the map does not matter
    have hrows : (matchingTurns m responseEventId).rows = (matchingTurns m' responseEventId).rows := by
      generalize (matchingTurns m' responseEventId).rows = l' at hperm hfew
      cases l' with
      | nil => exact hperm.eq_nil
      | cons item rest =>
        cases rest with
        | nil => exact List.perm_singleton.mp hperm
        | cons item' rest => exact absurd (by simp) hfew
    unfold Mapping.values
    rw [hrows]

/-! ## Publishing -/

theorem value?_publish : (publish m record).value? k =
    if k ∈ record.indexedEventIds then some record else m.value? k := by
  unfold publish
  generalize record.indexedEventIds = ids
  induction ids generalizing m with
  | nil => simp
  | cons e ids ih =>
    rw [List.foldl_cons, ih, setResponse, Mapping.value?_set]
    by_cases hk : k ∈ ids
    · simp [hk]
    · by_cases he : e = k
      · simp [he]
      · simp [hk, he, Ne.symm he]

theorem value?_setResponse {value : Option TurnRecord} {k' : String} :
    (setResponse m k value).value? k' = if k = k' then value else m.value? k' := by
  unfold setResponse
  cases value with
  | none =>
    rw [Mapping.value?_pop]
    by_cases hk : k = k' <;> simp [hk, eq_comm]
  | some record => rw [Mapping.value?_set]

/-- Undoing a publication leaves the map as it was. -/
theorem value?_restoreSuperseded {record : TurnRecord} :
    (restoreSuperseded (publish m record) ⟨record, record.indexedEventIds.map fun key => (key, m.value? key)⟩).value? k =
      m.value? k := by
  -- the induction is over the events that are still to be restored
  have hfold : ∀ (ids : List String) (published : Mapping String TurnRecord),
      (∀ e, published.value? e = m.value? e ∨ (e ∈ ids ∧ published.value? e = some record)) →
      ((ids.map fun key => (key, m.value? key)).foldl (fun responses item =>
        if responses.value? item.1 = some record then setResponse responses item.1 item.2 else responses)
        published).value? k = m.value? k := by
    intro ids
    induction ids with
    | nil =>
      intro published hpublished
      rcases hpublished k with h | ⟨h, -⟩
      · exact h
      · exact absurd h List.not_mem_nil
    | cons e ids ih =>
      intro published hpublished
      rw [List.map_cons, List.foldl_cons]
      apply ih
      intro e'
      dsimp only
      split
      · rw [value?_setResponse]
        by_cases he : e = e'
        · rw [if_pos he, he]
          exact .inl rfl
        · rw [if_neg he]
          rcases hpublished e' with h | ⟨hmem, h⟩
          · exact .inl h
          · exact .inr ⟨(List.mem_cons.mp hmem).resolve_left (Ne.symm he), h⟩
      · next hkept =>
        rcases hpublished e' with h | ⟨hmem, h⟩
        · exact .inl h
        · rcases List.mem_cons.mp hmem with rfl | hmem
          · exact absurd h hkept
          · exact .inr ⟨hmem, h⟩
  apply hfold
  intro e
  rw [value?_publish]
  by_cases he : e ∈ record.indexedEventIds
  · rw [if_pos he]
    exact .inr ⟨he, rfl⟩
  · rw [if_neg he]
    exact .inl rfl

/-! ## Writes -/

/-- What holds of a ledger between its calls. -/
structure Synced (agentName : String) (l : LedgerState) : Prop where
  oneRecord : OneRecord l.records
  mirrors : Mirrors agentName l

variable {l l' : LedgerState} {c f : TurnRecord}

/-- The map claims the records of a candidate as the rows do. -/
theorem Synced.claims (h : Synced agentName l) : Claims l.records agentName c l.responses := by
  have hrows := h.oneRecord.stored
  refine ⟨?_, ?_, ?_⟩
  · intro e r hr
    rw [h.mirrors] at hr
    rcases rowRecord_canonical hrows hr with ⟨row, hrow, hagent, hindex, -, hfacts, hcanonical⟩
    exact ⟨hcanonical, row, hrow, hagent, hindex, hfacts⟩
  · intro e r hr
    rw [h.mirrors] at hr
    rcases rowRecord_canonical hrows hr with ⟨row, hrow, hagent, -, hdecode, -, -⟩
    exact ⟨row, hrow, hagent, ((hrows row hrow).decode hdecode).2.2⟩
  · intro row hrow hagent _
    rcases rowRecord_of_stored hrows hrow hagent with ⟨r, -, hfacts, -, hrecord⟩
    exact ⟨r, (h.mirrors _).trans hrecord, hfacts⟩

theorem anchor_ne_none (hf : f.Canonical) (hsourced : f.sourceEventIds ≠ []) : f.anchorEventId ≠ none := by
  intro hnone
  have hanchor := hf.anchor
  rw [hnone] at hanchor
  exact hsourced (List.getLast?_eq_none_iff.mp hanchor)

/-- A written record is read back the same under each of its events. -/
theorem exists_decoded (hf : f.Canonical) (hsourced : f.sourceEventIds ≠ []) : ∃ r : TurnRecord,
    r.indexedEventIds = f.indexedEventIds ∧ ∀ e ∈ f.indexedEventIds, TurnRecord.fromLedgerRecord e f = some r := by
  have hanchor : canonicalOptionalString f.anchorEventId ≠ none := by
    rcases Option.ne_none_iff_exists'.mp (anchor_ne_none hf hsourced) with ⟨a, ha⟩
    have hne : a ≠ "" := fun hempty => TurnRecords.anchor_ne_of_canonical hf (hempty ▸ ha)
    simp [ha, canonicalOptionalString, Option.filter, hne]
  rcases List.exists_mem_of_ne_nil _ hsourced with ⟨x, hx⟩
  rcases TurnRecord.fromLedgerRecord_canonical hf (List.mem_append_left _ hx) hanchor hsourced with
    ⟨r, hdecode, hfacts, -⟩
  have hindexed := hfacts.toSameIndexes.indexed
  exact ⟨r, hindexed, fun e he => fromLedgerRecord_congr hdecode (hindexed ▸ he)⟩

/-- A write that leaves no event of a turn it replaces behind is mirrored by publishing its record. -/
theorem Synced.upsert (h : Synced agentName l) (hf : f.Canonical) (hsourced : f.sourceEventIds ≠ []) {a : String}
    (ha : f.anchorEventId = some a) {r : TurnRecord} (hindexed : r.indexedEventIds = f.indexedEventIds)
    (hr : ∀ e ∈ f.indexedEventIds, TurnRecord.fromLedgerRecord e f = some r)
    (hm : ∀ k, m.value? k = l.responses.value? k)
    (hwhole : ∀ row ∈ l.records, TurnRecords.Replaces l.records agentName f.indexedEventIds a row →
      row.indexEventId ∈ f.indexedEventIds) :
    Synced agentName ⟨publish m r, TurnRecords.upsert l.records agentName f.indexedEventIds a f⟩ := by
  have hnamed : a ≠ "" := fun hempty => TurnRecords.anchor_ne_of_canonical hf (hempty ▸ ha)
  have hids : f.indexedEventIds ≠ [] := fun hnil => hsourced (List.append_eq_nil_iff.mp hnil).1
  refine ⟨h.oneRecord.upsert hf ha hnamed hsourced, fun k => ?_⟩
  apply Option.ext
  intro record
  rw [value?_publish, hindexed, rowRecord_eq_some]
  by_cases hk : k ∈ f.indexedEventIds
  · rw [if_pos hk]
    constructor
    · intro hrecord
      exact ⟨⟨agentName, k, a, f⟩, (TurnRecords.mem_upsert hids).mpr (.inl ⟨k, hk, rfl⟩), rfl, rfl, hrecord ▸ hr k hk⟩
    · rintro ⟨row, hrow, hagent, rfl, hdecode⟩
      rcases (TurnRecords.mem_upsert hids).mp hrow with ⟨e, he, rfl⟩ | ⟨-, hkept⟩
      · rw [hr e he] at hdecode
        exact hdecode
      · exact absurd ⟨hagent, .inl hk⟩ hkept
  · rw [if_neg hk, hm, h.mirrors, rowRecord_eq_some]
    constructor
    · rintro ⟨row, hrow, hagent, rfl, hdecode⟩
      -- a replaced row has one of the written events
      exact ⟨row, (TurnRecords.mem_upsert hids).mpr (.inr ⟨hrow, fun hin => hk (hwhole row hrow hin)⟩), hagent, rfl, hdecode⟩
    · rintro ⟨row, hrow, hagent, rfl, hdecode⟩
      rcases (TurnRecords.mem_upsert hids).mp hrow with ⟨e, he, rfl⟩ | ⟨hold, -⟩
      · exact absurd he hk
      · exact ⟨row, hold, hagent, rfl, hdecode⟩

theorem Synced.congr (h : Synced agentName l) (hm : ∀ k, m.value? k = l.responses.value? k) :
    Synced agentName { l with responses := m } where
  oneRecord := h.oneRecord
  mirrors k := (hm k).trans (h.mirrors k)

/-- The candidate of a call takes only whole turns. -/
def UpdateTakesWhole (agentName : String) (l : LedgerState) (lookupEventIds : List String)
    (update : Mapping String TurnRecord → Option TurnRecord) (now : Int) : Prop :=
  ∀ c ∈ candidate l.responses (canonicalSourceEventIds lookupEventIds) update now,
    TurnRecords.TakesWhole l.records agentName c

theorem candidate_canonical {lookupEventIds : List String} {update : Mapping String TurnRecord → Option TurnRecord}
    {now : Int} (hc : candidate responses lookupEventIds update now = some c) : c.Canonical := by
  rcases Option.map_eq_some_iff.mp hc with ⟨updated, -, rfl⟩
  exact TurnRecord.canonicalize_canonical _

/-- What the two resolutions of one write store. -/
theorem Synced.files (h : Synced agentName l) (hc : c.Canonical) (hsourced : c.sourceEventIds ≠ [])
    {record : TurnRecord} (hrecord : resolveTurnRecord c l.responses = some record) {anchorEventId : String}
    {outbox : Table OutboxRow} {records : Table TurnRecordRow}
    (hwrite : TurnRecords.writeRecord outbox agentName record.indexedEventIds anchorEventId record l.records =
      .ok (some f, records)) :
    TurnRecords.Files l.records agentName c f ∧
      ∃ a, f.anchorEventId = some a ∧ records = TurnRecords.upsert l.records agentName f.indexedEventIds a f := by
  have hrows := h.oneRecord.stored
  have hresolved := h.claims.resolved hrows hc hsourced hrecord
  rcases TurnRecords.writeRecord_eq_ok hwrite with ⟨c', claimed, hdecode, hclaim, hwritten, hstored⟩
  rcases Option.bind_eq_some_iff.mp hdecode with ⟨e, he, hc'⟩
  -- the written text is decoded to a record with the events of the resolved one
  have hanchor : canonicalOptionalString record.anchorEventId ≠ none := by
    intro hnone
    unfold TurnRecord.fromLedgerRecord at hc'
    rw [if_pos (.inl hnone)] at hc'
    cases hc'
  rcases TurnRecord.fromLedgerRecord_canonical hresolved.canonical (List.mem_of_mem_head? he) hanchor hresolved.sourced
    with ⟨c'', hc'', hfacts, hcanonical⟩
  rw [hc'] at hc''
  cases hc''
  have hresolved' := hresolved.congr hcanonical hfacts.toSameIndexes
  have hclaims := TurnRecords.claimTurnRecords_claims hrows hclaim
  rcases TurnRecords.writtenRecord_indexes hwritten.symm with ⟨m, hm, hindexes⟩
  have hm' := hclaims.resolved hrows hcanonical hresolved'.sourced hm
  rcases hindexes hm'.canonical with ⟨hf, hsame⟩
  refine ⟨hresolved'.files hrows (hm'.congr hf hsame), ?_⟩
  rcases hstored with ⟨hnone, -⟩ | ⟨f', a, hf', ha, hupsert⟩
  · cases hnone
  · cases hf'
    exact ⟨a, ha, hupsert⟩

theorem reserveUpdate_eq_some {lookupEventIds : List String} {update : Mapping String TurnRecord → Option TurnRecord}
    {now : Int} {pending : PendingLedgerWrite} (h : reserveUpdate responses lookupEventIds update now = some pending) :
    ∃ c record, candidate responses lookupEventIds update now = some c ∧ c.sourceEventIds ≠ [] ∧
      resolveTurnRecord c responses = some record ∧
      pending = ⟨record, record.indexedEventIds.map fun key => (key, responses.value? key)⟩ := by
  rcases Option.bind_eq_some_iff.mp h with ⟨c, hc, h⟩
  split at h
  · cases h
  · next hsourced =>
    rcases Option.bind_eq_some_iff.mp h with ⟨record, hrecord, h⟩
    exact ⟨c, record, hc, hsourced, hrecord, (Option.some.inj h).symm⟩

/-- An update whose candidate takes only whole turns leaves the map a mirror of the rows. -/
theorem Synced.update (h : Synced agentName l) {lookupEventIds : List String}
    {update : Mapping String TurnRecord → Option TurnRecord} {now : Int} {outbox : Table OutboxRow}
    (hwhole : UpdateTakesWhole agentName l lookupEventIds update now) :
    Synced agentName (updateHandledTurn agentName lookupEventIds update now outbox l).2 := by
  unfold updateHandledTurn
  dsimp only
  split
  · exact h
  · cases hreserve : reserveUpdate l.responses (canonicalSourceEventIds lookupEventIds) update now with
    | none => exact h
    | some pending =>
      rcases reserveUpdate_eq_some hreserve with ⟨c, record, hcandidate, hsourced, hrecord, rfl⟩
      have hc := candidate_canonical hcandidate
      have hresolved := h.claims.resolved h.oneRecord.stored hc hsourced hrecord
      have hrestored : ∀ k, (restoreSuperseded (publish l.responses record)
          ⟨record, record.indexedEventIds.map fun key => (key, l.responses.value? key)⟩).value? k =
          l.responses.value? k := fun k => value?_restoreSuperseded
      dsimp only
      cases ha : record.anchorEventId with
      | none => exact absurd ha (anchor_ne_none hresolved.canonical hresolved.sourced)
      | some anchor =>
        dsimp only
        split
        · exact h.congr hrestored
        · next result rows hwrite =>
          cases result with
          | none =>
            rcases TurnRecords.writeRecord_eq_ok hwrite with ⟨-, -, -, -, -, ⟨-, rfl⟩ | ⟨_, _, hnone, -⟩⟩
            · exact h.congr hrestored
            · cases hnone
          | some f =>
            rcases h.files hc hsourced hrecord hwrite with ⟨hfiles, a, hanchor, rfl⟩
            rcases exists_decoded hfiles.canonical hfiles.sourced with ⟨r, hindexed, hr⟩
            have hhead : f.sourceEventIds.head?.bind (TurnRecord.fromLedgerRecord · f) = some r := by
              cases hsources : f.sourceEventIds with
              | nil => exact absurd hsources hfiles.sourced
              | cons e rest =>
                apply hr
                unfold TurnRecord.indexedEventIds
                rw [hsources]
                exact List.mem_cons_self
            unfold publishWriteResult
            dsimp only
            rw [hhead]
            apply h.upsert hfiles.canonical hfiles.sourced hanchor hindexed hr hrestored
            intro row hrow hin
            rcases hwhole c hcandidate with hdeclined | hmeets
            · rw [h.claims.declined hc hdeclined] at hrecord
              cases hrecord
            · exact hfiles.replaced h.oneRecord hanchor hmeets hrow hin

/-! ## Cleanup -/

/-- The group of some events has the records that are indexed by exactly these. -/
theorem value?_groups {items : List (Mapping.Item String TurnRecord)} (hitems : (items.map (·.key)).Nodup)
    {ids : List String} : (((items.foldl addToGroup ∅).value? ids).getD {}).records.value? k = some record ↔
      ⟨k, record⟩ ∈ items ∧ record.indexedEventIds = ids := by
  induction items using List.reverseRecOn generalizing ids k record with
  | nil => simp
  | append_singleton items item ih =>
    rw [List.map_append, List.map_singleton, List.nodup_append] at hitems
    rcases hitems with ⟨hitems, -, hfresh⟩
    rw [List.foldl_append, List.foldl_cons, List.foldl_nil]
    generalize items.foldl addToGroup ∅ = groups at ih ⊢
    unfold addToGroup
    dsimp only
    rw [Mapping.value?_set, List.mem_append, List.mem_singleton]
    by_cases hids : item.value.indexedEventIds = ids
    · rw [if_pos hids, Option.getD_some, Mapping.value?_set]
      by_cases hk : item.key = k
      · rw [if_pos hk, Option.some.injEq]
        constructor
        · rintro rfl
          exact ⟨.inr (by rw [← hk]), hids⟩
        · rintro ⟨hmem | heq, -⟩
          · exact absurd (hk.symm) (hfresh k (List.mem_map.mpr ⟨_, hmem, rfl⟩) item.key (List.mem_singleton.mpr rfl))
          · rw [← heq]
      · rw [if_neg hk, hids, ih hitems]
        constructor
        · rintro ⟨hmem, hindexed⟩
          exact ⟨.inl hmem, hindexed⟩
        · rintro ⟨hmem | heq, hindexed⟩
          · exact ⟨hmem, hindexed⟩
          · exact absurd (by rw [← heq]) hk
    · rw [if_neg hids, ih hitems]
      constructor
      · rintro ⟨hmem, hindexed⟩
        exact ⟨.inl hmem, hindexed⟩
      · rintro ⟨hmem | heq, hindexed⟩
        · exact ⟨hmem, hindexed⟩
        · rw [← heq] at hids
          exact absurd hindexed hids

/-- A group has all records of the map with its events. -/
theorem value?_of_group {g : ResponseGroup} (hg : g ∈ responseGroups m) : ∃ ids, ∀ k record,
    g.records.value? k = some record ↔ m.value? k = some record ∧ record.indexedEventIds = ids := by
  unfold responseGroups at hg
  rw [List.mem_insertionSort, Mapping.mem_values] at hg
  rcases hg with ⟨ids, hgroup⟩
  refine ⟨ids, fun k record => ?_⟩
  have hgroup : (m.rows.foldl addToGroup ∅).value? ids = some g := hgroup
  have hspec : g.records.value? k = some record ↔ ⟨k, record⟩ ∈ m.rows ∧ record.indexedEventIds = ids := by
    rw [← value?_groups m.primaryKey, hgroup, Option.getD_some]
  rw [hspec, Mapping.value?_eq_some]
  rfl

theorem mem_freshGroups {maxEvents : Nat} {maxAgeDays now : Int} {unsettled : List String} {g : ResponseGroup}
    (hg : g ∈ freshGroups m maxEvents maxAgeDays now unsettled) : g ∈ responseGroups m := by
  unfold freshGroups at hg
  dsimp only at hg
  split at hg
  · rw [List.mem_insertionSort, List.mem_append] at hg
    rcases hg with hg | hg
    · exact (List.mem_filter.mp (List.mem_filter.mp hg).1).1
    · exact (List.mem_filter.mp (List.mem_filter.mp (List.mem_of_mem_drop hg)).1).1
  · exact (List.mem_filter.mp hg).1

/-- What stays are the records of the groups that stay. -/
theorem value?_foldl_merge {groups : List ResponseGroup}
    (hgroups : ∀ g ∈ groups, ∀ k record, g.records.value? k = some record → m.value? k = some record)
    (hm' : ∀ k record, m'.value? k = some record → m.value? k = some record) :
    (groups.foldl (fun cleaned group => cleaned.merge group.records) m').value? k = some record ↔
      (∃ g ∈ groups, g.records.value? k = some record) ∨ m'.value? k = some record := by
  induction groups generalizing m' with
  | nil => simp
  | cons g groups ih =>
    have hg := hgroups g List.mem_cons_self
    rw [List.foldl_cons, ih fun g' hg' => hgroups g' (List.mem_cons_of_mem _ hg')]
    · have hmerge : (g.records.value? k).or (m'.value? k) = some record ↔
          g.records.value? k = some record ∨ m'.value? k = some record := by
        rw [Option.or_eq_some_iff]
        constructor
        · rintro (h | ⟨-, h⟩)
          · exact .inl h
          · exact .inr h
        · rintro (h | h)
          · exact .inl h
          · -- both have what the map has
            cases hvalue : g.records.value? k with
            | none => exact .inr ⟨rfl, h⟩
            | some record' => exact .inl ((hg k record' hvalue).symm.trans (hm' k record h))
      rw [Mapping.value?_merge, hmerge, List.exists_mem_cons_iff, or_assoc, or_left_comm]
    · intro k record h
      rw [Mapping.value?_merge, Option.or_eq_some_iff] at h
      rcases h with h | ⟨-, h⟩
      · exact hg k record h
      · exact hm' k record h


/-- What a cleanup keeps of a map: whole groups. -/
structure KeepsGroups (m retained : Mapping String TurnRecord) : Prop where
  sound : ∀ k record, retained.value? k = some record → m.value? k = some record
  group : ∀ k record, retained.value? k = some record → ∀ k' record', m.value? k' = some record' →
    record'.indexedEventIds = record.indexedEventIds → retained.value? k' = some record'

theorem cleanedResponses_keepsGroups {maxEvents : Nat} {maxAgeDays now : Int} {unsettled : List String} :
    KeepsGroups m (cleanedResponses m maxEvents maxAgeDays now unsettled) := by
  have hgroups : ∀ g ∈ freshGroups m maxEvents maxAgeDays now unsettled, ∃ ids, ∀ k record,
      g.records.value? k = some record ↔ m.value? k = some record ∧ record.indexedEventIds = ids :=
    fun g hg => value?_of_group (mem_freshGroups hg)
  have hvalue : ∀ k record, (cleanedResponses m maxEvents maxAgeDays now unsettled).value? k = some record ↔
      ∃ g ∈ freshGroups m maxEvents maxAgeDays now unsettled, g.records.value? k = some record := by
    intro k record
    unfold cleanedResponses
    rw [value?_foldl_merge (m := m)]
    · simp
    · intro g hg k record h
      rcases hgroups g hg with ⟨ids, hspec⟩
      exact ((hspec k record).mp h).1
    · intro k record h
      cases h
  constructor
  · intro k record h
    rcases (hvalue k record).mp h with ⟨g, hg, hrecord⟩
    rcases hgroups g hg with ⟨ids, hspec⟩
    exact ((hspec k record).mp hrecord).1
  · intro k record h k' record' h' hindexed
    rcases (hvalue k record).mp h with ⟨g, hg, hrecord⟩
    rcases hgroups g hg with ⟨ids, hspec⟩
    have hids := ((hspec k record).mp hrecord).2
    exact (hvalue k' record').mpr ⟨g, hg, (hspec k' record').mpr ⟨h', hindexed.trans hids⟩⟩

theorem mem_forget {dropped : List String} {row : TurnRecordRow} : row ∈ forget agentName dropped records ↔
    row ∈ records ∧ ¬ (row.agentName = agentName ∧ row.indexEventId ∈ dropped) := by
  unfold forget
  split
  · next hnil =>
    rw [hnil]
    simp
  · rw [Table.mem_delete]

/-- Forgetting whole groups keeps the map a mirror of the rows. -/
theorem Synced.dropGroups (h : Synced agentName l) (hkeeps : KeepsGroups l.responses m) :
    Synced agentName ⟨m, forget agentName (l.responses.keys.filter (· ∉ m.keys)) l.records⟩ := by
  have hrows := h.oneRecord.stored
  have hmem : ∀ {row : TurnRecordRow}, row ∈ forget agentName (l.responses.keys.filter (· ∉ m.keys)) l.records ↔
      row ∈ l.records ∧ (row.agentName = agentName → row.indexEventId ∈ m.keys) := by
    intro row
    rw [mem_forget]
    apply and_congr_right
    intro hrow
    rw [not_and]
    apply imp_congr_right
    intro hagent
    rcases rowRecord_of_stored hrows hrow hagent with ⟨r, -, -, -, hrecord⟩
    have hkey : row.indexEventId ∈ l.responses.keys := Mapping.mem_keys.mpr ⟨r, (h.mirrors _).trans hrecord⟩
    rw [List.mem_filter, decide_eq_true_iff]
    constructor
    · intro hkept
      by_contra hout
      exact hkept ⟨hkey, hout⟩
    · exact fun hin hdropped => hdropped.2 hin
  refine ⟨⟨?_, ?_⟩, fun k => ?_⟩
  · intro row hrow
    rcases hmem.mp hrow with ⟨hold, hkept⟩
    refine { hrows row hold with group := fun e he => hmem.mpr ⟨(hrows row hold).group e he, fun hagent => ?_⟩ }
    -- the other events of the turn are in its group
    rcases Mapping.mem_keys.mp (hkept hagent) with ⟨record, hrecord⟩
    have hold' := hkeeps.sound _ _ hrecord
    rw [h.mirrors] at hold'
    rcases rowRecord_eq_some.mp hold' with ⟨row', hrow', hagent', hindex', hdecode⟩
    have hsame : row' = row := Table.eq_of_key_eq hrow' hold (Prod.ext (hagent'.trans hagent.symm) hindex')
    subst hsame
    rcases rowRecord_canonical hrows hold' with ⟨row₁, hrow₁, hagent₁, hindex₁, -, hfacts, -⟩
    have hsame : row₁ = row' := Table.eq_of_key_eq hrow₁ hold (Prod.ext (hagent₁.trans hagent.symm) hindex₁)
    subst hsame
    have he' : e ∈ record.indexedEventIds := hfacts.toSameIndexes.indexed ▸ he
    have hother : l.responses.value? e = some record := by
      rw [h.mirrors]
      exact rowRecord_eq_some.mpr ⟨_, (hrows _ hold).group e he, hagent, rfl, fromLedgerRecord_congr hdecode he'⟩
    exact Mapping.mem_keys.mpr ⟨record, hkeeps.group _ _ hrecord e record hother rfl⟩
  · intro row hrow row' hrow' hagent hanchor
    exact h.oneRecord.eq_record row (hmem.mp hrow).1 row' (hmem.mp hrow').1 hagent hanchor
  · apply Option.ext
    intro record
    rw [rowRecord_eq_some]
    constructor
    · intro hrecord
      have hold := hkeeps.sound _ _ hrecord
      rw [h.mirrors] at hold
      rcases rowRecord_eq_some.mp hold with ⟨row, hrow, hagent, rfl, hdecode⟩
      exact ⟨row, hmem.mpr ⟨hrow, fun _ => Mapping.mem_keys.mpr ⟨record, hrecord⟩⟩, hagent, rfl, hdecode⟩
    · rintro ⟨row, hrow, hagent, rfl, hdecode⟩
      rcases hmem.mp hrow with ⟨hold, hkept⟩
      rcases Mapping.mem_keys.mp (hkept hagent) with ⟨record', hrecord'⟩
      have hsame := hkeeps.sound _ _ hrecord'
      rw [h.mirrors, rowRecord_eq_some.mpr ⟨row, hold, hagent, rfl, hdecode⟩] at hsame
      rw [hsame]
      exact hrecord'

end MindRoom.HandledTurnLedger
