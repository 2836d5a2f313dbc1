import MindRoom.TurnGroups

/-! # The history of one turn

The writes of one turn of one agent, in any order and with any facts. The agent's rows are then
always those of one record, and each write replaces it by one that grows from it.
-/

namespace MindRoom.TurnRecords

structure TurnWrite.OfTurn (w : TurnWrite) (agentName : String) (sourceEventIds : List String)
    (anchorEventId : String) : Prop where
  agent : w.agentName = agentName
  sources : ∀ c ∈ w.candidate, c.sourceEventIds = sourceEventIds
  anchor : ∀ c ∈ w.candidate, c.anchorEventId = some anchorEventId

/-- Writes of one turn, one after the other. -/
def History (agentName : String) (sourceEventIds : List String) (anchorEventId : String) :
    Table TurnRecordRow → Table TurnRecordRow → Prop :=
  Relation.ReflTransGen fun rows rows' =>
    ∃ w : TurnWrite, w.OfTurn agentName sourceEventIds anchorEventId ∧ w.run rows = .ok rows'

structure OneTurn (rows : Table TurnRecordRow) (agentName : String) (sourceEventIds : List String)
    (anchorEventId : String) : Prop where
  stored : AllStored rows
  agent : ∀ r ∈ rows, r.agentName = agentName
  sources : ∀ r ∈ rows, r.recordJson.sourceEventIds = sourceEventIds
  anchor : ∀ r ∈ rows, r.anchorEventId = anchorEventId

variable {rows rows' : Table TurnRecordRow} {agentName anchorEventId : String}
  {sourceEventIds : List String}

theorem oneTurn_empty : OneTurn ∅ agentName sourceEventIds anchorEventId where
  stored := allStored_empty
  agent _ hr := absurd hr Table.not_mem_empty
  sources _ hr := absurd hr Table.not_mem_empty
  anchor _ hr := absurd hr Table.not_mem_empty

theorem OneTurn.eq_record (h : OneTurn rows agentName sourceEventIds anchorEventId) {r r' : TurnRecordRow}
    (hr : r ∈ rows) (hr' : r' ∈ rows) : r'.recordJson = r.recordJson := by
  obtain ⟨e, he⟩ := List.exists_mem_of_ne_nil _ (h.stored r hr).sourced
  have he' : e ∈ r'.recordJson.sourceEventIds := by
    rw [h.sources r' hr', ← h.sources r hr]
    exact he
  have heq := Table.eq_of_key_eq ((h.stored r' hr').source he') ((h.stored r hr).source he)
    (Prod.ext ((h.agent r' hr').trans (h.agent r hr).symm) rfl)
  rw [TurnRecordRow.mk.injEq] at heq
  exact heq.2.2.2

variable {records : Mapping String TurnRecord}

/-- What is claimed of one turn is of it, and has whatever the rows have. -/
theorem OneTurn.claimed (h : OneTurn rows agentName sourceEventIds anchorEventId) {c : TurnRecord}
    (hclaims : Claims rows agentName c records)
    (hsources : c.sourceEventIds = sourceEventIds) (hanchor : c.anchorEventId = some anchorEventId)
    {r : TurnRecordRow} (hr : r ∈ rows) : ∀ e stored, records.value? e = some stored →
      SameTurnIdentity stored c ∧ r.recordJson.Grows stored := by
  intro e stored hstored
  obtain ⟨_, row, hrow, _, _, hfacts⟩ := hclaims.sound e stored hstored
  obtain ⟨row', hrow', _, hgrows⟩ := hclaims.grows e stored hstored
  constructor
  · constructor
    · rw [hfacts.sources, h.sources row hrow, hsources]
    · rw [hfacts.anchor, (h.stored row hrow).anchor, h.anchor row hrow, hanchor]
  · rw [← h.eq_record hr hrow']
    exact hgrows

/-- The rows a write of the turn leaves are those of the written record. -/
theorem OneTurn.upsert (h : OneTurn rows agentName sourceEventIds anchorEventId) {f : TurnRecord}
    (hf : f.Canonical) (hsources : f.sourceEventIds = sourceEventIds)
    (hanchor : f.anchorEventId = some anchorEventId) (hnamed : anchorEventId ≠ "") (hsourced : sourceEventIds ≠ []) :
    OneTurn (upsert rows agentName f.indexedEventIds anchorEventId f) agentName sourceEventIds
        anchorEventId ∧
      ∀ r', r' ∈ upsert rows agentName f.indexedEventIds anchorEventId f ↔
        ∃ e ∈ f.indexedEventIds, r' = ⟨agentName, e, anchorEventId, f⟩ := by
  have hfsourced : f.sourceEventIds ≠ [] := hsources.symm ▸ hsourced
  have hids : f.indexedEventIds ≠ [] := fun hnil => hfsourced (List.append_eq_nil_iff.mp hnil).1
  have hrows : ∀ r', r' ∈ TurnRecords.upsert rows agentName f.indexedEventIds anchorEventId f ↔
      ∃ e ∈ f.indexedEventIds, r' = ⟨agentName, e, anchorEventId, f⟩ := by
    intro r'
    rw [mem_upsert hids]
    constructor
    · rintro (hnew | ⟨hold, hkept⟩)
      · exact hnew
      · exact absurd ⟨h.agent r' hold, .inr (.inl (h.anchor r' hold))⟩ hkept
    · exact .inl
  refine ⟨⟨h.stored.upsert hf hanchor hnamed hfsourced, ?_, ?_, ?_⟩, hrows⟩
  all_goals
    intro r' hr'
    obtain ⟨_, _, rfl⟩ := (hrows r').mp hr'
  · rfl
  · exact hsources
  · rfl

/-- What one write of a turn does: nothing, or it stores a record that grows from the stored one. -/
structure Advances (rows rows' : Table TurnRecordRow) (f : TurnRecord) : Prop where
  canonical : f.Canonical
  nonempty : ∃ r', r' ∈ rows'
  record : ∀ r' ∈ rows', r'.recordJson = f
  grows : ∀ r ∈ rows, r.recordJson.Grows f

theorem OneTurn.advances (h : OneTurn rows agentName sourceEventIds anchorEventId) {f : TurnRecord}
    (hf : f.Canonical) (hsources : f.sourceEventIds = sourceEventIds)
    (hanchor : f.anchorEventId = some anchorEventId) (hnamed : anchorEventId ≠ "")
    (hsourced : sourceEventIds ≠ []) (hgrows : ∀ r ∈ rows, r.recordJson.Grows f) :
    Advances rows (TurnRecords.upsert rows agentName f.indexedEventIds anchorEventId f) f := by
  obtain ⟨_, hrows⟩ := h.upsert hf hsources hanchor hnamed hsourced
  obtain ⟨e, he⟩ := List.exists_mem_of_ne_nil _ (hsources.symm ▸ hsourced)
  refine ⟨hf, ⟨_, (hrows _).mpr ⟨e, List.mem_append_left _ he, rfl⟩⟩, ?_, hgrows⟩
  intro r' hr'
  obtain ⟨_, _, rfl⟩ := (hrows r').mp hr'
  rfl

/-- A decoded candidate is canonical and of a turn. -/
theorem TurnWrite.candidate_canonical {w : TurnWrite} {c : TurnRecord} (hc : w.candidate = some c) :
    c.Canonical ∧ c.sourceEventIds ≠ [] ∧ c.anchorEventId ≠ some "" := by
  have hdecoded : ∃ e, TurnRecord.fromLedgerRecord e w.recordJson = some c := by
    cases w <;> exact (Option.bind_eq_some_iff.mp hc).imp fun _ h => h.2
  obtain ⟨e, he⟩ := hdecoded
  obtain ⟨hcanonical, _, hsources, hanchor, _⟩ := TurnRecord.fromLedgerRecord_eq_some he
  refine ⟨hcanonical, ?_, ?_⟩
  · intro hnil
    rw [hsources] at hnil
    unfold TurnRecord.fromLedgerRecord at he
    rw [if_pos (.inr hnil)] at he
    cases he
  · rw [hanchor]
    intro hempty
    have hfilter := Option.mem_filter_iff.mp hempty
    simp at hfilter

/-- The rows of a turn are claimed by every write of it. -/
theorem OneTurn.claimed_source (h : OneTurn rows agentName sourceEventIds anchorEventId) {c : TurnRecord}
    (hclaims : Claims rows agentName c records)
    (hsources : c.sourceEventIds = sourceEventIds) {r : TurnRecordRow} (hr : r ∈ rows) :
    ∃ e ∈ c.sourceEventIds, ∃ stored, records.value? e = some stored := by
  obtain ⟨e, he⟩ := List.exists_mem_of_ne_nil _ (h.stored r hr).sourced
  have hc : e ∈ c.sourceEventIds := by
    rw [hsources, ← h.sources r hr]
    exact he
  obtain ⟨stored, hstored, _⟩ := hclaims.complete _ ((h.stored r hr).source he) (h.agent r hr)
    (List.mem_append_left _ hc)
  exact ⟨e, hc, stored, hstored⟩

theorem OneTurn.written (h : OneTurn rows agentName sourceEventIds anchorEventId) {c f : TurnRecord}
    {outbox : Table OutboxRow} (hc : c.Canonical)
    (hclaims : Claims rows agentName c records) (hsources : c.sourceEventIds = sourceEventIds)
    (hanchor : c.anchorEventId = some anchorEventId) (hf : writtenRecord outbox records c = some f) :
    f.Canonical ∧ f.sourceEventIds = sourceEventIds ∧ f.anchorEventId = some anchorEventId ∧
      ∀ r ∈ rows, r.recordJson.Grows f := by
  obtain ⟨ts, p, hp, hwrites⟩ := writtenRecord_writes hclaims.canonical hf
  have hs := sanitizeRevisionReplay_sameFacts hc none ts
  have hpc : c.SameFacts p := by
    have heq := detachConflicts_of_sameTurn (sanitizeRevisionReplay_canonical c none ts) ?_ hp
    · exact heq ▸ hs
    · intro e stored hstored
      obtain ⟨_, row, hrow, _, _, hfacts⟩ := hclaims.sound e stored hstored
      constructor
      · rw [hfacts.sources, h.sources row hrow, hs.sources, hsources]
      · rw [hfacts.anchor, (h.stored row hrow).anchor, h.anchor row hrow, hs.anchor, hanchor]
  refine ⟨hwrites.canonical, ?_, ?_, ?_⟩
  · rw [hwrites.sources, hpc.sources, hsources]
  · rw [hwrites.anchor, hpc.anchor, hanchor]
  · intro r hr
    obtain ⟨e, he, stored, hstored⟩ := h.claimed_source hclaims hsources hr
    exact writtenRecord_grows hc hclaims.canonical (h.claimed hclaims hsources hanchor hr)
      (List.mem_append_left _ he) hstored hf

theorem OneTurn.committed (h : OneTurn rows agentName sourceEventIds anchorEventId) {c f : TurnRecord}
    (hc : c.Canonical) (hclaims : Claims rows agentName c records)
    (hsources : c.sourceEventIds = sourceEventIds) (hanchor : c.anchorEventId = some anchorEventId)
    (hf : committedRecord records c = .ok (some f)) :
    f.Canonical ∧ f.sourceEventIds = sourceEventIds ∧ f.anchorEventId = some anchorEventId ∧
      ∀ r ∈ rows, r.recordJson.Grows f := by
  obtain ⟨_, ⟨hnone, hfc, hsame, _⟩ | ⟨current, hcurrent, hsame, hfc, _⟩⟩ :=
    committedRecord_eq_ok hclaims.canonical hc hf
  · refine ⟨hfc, hsame.sources.trans hsources, hsame.anchor.trans hanchor, fun r hr => ?_⟩
    obtain ⟨e, he, stored, hstored⟩ := h.claimed_source hclaims hsources hr
    have hmiss := List.findSome?_eq_none_iff.mp hnone e he
    rw [hstored] at hmiss
    cases hmiss
  · obtain ⟨e, _, he⟩ := List.exists_of_findSome?_eq_some hcurrent
    obtain ⟨_, row, hrow, _, _, hfacts⟩ := hclaims.sound e current he
    refine ⟨hfc, ?_, ?_, fun r hr => ?_⟩
    · rw [hsame.sources, hfacts.sources, h.sources row hrow]
    · rw [hsame.anchor, hfacts.anchor, (h.stored row hrow).anchor, h.anchor row hrow]
    · exact (h.claimed hclaims hsources hanchor hr e current he).2.trans
        (committedRecord_grows hclaims.canonical hcurrent hf)

/-- One write of a turn leaves the rows as they are or advances the turn's record. -/
theorem OneTurn.step (h : OneTurn rows agentName sourceEventIds anchorEventId) {w : TurnWrite}
    (hw : w.OfTurn agentName sourceEventIds anchorEventId) (hrun : w.run rows = .ok rows') :
    rows' = rows ∨ OneTurn rows' agentName sourceEventIds anchorEventId ∧ ∃ f, Advances rows rows' f := by
  have hstore : ∀ (c f : TurnRecord) (a : String), w.candidate = some c →
      (f.Canonical ∧ f.sourceEventIds = sourceEventIds ∧ f.anchorEventId = some anchorEventId ∧
        ∀ r ∈ rows, r.recordJson.Grows f) → f.anchorEventId = some a →
      rows' = TurnRecords.upsert rows agentName f.indexedEventIds a f →
      OneTurn rows' agentName sourceEventIds anchorEventId ∧ ∃ f, Advances rows rows' f := by
    rintro c f a hc ⟨hfc, hsources, hanchor, hgrows⟩ ha rfl
    obtain rfl := Option.mem_unique hanchor ha
    obtain ⟨_, hsourced, hnamed⟩ := TurnWrite.candidate_canonical hc
    rw [hw.sources c hc] at hsourced
    have hnamed : anchorEventId ≠ "" := by
      rintro rfl
      exact hnamed (hw.anchor c hc)
    exact ⟨(h.upsert hfc hsources hanchor hnamed hsourced).1, f, h.advances hfc hsources hanchor hnamed hsourced hgrows⟩
  obtain rfl := hw.agent
  cases w with
  | cached outbox agent ids anchor recordJson =>
    obtain ⟨⟨result, rows₁⟩, hwrite, hrows⟩ := Transaction.except_bind_eq_ok.mp hrun
    obtain rfl := Except.ok.inj hrows
    obtain ⟨c, records, hc, hclaim, rfl, ⟨_, hsame⟩ | ⟨f, a, hf, ha, hupsert⟩⟩ :=
      writeRecord_eq_ok hwrite
    · exact .inl hsame
    · have hclaims := claimTurnRecords_claims h.stored hclaim
      have hcanonical := (@TurnWrite.candidate_canonical
        (.cached outbox agent ids anchor recordJson) c hc).1
      exact .inr (hstore c f a hc
        (h.written hcanonical hclaims (hw.sources c hc) (hw.anchor c hc) hf) ha hupsert)
  | terminal prepared =>
    obtain ⟨⟨result, rows₁⟩, hwrite, hrows⟩ := Transaction.except_bind_eq_ok.mp hrun
    obtain rfl := Except.ok.inj hrows
    obtain ⟨c, records, hc, hclaim, hsame | ⟨f, a, hf, ha, hupsert⟩⟩ := commitTerminal_eq_ok hwrite
    · exact .inl hsame
    · have hclaims := claimTurnRecords_claims h.stored hclaim
      have hcanonical := (@TurnWrite.candidate_canonical (.terminal prepared) c hc).1
      exact .inr (hstore c f a hc
        (h.committed hcanonical hclaims (hw.sources c hc) (hw.anchor c hc) hf) ha hupsert)

/-- Every history of a turn leaves the rows of one turn, and a record that grows from the one it
started with. -/
theorem OneTurn.history (h : OneTurn rows agentName sourceEventIds anchorEventId)
    (hrun : History agentName sourceEventIds anchorEventId rows rows') :
    OneTurn rows' agentName sourceEventIds anchorEventId ∧
      ∀ r ∈ rows, (∃ r', r' ∈ rows') ∧ ∀ r' ∈ rows', r.recordJson.Grows r'.recordJson := by
  induction hrun with
  | refl =>
    refine ⟨h, fun r hr => ⟨⟨r, hr⟩, fun r' hr' => ?_⟩⟩
    rw [h.eq_record hr hr']
    exact TurnRecord.Grows.refl _
  | tail _ hstep ih =>
    obtain ⟨hone, hgrown⟩ := ih
    obtain ⟨w, hw, hwrite⟩ := hstep
    rcases hone.step hw hwrite with rfl | ⟨hone', f, hadvances⟩
    · exact ⟨hone, hgrown⟩
    · refine ⟨hone', fun r hr => ⟨hadvances.nonempty, fun r'' hr'' => ?_⟩⟩
      obtain ⟨⟨r', hr'⟩, hgrows⟩ := hgrown r hr
      rw [hadvances.record r'' hr'']
      exact (hgrows r' hr').trans (hadvances.grows r' hr')

/-- **The facts of a turn only grow.** Whatever writes of one turn led to the stored record and
whatever writes of it follow, the record stays stored; it loses no redaction of an event and no
redaction of a revision, which owes no cleanup again once it owes none; its edit and stop orders do
not fall, and the settled stop is one that was received. -/
theorem turn_facts_grow (hstart : History agentName sourceEventIds anchorEventId ∅ rows)
    (hrun : History agentName sourceEventIds anchorEventId rows rows') :
    (∀ r' ∈ rows', NotBelow r'.recordJson.userStopSettledReceiptOrder r'.recordJson.userStopReceiptOrder) ∧
      ∀ r ∈ rows, (∃ r', r' ∈ rows') ∧ ∀ r' ∈ rows', r.recordJson.Grows r'.recordJson := by
  obtain ⟨hone, _⟩ := oneTurn_empty.history hstart
  obtain ⟨hone', hgrown⟩ := hone.history hrun
  exact ⟨fun r' hr' => (hone'.stored r' hr').canonical.settled_le, hgrown⟩

namespace CleanedRevision

/-- One turn, with one edit in the given state. -/
def write (timestamp : Int) (redacted cleanupPending : Bool) : TurnWrite :=
  .cached ∅ "agent" ["e"] "e"
    { sourceEventIds := ["e"], anchorEventId := some "e", timestamp := timestamp
      revisionReplay := Mapping.collect ["k"] fun _ => some
        { sourceEventId := "e", timestampMs := 1, redacted := redacted
          cleanupPending := cleanupPending } }

def after (ws : List TurnWrite) : Table TurnRecordRow :=
  ws.foldl (fun rows w => (w.run rows).toOption.getD rows) ∅

/-- The redaction and the cleanup of the edit, as the rows store them. -/
def states (rows : Table TurnRecordRow) : List (Option (Bool × Bool)) :=
  rows.rows.map fun r =>
    (r.recordJson.revisionReplay.value? "k").map fun v => (v.redacted, v.cleanupPending)

theorem ofTurn (timestamp : Int) (redacted cleanupPending : Bool) :
    (write timestamp redacted cleanupPending).OfTurn "agent" ["e"] "e" := by
  refine ⟨rfl, ?_, ?_⟩
  all_goals
    rintro c hc
    obtain ⟨_, _, hsources, hanchor, _⟩ :=
      @TurnRecord.fromLedgerRecord_eq_some "e" (write timestamp redacted cleanupPending).recordJson c hc
  · exact hsources
  · exact hanchor

/-- A write that is rejected changes nothing, so a history may try it. -/
theorem history_run {rows₀ rows : Table TurnRecordRow} (h : History "agent" ["e"] "e" rows₀ rows)
    (timestamp : Int) (redacted cleanupPending : Bool) : History "agent" ["e"] "e" rows₀
      (((write timestamp redacted cleanupPending).run rows).toOption.getD rows) := by
  cases hrun : (write timestamp redacted cleanupPending).run rows with
  | error e => exact h
  | ok rows' => exact h.tail ⟨_, ofTurn timestamp redacted cleanupPending, hrun⟩

/-- A redacted revision that was cleaned stays clean under a late write that owes its cleanup. -/
theorem redacted_grows : (∀ r' ∈ after [write 1 true false, write 2 true true],
      NotBelow r'.recordJson.userStopSettledReceiptOrder r'.recordJson.userStopReceiptOrder) ∧
      ∀ r ∈ after [write 1 true false], (∃ r', r' ∈ after [write 1 true false, write 2 true true]) ∧
        ∀ r' ∈ after [write 1 true false, write 2 true true], r.recordJson.Grows r'.recordJson :=
  turn_facts_grow (history_run .refl 1 true false) (history_run .refl 2 true true)

/-- A revision that is not redacted may owe a cleanup, be cleared of it and owe it again. -/
theorem not_cleared_for_ever : ¬ ∀ (rows₁ rows₂ rows₃ : Table TurnRecordRow),
    History "agent" ["e"] "e" ∅ rows₁ → History "agent" ["e"] "e" rows₁ rows₂ → History "agent" ["e"] "e" rows₂ rows₃ →
    ∀ r₁ ∈ rows₁, ∀ r₂ ∈ rows₂, ∀ r₃ ∈ rows₃, ∀ k v₁ v₂ v₃, r₁.recordJson.revisionReplay.value? k = some v₁ →
      r₂.recordJson.revisionReplay.value? k = some v₂ →
      r₃.recordJson.revisionReplay.value? k = some v₃ →
      v₁.cleanupPending = true → v₂.cleanupPending = false → v₃.cleanupPending = false := by
  intro h
  have hstates : states (after [write 1 false true]) = [some (false, true)] ∧
      states (after [write 1 false true, write 2 false false]) = [some (false, false)] ∧
      states (after [write 1 false true, write 2 false false, write 3 false true]) =
        [some (false, true)] := by decide +kernel
  obtain ⟨h₁, h₂, h₃⟩ := hstates
  have hrow : ∀ {rows : Table TurnRecordRow} {state : Bool × Bool}, states rows = [some state] →
      ∃ r ∈ rows, ∃ v, r.recordJson.revisionReplay.value? "k" = some v ∧
        v.cleanupPending = state.2 := by
    intro rows state hs
    have hmem : some state ∈ states rows := hs ▸ List.mem_singleton.mpr rfl
    obtain ⟨r, hr, hv⟩ := List.mem_map.mp hmem
    obtain ⟨v, hvalue, rfl⟩ := Option.map_eq_some_iff.mp hv
    exact ⟨r, hr, v, hvalue, rfl⟩
  obtain ⟨r₁, hr₁, v₁, hv₁, hp₁⟩ := hrow h₁
  obtain ⟨r₂, hr₂, v₂, hv₂, hp₂⟩ := hrow h₂
  obtain ⟨r₃, hr₃, v₃, hv₃, hp₃⟩ := hrow h₃
  have hclear := h _ _ _ (history_run .refl 1 false true) (history_run .refl 2 false false)
    (history_run .refl 3 false true) r₁ hr₁ r₂ hr₂ r₃ hr₃ "k" v₁ v₂ v₃ hv₁ hv₂ hv₃ hp₁ hp₂
  rw [hclear] at hp₃
  cases hp₃

end CleanedRevision

end MindRoom.TurnRecords
