import MindRoom.TurnGroups

/-! # Handled events stay handled

A source event that a completed turn covers has been answered. A write keeps it covered, under
the anchor it has, unless the write turns redacted discovery aliases into sources: then it takes
whatever turn these aliases are of.
-/

namespace MindRoom.TurnRecords

variable {rows rows' : Table TurnRecordRow} {agentName : String}

/-! ## What a write keeps -/

/-- The answered events a write keeps. A turn other than the written one keeps its anchor too. -/
structure KeepsHandled (rows rows' : Table TurnRecordRow) (agentName : String) (written : TurnRecord) :
    Prop where
  covered : ∀ r ∈ rows, r.recordJson.completed = true → ∀ e ∈ r.recordJson.sourceEventIds,
    ∃ r' ∈ rows', r'.agentName = r.agentName ∧ r'.indexEventId = e ∧
      (r'.recordJson.completed = true ∨ e ∈ r'.recordJson.redactedSourceEventIds)
  unmoved : ∀ r ∈ rows, r.recordJson.completed = true →
    ¬ (r.agentName = agentName ∧ SameTurnIdentity r.recordJson written) →
    ∀ e ∈ r.recordJson.sourceEventIds, ∀ r' ∈ rows', r'.agentName = r.agentName →
      r'.indexEventId = e → r'.anchorEventId = r.anchorEventId

/-- The event is one of another completed turn than the candidate's. -/
def AnsweredElsewhere (rows : Table TurnRecordRow) (agentName : String) (candidate : TurnRecord)
    (e : String) : Prop :=
  rows.Any fun r => r.agentName = agentName ∧ r.indexEventId = e ∧ r.recordJson.completed = true ∧
    ¬ SameTurnIdentity r.recordJson candidate

instance (candidate : TurnRecord) (e : String) :
    Decidable (AnsweredElsewhere rows agentName candidate e) :=
  inferInstanceAs (Decidable (Table.Any _ _))

def redactedAliases (candidate : TurnRecord) : List String :=
  candidate.redactedSourceEventIds.filter (· ∉ candidate.sourceEventIds)

/-- A candidate all of whose sources are answered elsewhere is left with its redacted aliases. It
takes no completed turn with them but one that consists of such aliases and keeps its anchor. -/
def TakesNoAnswer (rows : Table TurnRecordRow) (agentName : String) (candidate : TurnRecord) : Prop :=
  (∀ e ∈ candidate.sourceEventIds, AnsweredElsewhere rows agentName candidate e) →
    ∀ r ∈ rows.rows, r.agentName = agentName → r.indexEventId ∈ redactedAliases candidate →
      r.recordJson.completed = true →
      (∀ e ∈ r.recordJson.sourceEventIds, e ∈ redactedAliases candidate) ∧
        (redactedAliases candidate).getLast? = some r.anchorEventId

instance (candidate : TurnRecord) : Decidable (TakesNoAnswer rows agentName candidate) :=
  inferInstanceAs (Decidable (_ → _))

/-- A write keeps the answers of the completed turns it touches if it covers them under their
anchor. -/
theorem upsert_keepsHandled (hg : Grouped rows) {f : TurnRecord} {a : String}
    (ha : a ∈ f.sourceEventIds) (written : TurnRecord)
    (htouch : ∀ r ∈ rows, r.agentName = agentName → r.recordJson.completed = true →
      r.indexEventId ∈ f.indexedEventIds → r.anchorEventId = a ∧
        ∀ e ∈ r.recordJson.sourceEventIds, e ∈ f.sourceEventIds ∧ (f.completed = true ∨ e ∈ f.redactedSourceEventIds)) :
    KeepsHandled rows (upsert rows agentName f.indexedEventIds a f) agentName written := by
  have hids : f.indexedEventIds ≠ [] := List.ne_nil_of_mem (List.mem_append_left _ ha)
  -- a replaced row shares its turn with a row on one of the events
  have hreplaced : ∀ r ∈ rows, r.recordJson.completed = true →
      Replaces rows agentName f.indexedEventIds a r → r.anchorEventId = a ∧
        ∀ e ∈ r.recordJson.sourceEventIds, e ∈ f.sourceEventIds ∧
          (f.completed = true ∨ e ∈ f.redactedSourceEventIds) := by
    rintro r hr hcompleted ⟨hagent, hin | hin | ⟨r', hr', hagent', hindex, hanchor⟩⟩
    · exact htouch r hr hagent hcompleted hin
    · have hsource := (hg r hr).source (hg r hr).anchored
      have hindex : r.anchorEventId ∈ f.indexedEventIds := by
        rw [hin]
        exact List.mem_append_left _ ha
      have htouched := htouch _ hsource hagent hcompleted hindex
      exact htouched
    · have hrecord := hg.eq_of_anchor hr hr' (hagent'.trans hagent.symm) hanchor
      have htouched := htouch r' hr' hagent' (hrecord ▸ hcompleted) hindex
      rw [hrecord, hanchor] at htouched
      exact htouched
  constructor
  · intro r hr hcompleted e he
    have hrow := (hg r hr).source he
    by_cases hin : Replaces rows agentName f.indexedEventIds a ⟨r.agentName, e, r.anchorEventId, r.recordJson⟩
    · obtain ⟨_, hcover⟩ := hreplaced _ hrow hcompleted hin
      obtain ⟨hsource, hdone⟩ := hcover e he
      exact ⟨⟨agentName, e, a, f⟩,
        (mem_upsert hids).mpr (.inl ⟨e, List.mem_append_left _ hsource, rfl⟩), hin.1.symm, rfl, hdone⟩
    · exact ⟨_, (mem_upsert hids).mpr (.inr ⟨hrow, hin⟩), rfl, rfl, .inl hcompleted⟩
  · intro r hr hcompleted _ e he r' hr' hagent hindex
    have hrow := (hg r hr).source he
    rcases (mem_upsert hids).mp hr' with ⟨e', he', rfl⟩ | ⟨hold, _⟩
    · subst hindex
      have hin : Replaces rows agentName f.indexedEventIds a
          ⟨r.agentName, e', r.anchorEventId, r.recordJson⟩ := ⟨hagent.symm, .inl he'⟩
      exact (hreplaced _ hrow hcompleted hin).1.symm
    · rw [Table.eq_of_key_eq hold hrow (Prod.ext hagent hindex)]

/-! ## A cached ledger write -/

section

variable {c p f : TurnRecord} {records : Mapping String TurnRecord}

/-- A completed turn on the events of the resolved one is claimed as it is stored. -/
theorem Claims.stored (hg : Grouped rows) (hclaims : Claims rows agentName c records)
    {r : TurnRecordRow} (hr : r ∈ rows) (hagent : r.agentName = agentName) {e : String}
    (he : e ∈ r.recordJson.sourceEventIds) (hc : e ∈ c.indexedEventIds) :
    ∃ r', records.value? e = some r' ∧ r.recordJson.SameFacts r' :=
  hclaims.complete _ ((hg r hr).source he) hagent hc

/-- The claimed record of a turn is that of every row of the turn. -/
theorem Claims.sameFacts (hg : Grouped rows) (hclaims : Claims rows agentName c records)
    {existing : TurnRecord} (h : StoredTurn records p existing) {r : TurnRecordRow} (hr : r ∈ rows)
    (hagent : r.agentName = agentName) (hsame : SameTurnIdentity r.recordJson p) :
    r.recordJson.SameFacts existing := by
  obtain ⟨e, _, hexisting, hidentity⟩ := h
  obtain ⟨_, row, hrow, hrowAgent, _, hfacts⟩ := hclaims.sound e existing hexisting
  have hsources : row.recordJson.sourceEventIds = r.recordJson.sourceEventIds :=
    hfacts.sources.symm.trans (hidentity.1.trans hsame.1.symm)
  have hanchored := (hg r hr).anchored
  have hrecord := (hg.eq_of_source hr hrow (hrowAgent.trans hagent.symm)
    (List.mem_append_left _ hanchored) (hsources ▸ hanchored)).1
  exact hrecord ▸ hfacts

/-- A completed turn that the write is of stays covered. -/
theorem Writes.covers (hg : Grouped rows) (hclaims : Claims rows agentName c records)
    (hindexed : ∀ e ∈ p.sourceEventIds, e ∈ c.indexedEventIds) (hw : Writes records p f) {a : String}
    (ha : f.anchorEventId = some a) {r : TurnRecordRow} (hr : r ∈ rows)
    (hagent : r.agentName = agentName) (hcompleted : r.recordJson.completed = true)
    (hsame : SameTurnIdentity r.recordJson p) :
    r.anchorEventId = a ∧ ∀ e ∈ r.recordJson.sourceEventIds, e ∈ f.sourceEventIds ∧
      (f.completed = true ∨ e ∈ f.redactedSourceEventIds) := by
  have hfiled := hg r hr
  have hanchor : some r.anchorEventId = some a := by
    rw [← hfiled.anchor, hsame.2, ← hw.anchor, ha]
  have hmem : r.anchorEventId ∈ p.sourceEventIds := hsame.1 ▸ hfiled.anchored
  obtain ⟨stored, hstored, hfacts⟩ :=
    hclaims.stored hg hr hagent hfiled.anchored (hindexed _ hmem)
  have hturn : StoredTurn records p stored :=
    ⟨r.anchorEventId, List.mem_append_left _ hmem, hstored, hfacts.sources.trans hsame.1, hfacts.anchor.trans hsame.2⟩
  obtain ⟨existing, hexisting, _, hdone, _⟩ := hw.joined
  have hexisting : StoredTurn records p existing := by
    rcases hexisting with h | ⟨_, hnone⟩
    · exact h
    · exact absurd hturn (hnone stored)
  have hrow := hclaims.sameFacts hg hexisting hr hagent hsame
  refine ⟨Option.some.inj hanchor, fun e he => ?_⟩
  have hsource : e ∈ f.sourceEventIds := hw.sources.symm ▸ hsame.1 ▸ he
  rcases hdone (hrow.completed.trans hcompleted) with hdone | hdone
  · exact ⟨hsource, .inl hdone⟩
  · exact ⟨hsource, .inr (hdone e hsource)⟩

/-- A completed turn one of whose events is a discovery alias of the written record is its turn. -/
theorem Writes.discovered (hg : Grouped rows) (hclaims : Claims rows agentName c records)
    (hindexed : ∀ e ∈ p.discoveryEventIds, e ∈ c.indexedEventIds) (hw : Writes records p f)
    {r : TurnRecordRow} (hr : r ∈ rows) (hagent : r.agentName = agentName)
    (hcompleted : r.recordJson.completed = true) (hd : r.indexEventId ∈ f.discoveryEventIds) :
    SameTurnIdentity r.recordJson p := by
  obtain ⟨existing, hexisting, hdiscovery, _⟩ := hw.joined
  have hp : r.indexEventId ∈ p.discoveryEventIds → SameTurnIdentity r.recordJson p := by
    intro hmem
    obtain ⟨stored, hstored, hfacts⟩ := hclaims.complete r hr hagent (hindexed _ hmem)
    obtain ⟨hsources, hanchor⟩ := hw.discovery _ hd stored hstored (hfacts.completed.trans hcompleted)
    exact ⟨hfacts.sources.symm.trans hsources, hfacts.anchor.symm.trans hanchor⟩
  rcases hdiscovery _ hd with hmem | hmem
  · exact hp hmem
  · rcases hexisting with ⟨e, _, hvalue, hidentity⟩ | ⟨rfl, _⟩
    · obtain ⟨_, row, hrow, hrowAgent, _, hfacts⟩ := hclaims.sound e existing hvalue
      have hmem : r.indexEventId ∈ row.recordJson.indexedEventIds :=
        List.mem_append_right _ (hfacts.discovery ▸ hmem)
      have hrecord := (hg.eq_of_indexed hrow hr (hagent.trans hrowAgent.symm) hmem).1
      rw [hrecord]
      exact ⟨hfacts.sources.symm.trans hidentity.1, hfacts.anchor.symm.trans hidentity.2⟩
    · exact hp hmem

theorem mem_conflictingSourceEventIds {s : TurnRecord} {e : String} :
    e ∈ s.conflictingSourceEventIds records ↔ e ∈ s.sourceEventIds ∧
      ∃ r, records.value? e = some r ∧ r.completed = true ∧ ¬ SameTurnIdentity r s := by
  unfold TurnRecord.conflictingSourceEventIds
  rw [List.mem_filter]
  apply and_congr_right
  intro _
  cases records.value? e with
  | none => simp
  | some r => simp

/-- The conflicting sources of a candidate are those that are answered elsewhere. -/
theorem Claims.conflicting_iff (hclaims : Claims rows agentName c records) {s : TurnRecord}
    (hs : c.SameFacts s) {e : String} : e ∈ s.conflictingSourceEventIds records ↔
      e ∈ c.sourceEventIds ∧ AnsweredElsewhere rows agentName c e := by
  rw [mem_conflictingSourceEventIds, hs.sources]
  apply and_congr_right
  intro he
  constructor
  · rintro ⟨r, hr, hcompleted, hne⟩
    obtain ⟨_, row, hrow, hagent, hindex, hfacts⟩ := hclaims.sound e r hr
    refine ⟨row, hrow, hagent, hindex, hfacts.completed.symm.trans hcompleted, ?_⟩
    rintro ⟨hsources, hanchor⟩
    exact hne ⟨hfacts.sources.trans (hsources.trans hs.sources.symm),
      hfacts.anchor.trans (hanchor.trans hs.anchor.symm)⟩
  · rintro ⟨row, hrow, hagent, rfl, hcompleted, hne⟩
    obtain ⟨r, hr, hfacts⟩ := hclaims.complete row hrow hagent (List.mem_append_left _ he)
    refine ⟨r, hr, hfacts.completed.trans hcompleted, ?_⟩
    rintro ⟨hsources, hanchor⟩
    exact hne ⟨hfacts.sources.symm.trans (hsources.trans hs.sources),
      hfacts.anchor.symm.trans (hanchor.trans hs.anchor)⟩

/-- How a candidate is detached: it is resolved as it is, over the sources no other completed turn
has, or over its redacted aliases. -/
inductive Detached (rows : Table TurnRecordRow) (agentName : String) (c p : TurnRecord) : Prop where
  | whole (hfacts : c.SameFacts p) (hfree : ∀ e ∈ c.sourceEventIds, ¬ AnsweredElsewhere rows agentName c e)
  | sources (hsub : ∀ e ∈ p.sourceEventIds, e ∈ c.sourceEventIds ∧ ¬ AnsweredElsewhere rows agentName c e)
      (hconflict : ∃ e ∈ c.sourceEventIds, AnsweredElsewhere rows agentName c e)
      (hdiscovery : ∀ d ∈ p.discoveryEventIds, d ∈ c.discoveryEventIds)
  | aliases (hall : ∀ e ∈ c.sourceEventIds, AnsweredElsewhere rows agentName c e)
      (hsources : p.sourceEventIds = redactedAliases c)
      (hanchor : p.anchorEventId = (redactedAliases c).getLast?)
      (hredactions : ∀ e ∈ redactedAliases c, e ∈ p.redactedSourceEventIds)
      (hdiscovery : ∀ d ∈ p.discoveryEventIds, d ∈ c.discoveryEventIds)

theorem Claims.detached (hclaims : Claims rows agentName c records) (hc : c.Canonical)
    (hanchored : c.Anchored) {ts : List String}
    (h : detachConflicts (sanitizeRevisionReplay c none ts) records = some p) :
    Detached rows agentName c p := by
  have hs := sanitizeRevisionReplay_sameFacts hc none ts
  have hcase := detachConflicts_eq_some (sanitizeRevisionReplay_canonical c none ts) h
  generalize sanitizeRevisionReplay c none ts = s at hs hcase
  have hconf : ∀ {e}, e ∈ s.conflictingSourceEventIds records ↔
      e ∈ c.sourceEventIds ∧ AnsweredElsewhere rows agentName c e := hclaims.conflicting_iff hs
  rcases hcase with ⟨hnil, rfl⟩ | ⟨hne, hprojects⟩
  · refine .whole hs fun e he hanswered => ?_
    have hmem := hconf.mpr ⟨he, hanswered⟩
    rw [hnil] at hmem
    exact List.not_mem_nil hmem
  · generalize hconflicting : s.conflictingSourceEventIds records = conflicting at hne hprojects
    rw [hconflicting] at hconf
    have hdiscovery : ∀ d ∈ p.discoveryEventIds, d ∈ c.discoveryEventIds := fun d hd =>
      hs.discovery ▸ hprojects.discovery d hd
    by_cases hretained : s.sourceEventIds.filter (· ∉ conflicting) = []
    · have hall : ∀ e ∈ c.sourceEventIds, e ∈ conflicting := by
        intro e he
        by_contra hout
        exact List.not_mem_nil (hretained ▸ List.mem_filter.mpr
          ⟨hs.sources.symm ▸ he, decide_eq_true hout⟩)
      have haliases : s.retainedSourceEventIds conflicting = redactedAliases c := by
        unfold TurnRecord.retainedSourceEventIds redactedAliases
        dsimp only
        rw [if_pos hretained, hs.redactions]
        apply List.filter_congr
        intro e _
        have hiff : e ∈ conflicting ↔ e ∈ c.sourceEventIds :=
          ⟨fun hmem => (hconf.mp hmem).1, hall e⟩
        simp only [hiff]
      rw [haliases] at hprojects
      refine .aliases (fun e he => (hconf.mp (hall e he)).2) hprojects.sources ?_ ?_ hdiscovery
      · obtain ⟨a, ha, hanchor⟩ := hanchored
        have hout : a ∉ redactedAliases c := fun hmem => by
          simpa [ha] using (List.mem_filter.mp hmem).2
        rw [hprojects.anchor, hs.anchor, hanchor]
        simp [hout]
      · intro e he
        have hred : e ∈ c.redactedSourceEventIds := (List.mem_filter.mp he).1
        exact hprojects.redactions e he (hs.redactions.symm ▸ hred)
    · have hsources : s.retainedSourceEventIds conflicting =
          s.sourceEventIds.filter (· ∉ conflicting) := if_neg hretained
      rw [hsources] at hprojects
      refine .sources ?_ ?_ hdiscovery
      · intro e he
        rw [hprojects.sources, List.mem_filter, decide_eq_true_iff, hs.sources] at he
        exact ⟨he.1, fun hanswered => he.2 (hconf.mpr ⟨he.1, hanswered⟩)⟩
      · obtain ⟨e, he⟩ := List.exists_mem_of_ne_nil _ hne
        exact ⟨e, hconf.mp he⟩

/-- The events of the resolved turn are events of the candidate. -/
theorem Detached.indexed (h : Detached rows agentName c p) (hc : c.Canonical) :
    (∀ e ∈ p.sourceEventIds, e ∈ c.indexedEventIds) ∧ ∀ d ∈ p.discoveryEventIds, d ∈ c.indexedEventIds := by
  cases h with
  | whole hfacts _ =>
    exact ⟨fun e he => List.mem_append_left _ (hfacts.sources ▸ he),
      fun d hd => List.mem_append_right _ (hfacts.discovery ▸ hd)⟩
  | sources hsub _ hdiscovery =>
    exact ⟨fun e he => List.mem_append_left _ (hsub e he).1, fun d hd => List.mem_append_right _ (hdiscovery d hd)⟩
  | aliases _ hsources _ _ hdiscovery =>
    refine ⟨fun e he => ?_, fun d hd => List.mem_append_right _ (hdiscovery d hd)⟩
    rw [hsources] at he
    have hred : e ∈ c.redactedSourceEventIds := (List.mem_filter.mp he).1
    rw [← hc.redactions] at hred
    simpa using (List.mem_filter.mp hred).2

/-- A write that takes no answer keeps what is handled. -/
theorem Writes.keepsHandled (hg : Grouped rows) (hclaims : Claims rows agentName c records)
    (hc : c.Canonical) (hdetached : Detached rows agentName c p) (hw : Writes records p f) {a : String}
    (ha : f.anchorEventId = some a) (hmem : a ∈ f.sourceEventIds) (htakes : TakesNoAnswer rows agentName c) :
    KeepsHandled rows (upsert rows agentName f.indexedEventIds a f) agentName c := by
  obtain ⟨hsub, hdiscovery⟩ := hdetached.indexed hc
  apply upsert_keepsHandled hg hmem
  intro r hr hagent hcompleted hindex
  rcases List.mem_append.mp hindex with hsource | hd
  · rw [hw.sources] at hsource
    cases hdetached with
    | whole hfacts hfree =>
      have hsame : SameTurnIdentity r.recordJson p := by
        by_contra hne
        refine hfree r.indexEventId (hfacts.sources ▸ hsource) ⟨r, hr, hagent, rfl, hcompleted, ?_⟩
        rintro ⟨hsources, hanchor⟩
        exact hne ⟨hsources.trans hfacts.sources.symm, hanchor.trans hfacts.anchor.symm⟩
      exact hw.covers hg hclaims hsub ha hr hagent hcompleted hsame
    | sources hfree hconflict _ =>
      -- a completed turn of this very candidate would leave no source to conflict
      obtain ⟨_, hnot⟩ := hfree _ hsource
      have hsame : SameTurnIdentity r.recordJson c := by
        by_contra hne
        exact hnot ⟨r, hr, hagent, rfl, hcompleted, hne⟩
      obtain ⟨x, hx, row, hrow, hrowAgent, rfl, _, hne⟩ := hconflict
      have hin : row.indexEventId ∈ r.recordJson.indexedEventIds :=
        List.mem_append_left _ (hsame.1 ▸ hx)
      have hrecord := (hg.eq_of_indexed hr hrow (hrowAgent.trans hagent.symm) hin).1
      exact absurd (hrecord ▸ hsame) hne
    | aliases hall hsources hanchor hredactions _ =>
      rw [hsources] at hsource
      obtain ⟨hcover, hlast⟩ := htakes hall r hr hagent hsource hcompleted
      have hra : some r.anchorEventId = some a := by
        rw [← hlast, ← hanchor, ← hw.anchor, ha]
      refine ⟨Option.some.inj hra, fun e he => ?_⟩
      have halias : e ∈ p.sourceEventIds := hsources.symm ▸ hcover e he
      obtain ⟨_, _, _, _, hred, _⟩ := hw.joined
      exact ⟨hw.sources.symm ▸ halias, .inr ((hred e halias).mpr (.inl (hredactions e (hcover e he))))⟩
  · have hsame := hw.discovered hg hclaims hdiscovery hr hagent hcompleted hd
    exact hw.covers hg hclaims hsub ha hr hagent hcompleted hsame

/-- A completed turn that the redacted aliases of a write take does not stay handled, so a write
that keeps what is handled takes none. -/
theorem Writes.takesNoAnswer (hg : Grouped rows) (hclaims : Claims rows agentName c records)
    (hdetached : Detached rows agentName c p) (hw : Writes records p f) {a : String}
    (ha : f.anchorEventId = some a) (hmem : a ∈ f.sourceEventIds)
    (hkeeps : KeepsHandled rows (upsert rows agentName f.indexedEventIds a f) agentName c) :
    TakesNoAnswer rows agentName c := by
  intro hall r hr hagent halias hcompleted
  have hids : f.indexedEventIds ≠ [] := List.ne_nil_of_mem (List.mem_append_left _ hmem)
  cases hdetached with
  | whole hfacts hfree =>
    obtain ⟨x, hx⟩ := List.exists_mem_of_ne_nil _ (List.ne_nil_of_mem hmem)
    rw [hw.sources, hfacts.sources] at hx
    exact absurd (hall x hx) (hfree x hx)
  | sources hsub _ _ =>
    rw [hw.sources] at hmem
    obtain ⟨hin, hnot⟩ := hsub a hmem
    exact absurd (hall a hin) hnot
  | aliases _ hsources hanchor _ hdiscovery =>
    have hsources' : f.sourceEventIds = redactedAliases c := hw.sources.trans hsources
    have hreplaced : ∀ e ∈ r.recordJson.sourceEventIds,
        Replaces rows agentName f.indexedEventIds a ⟨r.agentName, e, r.anchorEventId, r.recordJson⟩ :=
      fun e _ => ⟨hagent, .inr (.inr ⟨r, hr, hagent, List.mem_append_left _ (hsources'.symm ▸ halias), rfl⟩)⟩
    -- what covers a source of the taken turn is the written record
    have hcovered : ∀ e ∈ r.recordJson.sourceEventIds, e ∈ f.indexedEventIds := by
      intro e he
      obtain ⟨r', hr', hagent', hindex, _⟩ := hkeeps.covered r hr hcompleted e he
      rcases (mem_upsert hids).mp hr' with ⟨e', he', rfl⟩ | ⟨hold, hkept⟩
      · exact hindex ▸ he'
      · have hrow := (hg r hr).source he
        have heq := Table.eq_of_key_eq hold hrow (Prod.ext hagent' hindex)
        exact absurd (heq ▸ hreplaced e he) hkept
    have hsub : ∀ e ∈ r.recordJson.sourceEventIds, e ∈ redactedAliases c := by
      intro e he
      rcases List.mem_append.mp (hcovered e he) with hin | hd
      · exact hsources' ▸ hin
      · have hindexed : ∀ d ∈ p.discoveryEventIds, d ∈ c.indexedEventIds :=
          fun d hd => List.mem_append_right _ (hdiscovery d hd)
        have hsame := hw.discovered hg hclaims hindexed ((hg r hr).source he) hagent hcompleted hd
        exact hsources ▸ hsame.1 ▸ he
    have hanchored := (hg r hr).anchored
    have hother : ¬ (r.agentName = agentName ∧ SameTurnIdentity r.recordJson c) := by
      rintro ⟨_, hsame⟩
      have hout := (List.mem_filter.mp (hsub _ hanchored)).2
      rw [decide_eq_true_iff] at hout
      exact hout (hsame.1 ▸ hanchored)
    have hmoved := hkeeps.unmoved r hr hcompleted hother _ hanchored
      ⟨agentName, r.anchorEventId, a, f⟩
      ((mem_upsert hids).mpr (.inl ⟨_, hcovered _ hanchored, rfl⟩)) hagent.symm rfl
    refine ⟨hsub, ?_⟩
    rw [← hanchor, ← hw.anchor, ha]
    exact congrArg some hmoved

theorem keepCommitted_eq_none {current : Option TurnRecord} {m : TurnRecord}
    (h : keepCommitted current m = none) : ∃ r, current = some r ∧ SameTurnIdentity r m := by
  unfold keepCommitted at h
  cases current with
  | none => cases h
  | some r =>
    dsimp only at h
    split at h
    · next hsame => exact ⟨r, rfl, hsame.2.2.1⟩
    · cases h

/-- A rejected candidate has nothing left to be about, or is of a stored turn. -/
theorem writtenRecord_eq_none {outbox : Table OutboxRow} (hrecords : AllCanonical records)
    (h : writtenRecord outbox records c = none) :
    ∃ ts, detachConflicts (sanitizeRevisionReplay c none ts) records = none ∨
      ∃ p r e, detachConflicts (sanitizeRevisionReplay c none ts) records = some p ∧
        records.value? e = some r ∧ SameTurnIdentity r p := by
  refine ⟨tombstonedRevisions c records, ?_⟩
  cases hp : detachConflicts (sanitizeRevisionReplay c none (tombstonedRevisions c records)) records with
  | none => exact .inl rfl
  | some p =>
    right
    have hsanitized := sanitizeRevisionReplay_canonical c none (tombstonedRevisions c records)
    have hpc : p.Canonical := by
      rcases detachConflicts_eq_some hsanitized hp with ⟨_, rfl⟩ | ⟨_, hprojects⟩
      · exact hsanitized
      · exact hprojects.canonical
    have hresolve : resolveTurnRecord c records =
        some (keepDiscovery (joinStoredTurn p records) records) := by
      unfold resolveTurnRecord
      dsimp only
      rw [hp]
      rfl
    obtain ⟨_, _, hjoin⟩ := joinStoredTurn_joins hpc hrecords
    have hjoins := hjoin.keepDiscovery records
    generalize keepDiscovery (joinStoredTurn p records) records = m at hresolve hjoins
    unfold writtenRecord at h
    rw [hresolve] at h
    change (keepCommitted (currentRecord records m) m >>= fun candidate =>
      some (forgetCleaned outbox (currentRecord records m) candidate)) = none at h
    have hnone : keepCommitted (currentRecord records m) m = none := by
      cases hk : keepCommitted (currentRecord records m) m with
      | none => rfl
      | some k =>
        rw [hk] at h
        cases h
    obtain ⟨r, hr, hsources, hanchor⟩ := keepCommitted_eq_none hnone
    obtain ⟨e, _, he⟩ := List.exists_of_findSome?_eq_some hr
    exact ⟨p, r, e, rfl, he, hsources.trans hjoins.sources, hanchor.trans hjoins.anchor⟩

/-- A candidate that would take an answered turn is not rejected. -/
theorem takesNoAnswer_of_rejected (hg : Grouped rows) (hclaims : Claims rows agentName c records)
    (hc : c.Canonical) (hanchored : c.Anchored) {outbox : Table OutboxRow}
    (h : writtenRecord outbox records c = none) : TakesNoAnswer rows agentName c := by
  intro hall r hr hagent halias hcompleted
  obtain ⟨ts, hnone | ⟨p, existing, e, hp, hexisting, hsame⟩⟩ := writtenRecord_eq_none hclaims.canonical h
  · exfalso
    have hs := sanitizeRevisionReplay_sameFacts hc none ts
    obtain ⟨a, ha, _⟩ := hanchored
    have hconf := (hclaims.conflicting_iff hs).mpr ⟨ha, hall a ha⟩
    have hsources : (sanitizeRevisionReplay c none ts).sourceEventIds.filter (fun e => decide
        (e ∉ (sanitizeRevisionReplay c none ts).conflictingSourceEventIds records)) = [] := by
      rw [List.filter_eq_nil_iff, hs.sources]
      intro e he
      simp [(hclaims.conflicting_iff hs).mpr ⟨he, hall e he⟩]
    obtain ⟨hred, hout⟩ := List.mem_filter.mp halias
    have hretained : r.indexEventId ∈ (sanitizeRevisionReplay c none ts).retainedSourceEventIds
        ((sanitizeRevisionReplay c none ts).conflictingSourceEventIds records) := by
      unfold TurnRecord.retainedSourceEventIds
      dsimp only
      rw [if_pos hsources, List.mem_filter, hs.redactions, decide_eq_true_iff]
      refine ⟨hred, fun hmem => ?_⟩
      rw [decide_eq_true_iff] at hout
      exact hout ((hclaims.conflicting_iff hs).mp hmem).1
    unfold detachConflicts at hnone
    dsimp only at hnone
    rw [if_neg (List.ne_nil_of_mem hconf)] at hnone
    unfold TurnRecord.projectRedactionAlias at hnone
    dsimp only at hnone
    rw [if_neg (List.ne_nil_of_mem (hs.redactions.symm ▸ hred)), if_neg (List.ne_nil_of_mem hretained)] at hnone
    cases hnone
  · have hdetached := hclaims.detached hc hanchored hp
    have hpanchored := detached_anchored hc hanchored hp
    cases hdetached with
    | whole hfacts hfree =>
      obtain ⟨a, ha, _⟩ := hanchored
      exact absurd (hall a ha) (hfree a ha)
    | sources hsub _ _ =>
      obtain ⟨a, ha, _⟩ := hpanchored
      obtain ⟨hin, hnot⟩ := hsub a ha
      exact absurd (hall a hin) hnot
    | aliases _ hsources hanchor _ _ =>
      obtain ⟨_, row, hrow, hrowAgent, _, hfacts⟩ := hclaims.sound e existing hexisting
      have hrowSources : row.recordJson.sourceEventIds = redactedAliases c :=
        hfacts.sources.symm.trans (hsame.1.trans hsources)
      have hin : r.indexEventId ∈ row.recordJson.indexedEventIds :=
        List.mem_append_left _ (hrowSources.symm ▸ halias)
      obtain ⟨hrecord, hra⟩ := hg.eq_of_indexed hrow hr (hagent.trans hrowAgent.symm) hin
      refine ⟨fun e he => hrowSources ▸ hrecord ▸ he, ?_⟩
      rw [← hanchor, ← hsame.2, hfacts.anchor, hra]
      exact (hg row hrow).anchor

end

/-! ## A delivered answer -/

/-- A delivered answer writes the turn it finds or a new one, so it keeps what is handled. -/
theorem committed_keepsHandled (hg : Grouped rows) {c f : TurnRecord} {records : Mapping String TurnRecord}
    (hclaims : Claims rows agentName c records) (hc : c.Canonical)
    (h : committedRecord records c = .ok (some f)) {a : String} (ha : f.anchorEventId = some a)
    (hmem : a ∈ f.sourceEventIds) : KeepsHandled rows (upsert rows agentName f.indexedEventIds a f) agentName c := by
  obtain ⟨howners, hcase⟩ := committedRecord_eq_ok hclaims.canonical hc h
  apply upsert_keepsHandled hg hmem
  intro r hr hagent hcompleted hindex
  rcases hcase with ⟨hnone, _, hsame, _⟩ | ⟨current, hcurrent, hsame, _, hdone, _⟩
  · exfalso
    rw [hsame.indexed] at hindex
    obtain ⟨owner, howner, hfacts⟩ := hclaims.complete r hr hagent hindex
    have hsources : r.recordJson.sourceEventIds = c.sourceEventIds :=
      hfacts.sources.symm.trans (howners _ hindex owner howner)
    have hanchored := (hg r hr).anchored
    obtain ⟨stored, hstored, _⟩ := hclaims.stored hg hr hagent hanchored
      (List.mem_append_left _ (hsources ▸ hanchored))
    have hmiss := List.findSome?_eq_none_iff.mp hnone _ (hsources ▸ hanchored)
    rw [hstored] at hmiss
    cases hmiss
  · obtain ⟨e, _, he⟩ := List.exists_of_findSome?_eq_some hcurrent
    obtain ⟨_, row, hrow, hrowAgent, _, hfacts⟩ := hclaims.sound e current he
    have hin : r.indexEventId ∈ row.recordJson.indexedEventIds := by
      rw [← hfacts.indexed, ← hsame.indexed]
      exact hindex
    obtain ⟨hrecord, hra⟩ := hg.eq_of_indexed hrow hr (hagent.trans hrowAgent.symm) hin
    have hrowAnchor : some row.anchorEventId = some a := by
      rw [← (hg row hrow).anchor, ← hfacts.anchor, ← hsame.anchor, ha]
    refine ⟨hra.trans (Option.some.inj hrowAnchor), fun e he => ⟨?_, .inl ?_⟩⟩
    · rw [hsame.sources, hfacts.sources, ← hrecord]
      exact he
    · exact hdone (hfacts.completed.trans (hrecord ▸ hcompleted))

/-! ## Every write -/

def TurnWrite.Keeps (w : TurnWrite) (rows rows' : Table TurnRecordRow) : Prop :=
  ∀ c ∈ w.candidate, KeepsHandled rows rows' w.agentName c

/-- The condition under which a write keeps what is handled. -/
def TurnWrite.TakesNoAnswer (w : TurnWrite) (rows : Table TurnRecordRow) : Prop :=
  match w with
  | cached _ agentName _ _ _ => ∀ c ∈ w.candidate, TurnRecords.TakesNoAnswer rows agentName c
  | terminal _ => True

theorem KeepsHandled.refl (hg : Grouped rows) (written : TurnRecord) : KeepsHandled rows rows agentName written where
  covered r hr hcompleted e he := ⟨_, (hg r hr).source he, rfl, rfl, .inl hcompleted⟩
  unmoved r hr _ _ e he r' hr' hagent hindex := by
    rw [Table.eq_of_key_eq hr' ((hg r hr).source he) (Prod.ext hagent hindex)]

/-- **A handled event stays handled.** Whatever anchored writes led to the turn records, a further
one keeps every source event of a completed turn completed or redacted, and no other completed
turn is moved under a different anchor, exactly if it takes no answered turn with its redacted
aliases. -/
theorem turns_stay_handled (h : Reachable rows) {w : TurnWrite} (hw : w.recordJson.Anchored)
    (hrun : w.run rows = .ok rows') : w.Keeps rows rows' ↔ w.TakesNoAnswer rows := by
  have hg := h.grouped
  cases w with
  | cached outbox agentName ids anchor recordJson =>
    obtain ⟨⟨result, rows₁⟩, hwrite, hrows⟩ := Transaction.except_bind_eq_ok.mp hrun
    obtain rfl := Except.ok.inj hrows
    obtain ⟨c, records, hc, hclaim, rfl, hcase⟩ := writeRecord_eq_ok hwrite
    have hclaims := claimTurnRecords_claims hg.stored hclaim
    obtain ⟨hcanonical, hanchored⟩ := TurnWrite.candidate_anchored hw hc
    have hiff : KeepsHandled rows rows₁ agentName c ↔ TurnRecords.TakesNoAnswer rows agentName c := by
      rcases hcase with ⟨hnone, rfl⟩ | ⟨f, a, hf, ha, rfl⟩
      · exact iff_of_true (KeepsHandled.refl hg c)
          (takesNoAnswer_of_rejected hg hclaims hcanonical hanchored hnone)
      · obtain ⟨ts, p, hp, hwrites⟩ := writtenRecord_writes hclaims.canonical hf
        obtain ⟨a', ha', hanchor⟩ := detached_anchored hcanonical hanchored hp
        obtain rfl := Option.some.inj (ha.symm.trans (hwrites.anchor.trans hanchor))
        have hdetached := hclaims.detached hcanonical hanchored hp
        have hmem : a ∈ f.sourceEventIds := hwrites.sources.symm ▸ ha'
        exact ⟨hwrites.takesNoAnswer hg hclaims hdetached ha hmem,
          hwrites.keepsHandled hg hclaims hcanonical hdetached ha hmem⟩
    constructor
    · intro hkeeps c' hc'
      obtain rfl := Option.mem_unique hc hc'
      exact hiff.mp (hkeeps c hc)
    · intro htakes c' hc'
      obtain rfl := Option.mem_unique hc hc'
      exact hiff.mpr (htakes c hc)
  | terminal prepared =>
    obtain ⟨⟨result, rows₁⟩, hwrite, hrows⟩ := Transaction.except_bind_eq_ok.mp hrun
    obtain rfl := Except.ok.inj hrows
    refine iff_of_true ?_ trivial
    intro c hc
    obtain ⟨c', records, hc', hclaim, rfl | ⟨f, a, hf, ha, rfl⟩⟩ := commitTerminal_eq_ok hwrite
    · exact KeepsHandled.refl hg c
    · obtain rfl := Option.mem_unique hc hc'
      obtain ⟨hcanonical, hanchored⟩ := TurnWrite.candidate_anchored hw hc
      have hclaims := claimTurnRecords_claims hg.stored hclaim
      obtain ⟨_, a', ha', hanchor⟩ := hclaims.committed_anchored hg hcanonical hanchored hf
      obtain rfl := Option.mem_unique ha hanchor
      exact committed_keepsHandled hg hclaims hcanonical hf ha ha'

namespace TakenAnswer

def write (record : TurnRecord) : TurnWrite :=
  .cached ∅ "agent" record.sourceEventIds (record.anchorEventId.getD "") record

def first : TurnWrite := write
  { sourceEventIds := ["d", "x"], anchorEventId := some "x", responseEventId := some "answer" }

def second : TurnWrite := write
  { sourceEventIds := ["e", "y"], anchorEventId := some "y", responseEventId := some "answer'" }

/-- Its one source is the second turn's, and its redacted alias the first turn's. -/
def third : TurnWrite := write
  { sourceEventIds := ["e"], discoveryEventIds := ["d"], redactedSourceEventIds := ["d"]
    anchorEventId := some "e", completed := false }

def rows₁ : Table TurnRecordRow := (first.run ∅).toOption.getD ∅
def rows₂ : Table TurnRecordRow := (second.run rows₁).toOption.getD ∅
def rows₃ : Table TurnRecordRow := (third.run rows₂).toOption.getD ∅

theorem run_eq_ok {w : TurnWrite} {rows : Table TurnRecordRow}
    (h : (w.run rows).toOption.isSome = true) : w.run rows = .ok ((w.run rows).toOption.getD ∅) := by
  cases hrun : w.run rows with
  | error e =>
    rw [hrun] at h
    cases h
  | ok rows' => rfl

theorem run_first : first.run ∅ = .ok rows₁ := run_eq_ok (by decide +kernel)
theorem run_second : second.run rows₁ = .ok rows₂ := run_eq_ok (by decide +kernel)
theorem run_third : third.run rows₂ = .ok rows₃ := run_eq_ok (by decide +kernel)

theorem reachable₁ : Reachable rows₁ := .step first .init ⟨"x", by decide, rfl⟩ run_first
theorem reachable₂ : Reachable rows₂ := .step second reachable₁ ⟨"y", by decide, rfl⟩ run_second

theorem second_stays_handled : second.Keeps rows₁ rows₂ := by
  refine (turns_stay_handled reachable₁ ⟨"y", by decide, rfl⟩ run_second).mpr ?_
  intro c hc
  have hcandidate : second.candidate.all (fun c => decide (TakesNoAnswer rows₁ "agent" c)) = true := by
    decide +kernel
  rw [Option.mem_def.mp hc] at hcandidate
  exact of_decide_eq_true hcandidate

/-- The third write takes the first turn: its other source loses the row that says it is answered. -/
theorem not_turns_stay_handled : ¬ ∀ (rows rows' : Table TurnRecordRow) (w : TurnWrite),
    Reachable rows → w.recordJson.Anchored → w.run rows = .ok rows' → w.Keeps rows rows' := by
  intro h
  have hkeeps := h rows₂ rows₃ third reachable₂ ⟨"e", by decide, rfl⟩ run_third
  have hsome : third.candidate.isSome = true := by decide +kernel
  obtain ⟨c, hc⟩ := Option.isSome_iff_exists.mp hsome
  have hx : ∃ r ∈ rows₂.rows, r.recordJson.completed = true ∧ "x" ∈ r.recordJson.sourceEventIds := by
    decide +kernel
  obtain ⟨r, hr, hcompleted, hmem⟩ := hx
  obtain ⟨r', hr', _, hindex, _⟩ := (hkeeps c hc).covered r hr hcompleted "x" hmem
  have hgone : ∀ r' ∈ rows₃.rows, r'.indexEventId ≠ "x" := by decide +kernel
  exact hgone r' hr' hindex

end TakenAnswer

end MindRoom.TurnRecords
