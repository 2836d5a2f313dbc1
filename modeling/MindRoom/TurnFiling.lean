import MindRoom.Handling
import MindRoom.TurnCoherence

/-! # What a ledger write is filed under

A candidate is resolved against the stored turns of its agent: sources that another completed turn
has are taken off it, what is stored of its own turn is joined to it. The events of the result are
those of the candidate that are not answered elsewhere, and those of its own turn. So a write meets
another stored turn only where that one is unfinished and shares an event with the candidate, or
where the two are filed under one anchor.
-/

namespace MindRoom

namespace TurnRecord

/-! ## Joining keeps the discovery aliases -/

theorem Canonical.mem_canonical {r : TurnRecord} (h : r.Canonical) {d : String} (hd : d ∈ r.discoveryEventIds) :
    d ≠ "" ∧ d ∉ r.sourceEventIds := by
  rw [← h.discovery, List.mem_filter, mem_canonicalSourceEventIds, decide_eq_true_iff] at hd
  exact ⟨hd.1.2, hd.2⟩

theorem Canonical.redacted_indexed {r : TurnRecord} (h : r.Canonical) {e : String}
    (he : e ∈ r.redactedSourceEventIds) : e ∈ r.indexedEventIds := by
  rw [← h.redactions, List.mem_filter, decide_eq_true_iff] at he
  exact he.2

end TurnRecord

theorem keepOlder_discovery {newer older : TurnRecord} {d : String} (hne : d ≠ "")
    (hsource : d ∉ newer.sourceEventIds) (hd : d ∈ newer.discoveryEventIds ∨ d ∈ older.discoveryEventIds) :
    d ∈ (keepOlder newer older).discoveryEventIds := by
  change d ∈ List.filter _ (canonicalSourceEventIds (_ ++ _))
  rw [List.mem_filter, mem_canonicalSourceEventIds, List.mem_append, decide_eq_true_iff, mem_canonicalSourceEventIds]
  exact ⟨⟨hd, hne⟩, fun h => hsource h.1⟩

theorem mergeSameIdentityRecords_discovery {candidate existing : TurnRecord} {d : String} (hc : candidate.Canonical)
    (he : existing.Canonical) (hsame : SameTurnIdentity existing candidate)
    (hd : d ∈ candidate.discoveryEventIds ∨ d ∈ existing.discoveryEventIds) :
    d ∈ (mergeSameIdentityRecords candidate existing).discoveryEventIds := by
  have hcanonical : d ≠ "" ∧ d ∉ candidate.sourceEventIds := by
    rcases hd with hd | hd
    · exact hc.mem_canonical hd
    · rw [← hsame.1]
      exact he.mem_canonical hd
  have hc' := sanitizeRevisionReplay_sameFacts hc (some existing) []
  unfold mergeSameIdentityRecords
  dsimp only
  generalize sanitizeRevisionReplay candidate (some existing) [] = x at hc' ⊢
  have he' := sanitizeRevisionReplay_sameFacts he (some x) []
  generalize sanitizeRevisionReplay existing (some x) [] = y at he' ⊢
  have hx : d ∉ x.sourceEventIds := hc'.sources ▸ hcanonical.2
  have hy : d ∉ y.sourceEventIds := by
    rw [he'.sources, hsame.1]
    exact hcanonical.2
  rw [← hc'.discovery, ← he'.discovery] at hd
  -- whichever record is the newer one, it takes the aliases of both
  split
  · split
    · exact keepOlder_discovery hcanonical.1 hx hd
    · exact keepOlder_discovery hcanonical.1 hy hd.symm
  · split
    · exact keepOlder_discovery hcanonical.1 hx hd
    · exact keepOlder_discovery hcanonical.1 hy hd.symm

variable {records : Mapping String TurnRecord}

/-- Joining a candidate with its stored turn loses no alias of either. -/
theorem joinStoredTurn_discovery {p : TurnRecord} (hp : p.Canonical) (hrecords : TurnRecords.AllCanonical records) :
    (∀ d ∈ p.discoveryEventIds, d ∈ (joinStoredTurn p records).discoveryEventIds) ∧
      ((∃ r, StoredTurn records p r) → ∃ existing, StoredTurn records p existing ∧
        ∀ d ∈ existing.discoveryEventIds, d ∈ (joinStoredTurn p records).discoveryEventIds) := by
  unfold joinStoredTurn
  dsimp only
  generalize hbest : TurnRecord.highestPrecedence _ = best
  cases best with
  | none =>
    refine ⟨fun d hd => hd, ?_⟩
    rintro ⟨r, e, he, hr, hsame⟩
    have hnil := List.filterMap_eq_nil_iff.mp (highestPrecedence_eq_none hbest) e he
    rw [hr] at hnil
    simp [Option.filter, hsame] at hnil
  | some existing =>
    rcases List.mem_filterMap.mp (highestPrecedence_mem hbest) with ⟨e, he, hfilter⟩
    rcases Option.mem_filter_iff.mp hfilter with ⟨hr, hsame⟩
    have hsame : SameTurnIdentity existing p := of_decide_eq_true hsame
    have hmerge : ∀ d, d ∈ p.discoveryEventIds ∨ d ∈ existing.discoveryEventIds →
        d ∈ (mergeSameIdentityRecords p existing).discoveryEventIds :=
      fun d => mergeSameIdentityRecords_discovery hp (hrecords e existing hr) hsame
    exact ⟨fun d hd => hmerge d (.inl hd), fun _ => ⟨existing, ⟨e, he, hr, hsame⟩, fun d hd => hmerge d (.inr hd)⟩⟩

/-- An alias stays unless another completed turn has it. -/
theorem mem_keepDiscovery {m : TurnRecord} (hm : m.Canonical) {d : String} (hd : d ∈ m.discoveryEventIds)
    (hfree : ∀ r, records.value? d = some r → r.completed = true → SameTurnIdentity r m) :
    d ∈ (keepDiscovery m records).discoveryEventIds := by
  have hcanonical := hm.mem_canonical hd
  change d ∈ List.filter _ (canonicalSourceEventIds (List.filter _ m.discoveryEventIds))
  rw [List.mem_filter, mem_canonicalSourceEventIds, List.mem_filter, decide_eq_true_iff, mem_canonicalSourceEventIds]
  refine ⟨⟨⟨hd, ?_⟩, hcanonical.1⟩, fun h => hcanonical.2 h.1⟩
  rw [Option.all_eq_true]
  intro r hr
  cases hcompleted : r.completed with
  | false => rfl
  | true =>
    have hsame := hfree r hr hcompleted
    simp [hsame]

/-- A candidate of which nothing is stored is not changed by joining. -/
theorem joinStoredTurn_of_none {p : TurnRecord} (h : ∀ r, ¬ StoredTurn records p r) : joinStoredTurn p records = p := by
  unfold joinStoredTurn
  dsimp only
  generalize hbest : TurnRecord.highestPrecedence _ = best
  cases best with
  | none => rfl
  | some existing =>
    rcases List.mem_filterMap.mp (highestPrecedence_mem hbest) with ⟨e, he, hfilter⟩
    rcases Option.mem_filter_iff.mp hfilter with ⟨hr, hsame⟩
    exact absurd ⟨e, he, hr, of_decide_eq_true hsame⟩ (h existing)

theorem redacted_keepDiscovery {m : TurnRecord} {e : String}
    (he : e ∈ (keepDiscovery m records).redactedSourceEventIds) : e ∈ m.redactedSourceEventIds := by
  have hmem : e ∈ canonicalSourceEventIds m.redactedSourceEventIds := (List.mem_filter.mp he).1
  exact (mem_canonicalSourceEventIds.mp hmem).1

/-- What is projected keeps the other aliases, and is redacted where the record was. -/
theorem projectRedactionAlias_indexes {s p : TurnRecord} {conflicting : List String} (hs : s.Canonical)
    (h : s.projectRedactionAlias conflicting = some p) : (∀ d ∈ s.discoveryEventIds, d ∈ p.indexedEventIds) ∧
      ∀ e ∈ p.redactedSourceEventIds, e ∈ s.redactedSourceEventIds := by
  have hretained := canonicalSourceEventIds_retained hs conflicting
  unfold TurnRecord.projectRedactionAlias at h
  dsimp only at h
  generalize s.retainedSourceEventIds conflicting = retained at h hretained
  split at h
  · cases h
  · split at h
    · cases h
    · rw [Option.some.injEq] at h
      subst h
      constructor
      · intro d hd
        by_cases hin : d ∈ retained
        · apply List.mem_append_left
          change d ∈ canonicalSourceEventIds retained
          rw [hretained]
          exact hin
        · apply List.mem_append_right
          change d ∈ List.filter _ (canonicalSourceEventIds s.discoveryEventIds)
          rw [List.mem_filter, mem_canonicalSourceEventIds, decide_eq_true_iff]
          refine ⟨⟨hd, (hs.mem_canonical hd).1⟩, ?_⟩
          change d ∉ canonicalSourceEventIds retained
          rw [hretained]
          exact hin
      · intro e he
        have hmem : e ∈ canonicalSourceEventIds s.redactedSourceEventIds := (List.mem_filter.mp he).1
        exact (mem_canonicalSourceEventIds.mp hmem).1

namespace TurnRecords

variable {rows : Table TurnRecordRow} {agentName : String} {records : Mapping String TurnRecord}
  {c p m f s s' : TurnRecord} {e d : String}

/-! ## Stored turns -/

def Owner (rows : Table TurnRecordRow) (agentName e : String) (s : TurnRecord) : Prop :=
  ∃ r ∈ rows, r.agentName = agentName ∧ r.indexEventId = e ∧ r.recordJson = s

theorem Owner.unique (h : Owner rows agentName e s) (h' : Owner rows agentName e s') : s = s' := by
  rcases h with ⟨r, hr, hagent, hindex, rfl⟩
  rcases h' with ⟨r', hr', hagent', hindex', rfl⟩
  rw [Table.eq_of_key_eq hr hr' (Prod.ext (hagent.trans hagent'.symm) (hindex.trans hindex'.symm))]

theorem AllStored.owner (hrows : AllStored rows) {r : TurnRecordRow} (hr : r ∈ rows) (hagent : r.agentName = agentName)
    (he : e ∈ r.recordJson.indexedEventIds) : Owner rows agentName e r.recordJson :=
  ⟨_, (hrows r hr).group e he, hagent, rfl, rfl⟩

theorem Owner.group (hrows : AllStored rows) (h : Owner rows agentName e s) (hd : d ∈ s.indexedEventIds) :
    Owner rows agentName d s := by
  rcases h with ⟨r, hr, hagent, -, rfl⟩
  exact hrows.owner hr hagent hd

theorem answeredElsewhere_iff : AnsweredElsewhere rows agentName c e ↔
    ∃ s, Owner rows agentName e s ∧ s.completed = true ∧ ¬ SameTurnIdentity s c := by
  constructor
  · rintro ⟨r, hr, hagent, hindex, hcompleted, hne⟩
    exact ⟨r.recordJson, ⟨r, hr, hagent, hindex, rfl⟩, hcompleted, hne⟩
  · rintro ⟨s, ⟨r, hr, hagent, hindex, rfl⟩, hcompleted, hne⟩
    exact ⟨r, hr, hagent, hindex, hcompleted, hne⟩

theorem AnsweredElsewhere.congr (h : AnsweredElsewhere rows agentName c e) (hsame : SameTurnIdentity f c) :
    AnsweredElsewhere rows agentName f e := by
  rw [answeredElsewhere_iff] at h ⊢
  rcases h with ⟨s, howner, hcompleted, hne⟩
  refine ⟨s, howner, hcompleted, fun hsf => hne ⟨hsf.1.trans hsame.1, hsf.2.trans hsame.2⟩⟩

/-- Some source of the candidate is answered elsewhere. -/
def Contested (rows : Table TurnRecordRow) (agentName : String) (c : TurnRecord) : Prop :=
  ∃ e ∈ c.sourceEventIds, AnsweredElsewhere rows agentName c e

instance (rows : Table TurnRecordRow) (agentName : String) (c : TurnRecord) :
    Decidable (Contested rows agentName c) :=
  inferInstanceAs (Decidable (∃ e ∈ c.sourceEventIds, _))

/-- A stored turn has all its sources. -/
theorem Owner.not_contested (hrows : AllStored rows) (h : Owner rows agentName e s) (hsame : SameTurnIdentity s c) :
    ¬ Contested rows agentName c := by
  rintro ⟨x, hx, hanswered⟩
  rcases answeredElsewhere_iff.mp hanswered with ⟨s', howner, -, hne⟩
  have hsource : x ∈ s.indexedEventIds := List.mem_append_left _ (hsame.1 ▸ hx)
  rw [(h.group hrows hsource).unique howner] at hsame
  exact hne hsame

/-! ## Resolving a candidate -/

/-- How the result of resolving a candidate lies over the stored turns. -/
structure Resolved (rows : Table TurnRecordRow) (agentName : String) (c f : TurnRecord) : Prop where
  canonical : f.Canonical
  sourced : f.sourceEventIds ≠ []
  sources : ∀ e ∈ f.sourceEventIds, e ∈ c.indexedEventIds
  discovery : ∀ d ∈ f.discoveryEventIds, d ∈ c.indexedEventIds ∨
    ∃ s, Owner rows agentName d s ∧ SameTurnIdentity s f
  free : ∀ d ∈ f.discoveryEventIds, ¬ AnsweredElsewhere rows agentName f d
  keeps : ∀ e ∈ c.indexedEventIds, (∀ s, Owner rows agentName e s → s.completed = false) → e ∈ f.indexedEventIds
  own : ∀ e s, Owner rows agentName e s → SameTurnIdentity s f → ∀ d ∈ s.indexedEventIds, d ∈ f.indexedEventIds
  whole : ¬ Contested rows agentName c → SameTurnIdentity f c
  anchored : Contested rows agentName c → f.Anchored
  /-- Sources that are answered elsewhere come from the redacted aliases alone. -/
  aliases : ∀ e ∈ f.sourceEventIds, AnsweredElsewhere rows agentName f e →
    (∀ x ∈ c.sourceEventIds, AnsweredElsewhere rows agentName c x) ∧ f.sourceEventIds = redactedAliases c ∧
      redactedAliases f = []

/-- How a candidate lies over the stored turns once other turns' sources are taken off it. -/
structure Detaches (rows : Table TurnRecordRow) (agentName : String) (c p : TurnRecord) : Prop where
  canonical : p.Canonical
  sourced : p.sourceEventIds ≠ []
  sources : ∀ e ∈ p.sourceEventIds, e ∈ c.indexedEventIds
  discovery : ∀ d ∈ p.discoveryEventIds, d ∈ c.discoveryEventIds
  keeps : ∀ e ∈ c.indexedEventIds, ¬ AnsweredElsewhere rows agentName c e → e ∈ p.indexedEventIds
  whole : ¬ Contested rows agentName c → SameTurnIdentity p c
  anchored : Contested rows agentName c → p.Anchored
  free : (∀ e ∈ p.sourceEventIds, ¬ AnsweredElsewhere rows agentName c e) ∨
    ((∀ x ∈ c.sourceEventIds, AnsweredElsewhere rows agentName c x) ∧ p.sourceEventIds = redactedAliases c ∧
      ∀ e ∈ p.redactedSourceEventIds, e ∈ p.sourceEventIds)

theorem Claims.detaches (hclaims : Claims rows agentName c records) (hc : c.Canonical)
    (hsourced : c.sourceEventIds ≠ []) {ts : List String}
    (h : detachConflicts (sanitizeRevisionReplay c none ts) records = some p) : Detaches rows agentName c p := by
  have hs := sanitizeRevisionReplay_sameFacts hc none ts
  have hsc := sanitizeRevisionReplay_canonical c none ts
  generalize sanitizeRevisionReplay c none ts = s at h hs hsc
  have hconf : ∀ {e}, e ∈ s.conflictingSourceEventIds records ↔
      e ∈ c.sourceEventIds ∧ AnsweredElsewhere rows agentName c e := hclaims.conflicting_iff hs
  unfold detachConflicts at h
  dsimp only at h
  split at h
  · next hnil =>
    -- no source is answered elsewhere
    rw [Option.some.injEq] at h
    subst h
    have hfree : ∀ e ∈ s.sourceEventIds, ¬ AnsweredElsewhere rows agentName c e := by
      intro e he hanswered
      have hmem := hconf.mpr ⟨hs.sources ▸ he, hanswered⟩
      rw [hnil] at hmem
      exact List.not_mem_nil hmem
    refine ⟨hsc, hs.sources ▸ hsourced, ?_, ?_, ?_, fun _ => hs.toSameIndexes.identity, ?_, .inl hfree⟩
    · intro e he
      exact List.mem_append_left _ (hs.sources ▸ he)
    · intro d hd
      exact hs.discovery ▸ hd
    · intro e he _
      rw [hs.toSameIndexes.indexed]
      exact he
    · rintro ⟨e, he, hanswered⟩
      exact absurd hanswered (hfree e (hs.sources.symm ▸ he))
  · next hne =>
    have hprojects := projectRedactionAlias_projects hsc h
    rcases projectRedactionAlias_indexes hsc h with ⟨hkeeps, hredacted⟩
    generalize s.conflictingSourceEventIds records = conflicting at hne hprojects hconf
    have hcontested : Contested rows agentName c := by
      rcases List.exists_mem_of_ne_nil _ hne with ⟨e, he⟩
      exact ⟨e, hconf.mp he⟩
    have hdiscovery : ∀ d ∈ p.discoveryEventIds, d ∈ c.discoveryEventIds := fun d hd =>
      hs.discovery ▸ hprojects.discovery d hd
    have hsources := hprojects.sources
    unfold TurnRecord.retainedSourceEventIds at hsources
    dsimp only at hsources
    have hdisc : ∀ d ∈ c.discoveryEventIds, d ∈ p.indexedEventIds := fun d hd =>
      hkeeps d (hs.discovery.symm ▸ hd)
    refine ⟨hprojects.canonical, hprojects.sources ▸ hprojects.nonempty, ?_, hdiscovery, ?_,
      fun hnot => absurd hcontested hnot, fun _ => hprojects.anchored, ?_⟩
    · intro e he
      rw [hsources] at he
      split at he
      · have hred := (List.mem_filter.mp he).1
        exact hs.toSameIndexes.indexed ▸ hsc.redacted_indexed hred
      · exact List.mem_append_left _ (hs.sources ▸ (List.mem_filter.mp he).1)
    · intro e he hfree
      rcases List.mem_append.mp he with hsource | hd
      · apply List.mem_append_left
        have hkept : e ∈ s.sourceEventIds.filter (· ∉ conflicting) := by
          rw [List.mem_filter, decide_eq_true_iff, hs.sources]
          exact ⟨hsource, fun hmem => hfree (hconf.mp hmem).2⟩
        rw [hsources, if_neg (List.ne_nil_of_mem hkept)]
        exact hkept
      · exact hdisc e hd
    · by_cases hretained : s.sourceEventIds.filter (· ∉ conflicting) = []
      · -- nothing but the redacted aliases is left
        rw [if_pos hretained] at hsources
        have hall : ∀ x ∈ c.sourceEventIds, x ∈ conflicting := by
          intro x hx
          by_contra hout
          exact List.not_mem_nil (hretained ▸ List.mem_filter.mpr ⟨hs.sources.symm ▸ hx, decide_eq_true hout⟩)
        have haliases : p.sourceEventIds = redactedAliases c := by
          unfold redactedAliases
          rw [hsources, hs.redactions]
          apply List.filter_congr
          intro x _
          have hiff : x ∈ conflicting ↔ x ∈ c.sourceEventIds := ⟨fun hmem => (hconf.mp hmem).1, hall x⟩
          simp only [hiff]
        refine .inr ⟨fun x hx => (hconf.mp (hall x hx)).2, haliases, ?_⟩
        intro e he
        rcases List.mem_append.mp (hprojects.canonical.redacted_indexed he) with hsource | hd
        · exact hsource
        · rw [haliases]
          unfold redactedAliases
          rw [List.mem_filter, decide_eq_true_iff]
          exact ⟨hs.redactions ▸ hredacted e he, (hc.mem_canonical (hdiscovery e hd)).2⟩
      · rw [if_neg hretained] at hsources
        refine .inl fun e he hanswered => ?_
        rw [hsources, List.mem_filter, decide_eq_true_iff, hs.sources] at he
        exact he.2 (hconf.mpr ⟨he.1, hanswered⟩)

theorem Claims.owner (hclaims : Claims rows agentName c records) (hvalue : records.value? e = some m) :
    ∃ s, Owner rows agentName e s ∧ s.SameFacts m := by
  rcases hclaims.sound e m hvalue with ⟨-, row, hrow, hagent, hindex, hfacts⟩
  exact ⟨row.recordJson, ⟨row, hrow, hagent, hindex, rfl⟩, hfacts⟩

theorem Claims.of_owner (hclaims : Claims rows agentName c records) (he : e ∈ c.indexedEventIds)
    (h : Owner rows agentName e s) : ∃ r, records.value? e = some r ∧ s.SameFacts r := by
  rcases h with ⟨row, hrow, hagent, rfl, rfl⟩
  exact hclaims.complete row hrow hagent he

/-- A stored record of a turn is that of its sources. -/
theorem Claims.storedTurn (hrows : AllStored rows) (hclaims : Claims rows agentName c records)
    (h : StoredTurn records p m) : ∃ s, s.SameFacts m ∧ ∀ e ∈ m.indexedEventIds, Owner rows agentName e s := by
  rcases h with ⟨e, -, hvalue, -⟩
  rcases hclaims.owner hvalue with ⟨s, howner, hfacts⟩
  exact ⟨s, hfacts, fun d hd => howner.group hrows (hfacts.toSameIndexes.indexed ▸ hd)⟩

/-- What a candidate is resolved to. -/
theorem Claims.resolved (hrows : AllStored rows) (hclaims : Claims rows agentName c records) (hc : c.Canonical)
    (hsourced : c.sourceEventIds ≠ []) (h : resolveTurnRecord c records = some f) : Resolved rows agentName c f := by
  unfold resolveTurnRecord at h
  dsimp only at h
  rcases Option.map_eq_some_iff.mp h with ⟨p, hp, rfl⟩
  have hdetached := hclaims.detaches hc hsourced hp
  have hpc := hdetached.canonical
  rcases joinStoredTurn_joins hpc hclaims.canonical with ⟨existing, hexisting, hjoin⟩
  rcases joinStoredTurn_discovery hpc hclaims.canonical with ⟨hkept, hstored⟩
  have hnone : (∀ r, ¬ StoredTurn records p r) → joinStoredTurn p records = p := joinStoredTurn_of_none
  generalize joinStoredTurn p records = m at hjoin hkept hstored hnone
  have hjoins := hjoin.keepDiscovery records
  have hsame : SameTurnIdentity (keepDiscovery m records) p := ⟨hjoins.sources, hjoins.anchor⟩
  have hmf : SameTurnIdentity m (keepDiscovery m records) :=
    ⟨hjoin.sources.trans hjoins.sources.symm, hjoin.anchor.trans hjoins.anchor.symm⟩
  have hdisc : ∀ {d}, d ∈ m.discoveryEventIds →
      (∀ s, Owner rows agentName d s → s.completed = true → SameTurnIdentity s (keepDiscovery m records)) →
      d ∈ (keepDiscovery m records).indexedEventIds := by
    intro d hd hfree
    refine List.mem_append_right _ (mem_keepDiscovery hjoin.canonical hd fun r hr hcompleted => ?_)
    rcases hclaims.owner hr with ⟨s, howner, hfacts⟩
    have hs := hfree s howner (hfacts.completed.symm.trans hcompleted)
    exact ⟨hfacts.sources.trans (hs.1.trans hmf.1.symm), hfacts.anchor.trans (hs.2.trans hmf.2.symm)⟩
  have hfrom : ∀ d ∈ (keepDiscovery m records).discoveryEventIds, d ∈ c.indexedEventIds ∨
      ∃ s, Owner rows agentName d s ∧ SameTurnIdentity s (keepDiscovery m records) := by
    intro d hd
    rcases hjoins.discovery d hd with hd | hd
    · exact .inl (List.mem_append_right _ (hdetached.discovery d hd))
    · rcases hexisting with hturn | ⟨rfl, -⟩
      · rcases hclaims.storedTurn hrows hturn with ⟨s, hfacts, howners⟩
        rcases hturn with ⟨-, -, -, hidentity⟩
        exact .inr ⟨s, howners d (List.mem_append_right _ hd), hfacts.sources.symm.trans (hidentity.1.trans hsame.1.symm),
          hfacts.anchor.symm.trans (hidentity.2.trans hsame.2.symm)⟩
      · exact .inl (List.mem_append_right _ (hdetached.discovery d hd))
  refine ⟨hjoins.canonical, hsame.1 ▸ hdetached.sourced, fun e he => hdetached.sources e (hsame.1 ▸ he), hfrom,
    ?_, ?_, ?_, ?_, ?_, ?_⟩
  · intro d hd hanswered
    rcases answeredElsewhere_iff.mp hanswered with ⟨s, howner, hcompleted, hne⟩
    rcases hfrom d hd with hin | ⟨s', howner', hs'⟩
    · rcases hclaims.of_owner hin howner with ⟨r, hr, hfacts⟩
      rcases discovery_keepDiscovery hd hr (hfacts.completed.trans hcompleted) with ⟨hsources, hanchor⟩
      exact hne ⟨hfacts.sources.symm.trans (hsources.trans hmf.1), hfacts.anchor.symm.trans (hanchor.trans hmf.2)⟩
    · exact hne (howner.unique howner' ▸ hs')
  · intro e he hunfinished
    have hfree : ¬ AnsweredElsewhere rows agentName c e := by
      intro hanswered
      rcases answeredElsewhere_iff.mp hanswered with ⟨s, howner, hcompleted, -⟩
      rw [hunfinished s howner] at hcompleted
      cases hcompleted
    rcases List.mem_append.mp (hdetached.keeps e he hfree) with hsource | hd
    · exact List.mem_append_left _ (hsame.1.symm ▸ hsource)
    · apply hdisc (hkept e hd)
      intro s howner hcompleted
      rw [hunfinished s howner] at hcompleted
      cases hcompleted
  · intro e s howner hs d hd
    rcases List.mem_append.mp hd with hsource | hdiscovery
    · exact List.mem_append_left _ (hs.1 ▸ hsource)
    · -- the turn is stored under its sources, so it is the one that is joined
      rcases List.exists_mem_of_ne_nil _ hdetached.sourced with ⟨x, hx⟩
      have hsx : x ∈ s.sourceEventIds := by
        rw [hs.1, hsame.1]
        exact hx
      have hownerx := howner.group hrows (List.mem_append_left _ hsx)
      rcases hclaims.of_owner (hdetached.sources x hx) hownerx with ⟨r, hr, hfacts⟩
      rcases hstored ⟨r, x, List.mem_append_left _ hx, hr, hfacts.sources.trans (hs.1.trans hsame.1),
        hfacts.anchor.trans (hs.2.trans hsame.2)⟩ with ⟨known, hturn, hknown⟩
      rcases hclaims.storedTurn hrows hturn with ⟨s', hfacts', howners⟩
      rcases hturn with ⟨-, -, -, hidentity⟩
      have hss : s' = s := (howners x (List.mem_append_left _ (hidentity.1.symm ▸ hx))).unique hownerx
      subst hss
      apply hdisc (hknown d (hfacts'.discovery.symm ▸ hdiscovery))
      intro s₀ howner₀ _
      rw [howner₀.unique (howner.group hrows hd)]
      exact hs
  · intro hfree
    have hp := hdetached.whole hfree
    exact ⟨hsame.1.trans hp.1, hsame.2.trans hp.2⟩
  · intro hcontested
    rcases hdetached.anchored hcontested with ⟨a, ha, hanchor⟩
    exact ⟨a, hsame.1.symm ▸ ha, hsame.2.trans hanchor⟩
  · intro e he hanswered
    rcases answeredElsewhere_iff.mp hanswered with ⟨s, howner, hcompleted, hne⟩
    rcases hdetached.free with hfree | ⟨hall, haliases, hredacted⟩
    · have hsc : SameTurnIdentity s c := by
        by_contra hsc
        exact hfree e (hsame.1 ▸ he) (answeredElsewhere_iff.mpr ⟨s, howner, hcompleted, hsc⟩)
      have hp := hdetached.whole (howner.not_contested hrows hsc)
      exact absurd ⟨hsc.1.trans (hp.1.symm.trans hsame.1.symm), hsc.2.trans (hp.2.symm.trans hsame.2.symm)⟩ hne
    · refine ⟨hall, hsame.1.trans haliases, ?_⟩
      -- its own turn would have the source that is answered elsewhere
      have hlacks : ∀ r, ¬ StoredTurn records p r := by
        intro r hturn
        rcases hclaims.storedTurn hrows hturn with ⟨s', hfacts, howners⟩
        rcases hturn with ⟨-, -, -, hidentity⟩
        have hin : e ∈ r.indexedEventIds := by
          apply List.mem_append_left
          rw [hidentity.1, ← hsame.1]
          exact he
        rw [howner.unique (howners e hin)] at hne
        exact hne ⟨hfacts.sources.symm.trans (hidentity.1.trans hsame.1.symm),
          hfacts.anchor.symm.trans (hidentity.2.trans hsame.2.symm)⟩
      unfold redactedAliases
      rw [List.filter_eq_nil_iff]
      intro x hx
      rw [decide_eq_true_iff, not_not, hsame.1]
      have hmem := redacted_keepDiscovery hx
      rw [hnone hlacks] at hmem
      exact hredacted x hmem

theorem Resolved.congr (h : Resolved rows agentName c f) (hm : m.Canonical) (hsame : f.SameIndexes m) :
    Resolved rows agentName c m where
  canonical := hm
  sourced := hsame.sources ▸ h.sourced
  sources e he := h.sources e (hsame.sources ▸ he)
  discovery d hd := by
    rcases h.discovery d (hsame.discovery ▸ hd) with hin | ⟨s, howner, hs⟩
    · exact .inl hin
    · exact .inr ⟨s, howner, hs.1.trans hsame.sources.symm, hs.2.trans hsame.anchor.symm⟩
  free d hd hanswered :=
    h.free d (hsame.discovery ▸ hd) (hanswered.congr ⟨hsame.sources.symm, hsame.anchor.symm⟩)
  keeps e he hfree := hsame.indexed.symm ▸ h.keeps e he hfree
  own e s howner hs d hd :=
    hsame.indexed.symm ▸ h.own e s howner ⟨hs.1.trans hsame.sources, hs.2.trans hsame.anchor⟩ d hd
  whole hfree := ⟨hsame.sources.trans (h.whole hfree).1, hsame.anchor.trans (h.whole hfree).2⟩
  anchored hcontested := hsame.anchored (h.anchored hcontested)
  aliases e he hanswered := by
    rcases h.aliases e (hsame.sources ▸ he) (hanswered.congr ⟨hsame.sources.symm, hsame.anchor.symm⟩) with
      ⟨hall, haliases, hnil⟩
    refine ⟨hall, hsame.sources.trans haliases, ?_⟩
    unfold redactedAliases at hnil ⊢
    rw [hsame.sources, hsame.redactions]
    exact hnil

/-- The answer of a written record is not what it is filed by. -/
theorem writtenRecord_indexes {outbox : Table OutboxRow} (hf : writtenRecord outbox records c = some f) :
    ∃ m, resolveTurnRecord c records = some m ∧ (m.Canonical → f.Canonical ∧ m.SameIndexes f) := by
  rcases Option.bind_eq_some_iff.mp hf with ⟨m, hm, hrest⟩
  rcases Option.bind_eq_some_iff.mp hrest with ⟨k, hk, hforget⟩
  refine ⟨m, hm, fun hmc => ?_⟩
  rcases keepCommitted_eq_some hmc hk with ⟨hkc, hkindexes, -⟩
  have hfacts := forgetCleaned_facts outbox (currentRecord records m) hkc
  rw [Option.some.inj hforget] at hfacts
  exact ⟨hfacts.1, hkindexes.trans hfacts.2.1⟩

/-! ## The two resolutions of a ledger write -/

/-- What a ledger write stores: the candidate is resolved against the ledger's own records first, and
the result against the rows. -/
structure Files (rows : Table TurnRecordRow) (agentName : String) (c f : TurnRecord) : Prop where
  canonical : f.Canonical
  sourced : f.sourceEventIds ≠ []
  indexed : ∀ e ∈ f.indexedEventIds, e ∈ c.indexedEventIds ∨ ∃ s, Owner rows agentName e s ∧ SameTurnIdentity s f
  free : ∀ e ∈ f.indexedEventIds, ¬ AnsweredElsewhere rows agentName f e
  keeps : ∀ e ∈ c.indexedEventIds, (∀ s, Owner rows agentName e s → s.completed = false) → e ∈ f.indexedEventIds
  own : ∀ e s, Owner rows agentName e s → SameTurnIdentity s f → ∀ d ∈ s.indexedEventIds, d ∈ f.indexedEventIds
  whole : ¬ Contested rows agentName c → SameTurnIdentity f c
  anchored : Contested rows agentName c → ∃ a ∈ c.indexedEventIds, a ∈ f.sourceEventIds ∧ f.anchorEventId = some a

theorem Contested.congr (h : Contested rows agentName c) (hsame : SameTurnIdentity f c) :
    Contested rows agentName f := by
  rcases h with ⟨e, he, hanswered⟩
  exact ⟨e, hsame.1.symm ▸ he, hanswered.congr hsame⟩

theorem Resolved.files (hrows : AllStored rows) (hm : Resolved rows agentName c m) (hf : Resolved rows agentName m f) :
    Files rows agentName c f := by
  have hwhole : ∀ e s, Owner rows agentName e s → SameTurnIdentity s m → SameTurnIdentity f m :=
    fun e s howner hs => hf.whole (howner.not_contested hrows hs)
  -- an event of the first result is the candidate's or its own turn's, and then the turn is the second's
  have hfirst : ∀ e ∈ m.indexedEventIds, e ∈ c.indexedEventIds ∨ ∃ s, Owner rows agentName e s ∧ SameTurnIdentity s f := by
    intro e he
    rcases List.mem_append.mp he with hsource | hd
    · exact .inl (hm.sources e hsource)
    · rcases hm.discovery e hd with hin | ⟨s, howner, hs⟩
      · exact .inl hin
      · have hfm := hwhole e s howner hs
        exact .inr ⟨s, howner, hs.1.trans hfm.1.symm, hs.2.trans hfm.2.symm⟩
  refine ⟨hf.canonical, hf.sourced, ?_, ?_, fun e he hfree => hf.keeps e (hm.keeps e he hfree) hfree, hf.own, ?_, ?_⟩
  · intro e he
    rcases List.mem_append.mp he with hsource | hd
    · exact hfirst e (hf.sources e hsource)
    · rcases hf.discovery e hd with hin | hown
      · exact hfirst e hin
      · exact .inr hown
  · intro e he hanswered
    rcases List.mem_append.mp he with hsource | hd
    · -- the second result would consist of redacted aliases that the first one has no more
      rcases hf.aliases e hsource hanswered with ⟨hall, haliases, -⟩
      rcases List.exists_mem_of_ne_nil _ hm.sourced with ⟨x, hx⟩
      rcases hm.aliases x hx (hall x hx) with ⟨-, -, hnil⟩
      rw [hnil] at haliases
      exact hf.sourced haliases
    · exact hf.free e hd hanswered
  · intro hfree
    have hmc := hm.whole hfree
    have hfm := hf.whole fun hcontested => hfree (hcontested.congr ⟨hmc.1.symm, hmc.2.symm⟩)
    exact ⟨hfm.1.trans hmc.1, hfm.2.trans hmc.2⟩
  · intro hcontested
    by_cases hagain : Contested rows agentName m
    · rcases hf.anchored hagain with ⟨a, ha, hanchor⟩
      refine ⟨a, ?_, ha, hanchor⟩
      rcases hfirst a (hf.sources a ha) with hin | ⟨s, howner, hs⟩
      · exact hin
      · rcases List.mem_append.mp (hf.sources a ha) with hsource | hd
        · exact hm.sources a hsource
        · rcases hm.discovery a hd with hin | ⟨s', howner', hs'⟩
          · exact hin
          · exact absurd hagain (howner'.not_contested hrows hs')
    · have hfm := hf.whole hagain
      rcases hm.anchored hcontested with ⟨a, ha, hanchor⟩
      exact ⟨a, hm.sources a ha, hfm.1.symm ▸ ha, hfm.2.trans hanchor⟩

/-! ## Taking whole turns -/

/-- The ledger declines the candidate: it has a source that is answered elsewhere, and no redaction
to keep. -/
def Declined (rows : Table TurnRecordRow) (agentName : String) (c : TurnRecord) : Prop :=
  Contested rows agentName c ∧ (c.redactedSourceEventIds = [] ∨
    ((∀ e ∈ c.sourceEventIds, AnsweredElsewhere rows agentName c e) ∧ redactedAliases c = []))

instance (rows : Table TurnRecordRow) (agentName : String) (c : TurnRecord) :
    Decidable (Declined rows agentName c) :=
  inferInstanceAs (Decidable (_ ∧ (_ ∨ _ ∧ _)))

/-- The candidate meets the stored turn of a row, which is another one: the turn is unfinished and
has the event of the row in common with it, or is filed under its anchor. A candidate that loses
sources to other turns is filed under one of its events. -/
def Meets (rows : Table TurnRecordRow) (agentName : String) (c : TurnRecord) (r : TurnRecordRow) : Prop :=
  ¬ SameTurnIdentity r.recordJson c ∧
    ((r.recordJson.completed = false ∧ r.indexEventId ∈ c.indexedEventIds) ∨
      if Contested rows agentName c then
        r.anchorEventId ∈ c.indexedEventIds ∧ r.anchorEventId ∉ r.recordJson.indexedEventIds
      else c.anchorEventId = some r.anchorEventId)

instance (rows : Table TurnRecordRow) (agentName : String) (c : TurnRecord) (r : TurnRecordRow) :
    Decidable (Meets rows agentName c r) :=
  inferInstanceAs (Decidable (_ ∧ (_ ∨ ite _ _ _)))

/-- Every stored turn the candidate meets is unfinished and has no event but those of the
candidate. -/
def TakesWhole (rows : Table TurnRecordRow) (agentName : String) (c : TurnRecord) : Prop :=
  Declined rows agentName c ∨ ∀ r ∈ rows.rows, r.agentName = agentName → Meets rows agentName c r →
    r.recordJson.completed = false ∧ ∀ e ∈ r.recordJson.indexedEventIds, e ∈ c.indexedEventIds

instance (rows : Table TurnRecordRow) (agentName : String) (c : TurnRecord) :
    Decidable (TakesWhole rows agentName c) :=
  inferInstanceAs (Decidable (_ ∨ ∀ r ∈ rows.rows, _))

/-- A declined candidate is resolved to nothing. -/
theorem Claims.declined (hclaims : Claims rows agentName c records) (hc : c.Canonical)
    (h : Declined rows agentName c) : resolveTurnRecord c records = none := by
  have hs := sanitizeRevisionReplay_sameFacts hc none (tombstonedRevisions c records)
  have hconf : ∀ {e}, e ∈ TurnRecord.conflictingSourceEventIds _ records ↔
      e ∈ c.sourceEventIds ∧ AnsweredElsewhere rows agentName c e := hclaims.conflicting_iff hs
  unfold resolveTurnRecord
  dsimp only
  rw [Option.map_eq_none_iff]
  generalize sanitizeRevisionReplay c none (tombstonedRevisions c records) = s at hs hconf ⊢
  rcases h with ⟨⟨e, he, hanswered⟩, hnothing⟩
  unfold detachConflicts
  dsimp only
  rw [if_neg (List.ne_nil_of_mem (hconf.mpr ⟨he, hanswered⟩))]
  unfold TurnRecord.projectRedactionAlias
  dsimp only
  rcases hnothing with hnil | ⟨hall, hnil⟩
  · rw [if_pos (hs.redactions.trans hnil)]
  · have hretained : s.retainedSourceEventIds (s.conflictingSourceEventIds records) = [] := by
      unfold TurnRecord.retainedSourceEventIds
      dsimp only
      have hsources : s.sourceEventIds.filter (· ∉ s.conflictingSourceEventIds records) = [] := by
        rw [List.filter_eq_nil_iff]
        intro x hx
        rw [decide_eq_true_iff, not_not]
        rw [hs.sources] at hx
        exact hconf.mpr ⟨hx, hall x hx⟩
      rw [if_pos hsources, hs.redactions, List.filter_eq_nil_iff]
      intro x hx
      rw [decide_eq_true_iff, not_not]
      by_contra hout
      have halias : x ∈ redactedAliases c := by
        unfold redactedAliases
        rw [List.mem_filter, decide_eq_true_iff]
        exact ⟨hx, fun hsource => hout (hconf.mpr ⟨hsource, hall x hsource⟩)⟩
      rw [hnil] at halias
      exact List.not_mem_nil halias
    rw [hretained, if_pos rfl]
    split <;> rfl

/-- A write that takes whole turns leaves no event of a turn it takes behind. -/
theorem Files.replaced (hrows : OneRecord rows) (hf : Files rows agentName c f) {a : String}
    (ha : f.anchorEventId = some a) (hwhole : ∀ r ∈ rows, r.agentName = agentName → Meets rows agentName c r →
      r.recordJson.completed = false ∧ ∀ e ∈ r.recordJson.indexedEventIds, e ∈ c.indexedEventIds)
    {r : TurnRecordRow} (hr : r ∈ rows) (hin : Replaces rows agentName f.indexedEventIds a r) :
    r.indexEventId ∈ f.indexedEventIds := by
  have hindexed := (hrows.stored r hr).indexed
  have hagent := hin.1
  by_cases hsame : SameTurnIdentity r.recordJson f
  · exact hf.own r.indexEventId r.recordJson ⟨r, hr, hagent, rfl, rfl⟩ hsame _ hindexed
  · have howner : ∀ {e}, e ∈ r.recordJson.indexedEventIds → Owner rows agentName e r.recordJson :=
      hrows.stored.owner hr hagent
    have hother : ¬ SameTurnIdentity r.recordJson c := by
      intro hrc
      have hfc := hf.whole ((howner hindexed).not_contested hrows.stored hrc)
      exact hsame ⟨hrc.1.trans hfc.1.symm, hrc.2.trans hfc.2.symm⟩
    -- an unfinished turn within the candidate is within what is written
    have hwithin : r.recordJson.completed = false ∧ (∀ e ∈ r.recordJson.indexedEventIds, e ∈ c.indexedEventIds) →
        r.indexEventId ∈ f.indexedEventIds := by
      rintro ⟨hunfinished, hevents⟩
      apply hf.keeps _ (hevents _ hindexed)
      intro s hs
      rw [← (howner hindexed).unique hs]
      exact hunfinished
    have hshares : ∀ e ∈ r.recordJson.indexedEventIds, e ∈ f.indexedEventIds → r.indexEventId ∈ f.indexedEventIds := by
      intro e he hef
      apply hwithin
      have hunfinished : r.recordJson.completed = false := by
        by_contra hcompleted
        rw [Bool.not_eq_false] at hcompleted
        exact hf.free e hef (answeredElsewhere_iff.mpr ⟨_, howner he, hcompleted, hsame⟩)
      have hec : e ∈ c.indexedEventIds := by
        rcases hf.indexed e hef with hec | ⟨s, hs, hsf⟩
        · exact hec
        · rw [← (howner he).unique hs] at hsf
          exact absurd hsf hsame
      exact hwhole ⟨r.agentName, e, r.anchorEventId, r.recordJson⟩ ((hrows.stored r hr).group e he) hagent
        ⟨hother, .inl ⟨hunfinished, hec⟩⟩
    rcases hin.2 with hmem | hanchor | ⟨r', hr', hagent', hmem', hanchor'⟩
    · exact hmem
    · by_cases hcontested : Contested rows agentName c
      · rcases hf.anchored hcontested with ⟨a', ha', hsource, hanchored⟩
        have haa : a = a' := Option.mem_unique ha hanchored
        subst haa
        subst hanchor
        by_cases hown : r.anchorEventId ∈ r.recordJson.indexedEventIds
        · exact hshares _ hown (List.mem_append_left _ hsource)
        · apply hwithin
          apply hwhole r hr hagent
          refine ⟨hother, .inr ?_⟩
          rw [if_pos hcontested]
          exact ⟨ha', hown⟩
      · apply hwithin
        apply hwhole r hr hagent
        refine ⟨hother, .inr ?_⟩
        rw [if_neg hcontested, ← (hf.whole hcontested).2, ha, hanchor]
    · have hrecord : r'.recordJson = r.recordJson :=
        hrows.eq_record r hr r' hr' (hagent'.trans hagent.symm) hanchor'
      apply hshares r'.indexEventId _ hmem'
      rw [← hrecord]
      exact (hrows.stored r' hr').indexed

end TurnRecords

end MindRoom
