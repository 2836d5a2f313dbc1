import MindRoom.FirstMentions
import MindRoom.TurnRecords

/-! # What merging two turn records keeps

Every function that builds a record ends in `canonicalize`, so what a record says of its own
turn is canonical; sanitising changes only the facts edits own. From these, what a late ledger
write and a delivered answer make of the record that is stored.
-/

namespace MindRoom

/-! ## Canonical lists -/

theorem nodup_canonicalSourceEventIds (ids : List String) : (canonicalSourceEventIds ids).Nodup :=
  (FirstMentions.adds_ite (· = "")).nodup_foldl List.nodup_nil

@[simp] theorem mem_canonicalSourceEventIds {ids : List String} {e : String} :
    e ∈ canonicalSourceEventIds ids ↔ e ∈ ids ∧ e ≠ "" :=
  (FirstMentions.adds_ite (· = "")).mem_foldl.trans (or_iff_right List.not_mem_nil)

/-- A list without repetition and without the empty string is canonical. -/
theorem canonicalSourceEventIds_eq_self {ids : List String} (hids : ids.Nodup) (hempty : "" ∉ ids) :
    canonicalSourceEventIds ids = ids := by
  refine (FirstMentions.adds_ite (· = "")).foldl_of_nodup hids fun e he heq => ?_
  exact hempty (heq ▸ he)

/-- What is kept of a canonical list is canonical. -/
theorem canonicalSourceEventIds_filter (ids : List String) (p : String → Bool) :
    canonicalSourceEventIds ((canonicalSourceEventIds ids).filter p) =
      (canonicalSourceEventIds ids).filter p := by
  apply canonicalSourceEventIds_eq_self
  · exact (nodup_canonicalSourceEventIds ids).filter _
  · intro h
    exact (mem_canonicalSourceEventIds.mp (List.mem_filter.mp h).1).2 rfl

@[simp] theorem canonicalSourceEventIds_canonical (ids : List String) :
    canonicalSourceEventIds (canonicalSourceEventIds ids) = canonicalSourceEventIds ids := by
  simpa using canonicalSourceEventIds_filter ids (fun _ => true)

@[simp] theorem canonicalOptionalString_canonical (s : Option String) :
    canonicalOptionalString (canonicalOptionalString s) = canonicalOptionalString s := by
  simp [canonicalOptionalString]

@[simp] theorem positiveIntOrNone_positive (n : Option Int) :
    positiveIntOrNone (positiveIntOrNone n) = positiveIntOrNone n := by
  simp [positiveIntOrNone]

/-! ## Canonical records -/

namespace TurnRecord

structure Canonical (r : TurnRecord) : Prop where
  sources : canonicalSourceEventIds r.sourceEventIds = r.sourceEventIds
  discovery : (canonicalSourceEventIds r.discoveryEventIds).filter (· ∉ r.sourceEventIds) =
    r.discoveryEventIds
  redactions : (canonicalSourceEventIds r.redactedSourceEventIds).filter (· ∈ r.indexedEventIds) =
    r.redactedSourceEventIds
  anchor : (canonicalOptionalString r.anchorEventId).or r.sourceEventIds.getLast? = r.anchorEventId
  response : canonicalOptionalString r.responseEventId = r.responseEventId
  latestEdit : positiveIntOrNone r.latestEditReceiptOrder = r.latestEditReceiptOrder
  userStop : positiveIntOrNone r.userStopReceiptOrder = r.userStopReceiptOrder
  settled : (positiveIntOrNone r.userStopSettledReceiptOrder).filter
    (fun settled => r.userStopReceiptOrder.any (settled ≤ ·)) = r.userStopSettledReceiptOrder

/-- Two records of one turn with the same events under them. -/
structure SameIndexes (r r' : TurnRecord) : Prop where
  sources : r'.sourceEventIds = r.sourceEventIds
  discovery : r'.discoveryEventIds = r.discoveryEventIds
  redactions : r'.redactedSourceEventIds = r.redactedSourceEventIds
  anchor : r'.anchorEventId = r.anchorEventId

/-- Two records that differ in the facts edits own, and in delivery context, at most. -/
structure SameFacts (r r' : TurnRecord) : Prop extends SameIndexes r r' where
  response : r'.responseEventId = r.responseEventId
  completed : r'.completed = r.completed
  latestEdit : r'.latestEditReceiptOrder = r.latestEditReceiptOrder
  userStop : r'.userStopReceiptOrder = r.userStopReceiptOrder
  settled : r'.userStopSettledReceiptOrder = r.userStopSettledReceiptOrder
  timestamp : r'.timestamp = r.timestamp

theorem SameIndexes.indexed {r r' : TurnRecord} (h : SameIndexes r r') : r'.indexedEventIds = r.indexedEventIds := by
  rw [indexedEventIds, h.sources, h.discovery]
  rfl

theorem SameIndexes.identity {r r' : TurnRecord} (h : SameIndexes r r') : SameTurnIdentity r' r :=
  ⟨h.sources, h.anchor⟩

theorem SameIndexes.trans {r r' r'' : TurnRecord} (h : SameIndexes r r') (h' : SameIndexes r' r'') :
    SameIndexes r r'' where
  sources := h'.sources.trans h.sources
  discovery := h'.discovery.trans h.discovery
  redactions := h'.redactions.trans h.redactions
  anchor := h'.anchor.trans h.anchor

theorem canonicalOptionalString_or (s : Option String) (l : List String) (hl : "" ∉ l) :
    canonicalOptionalString ((canonicalOptionalString s).or l.getLast?) =
      (canonicalOptionalString s).or l.getLast? := by
  cases hs : canonicalOptionalString s with
  | some a =>
    have ha := canonicalOptionalString_canonical s
    rw [hs] at ha
    exact ha
  | none =>
    cases hlast : l.getLast? with
    | none => rfl
    | some a =>
      have hne : a ≠ "" := fun h => hl (h ▸ List.mem_of_getLast? hlast)
      simp [canonicalOptionalString, hne]

theorem canonicalize_canonical (r : TurnRecord) : r.canonicalize.Canonical where
  sources := canonicalSourceEventIds_canonical _
  discovery := by
    change List.filter _ (canonicalSourceEventIds (List.filter _ _)) = _
    rw [canonicalSourceEventIds_filter]
    exact List.filter_filter.trans (by simp [canonicalize, canonicalSources, canonicalState])
  redactions := by
    change List.filter _ (canonicalSourceEventIds (List.filter _ _)) = _
    rw [canonicalSourceEventIds_filter]
    exact List.filter_filter.trans
      (by simp [canonicalize, canonicalSources, canonicalState, indexedEventIds])
  anchor := by
    change (canonicalOptionalString ((canonicalOptionalString _).or _)).or _ = _
    have hempty : "" ∉ canonicalSourceEventIds r.sourceEventIds := by simp
    rw [canonicalOptionalString_or _ _ hempty]
    simp [canonicalize, canonicalSources, canonicalState, Option.or_assoc]
  response := canonicalOptionalString_canonical _
  latestEdit := positiveIntOrNone_positive _
  userStop := positiveIntOrNone_positive _
  settled := by
    change (positiveIntOrNone (Option.filter _ (positiveIntOrNone _))).filter _ =
      Option.filter _ (positiveIntOrNone _)
    simp only [positiveIntOrNone, Option.filter_filter]
    apply congrArg (fun p => Option.filter p r.userStopSettledReceiptOrder)
    funext n
    simp [canonicalize, canonicalSources, canonicalState, positiveIntOrNone]
    grind

/-- A record with the events of a canonical one is canonicalised to one with these events. -/
theorem SameIndexes.canonicalize {r r' : TurnRecord} (hr : r.Canonical) (h : SameIndexes r r') :
    SameIndexes r r'.canonicalize where
  sources := (congrArg canonicalSourceEventIds h.sources).trans hr.sources
  discovery := by
    change List.filter (fun e => decide (e ∉ canonicalSourceEventIds r'.sourceEventIds))
      (canonicalSourceEventIds r'.discoveryEventIds) = _
    rw [h.sources, h.discovery, hr.sources]
    exact hr.discovery
  redactions := by
    have hsources : canonicalSourceEventIds r'.sourceEventIds = r.sourceEventIds := by
      rw [h.sources, hr.sources]
    have hdiscovery : List.filter (fun e => decide (e ∉ r.sourceEventIds))
        (canonicalSourceEventIds r'.discoveryEventIds) = r.discoveryEventIds := by
      rw [h.discovery, hr.discovery]
    change List.filter (fun e => decide (e ∈ canonicalSourceEventIds r'.sourceEventIds ++
      List.filter (fun e => decide (e ∉ canonicalSourceEventIds r'.sourceEventIds))
        (canonicalSourceEventIds r'.discoveryEventIds)))
      (canonicalSourceEventIds r'.redactedSourceEventIds) = _
    rw [hsources, hdiscovery, h.redactions]
    exact hr.redactions
  anchor := by
    change (canonicalOptionalString r'.anchorEventId).or
      (canonicalSourceEventIds r'.sourceEventIds).getLast? = _
    rw [h.anchor, h.sources, hr.sources]
    exact hr.anchor

/-- A record that agrees with a canonical one but for the facts edits own is canonicalised to one
that does. -/
theorem SameFacts.canonicalize {r r' : TurnRecord} (hr : r.Canonical) (h : SameFacts r r') :
    SameFacts r r'.canonicalize where
  toSameIndexes := h.toSameIndexes.canonicalize hr
  response := (congrArg canonicalOptionalString h.response).trans hr.response
  completed := h.completed
  latestEdit := (congrArg positiveIntOrNone h.latestEdit).trans hr.latestEdit
  userStop := (congrArg positiveIntOrNone h.userStop).trans hr.userStop
  settled := by
    change Option.filter (fun settled => (positiveIntOrNone r'.userStopReceiptOrder).any (settled ≤ ·))
      (positiveIntOrNone r'.userStopSettledReceiptOrder) = _
    rw [h.userStop, h.settled, hr.userStop]
    exact hr.settled
  timestamp := h.timestamp

end TurnRecord

/-- Sanitising changes only the facts edits own. -/
theorem sanitizeRevisionReplay_sameFacts {candidate : TurnRecord} (h : candidate.Canonical)
    (authority : Option TurnRecord) (tombstonedEventIds : List String) :
    candidate.SameFacts (sanitizeRevisionReplay candidate authority tombstonedEventIds) :=
  TurnRecord.SameFacts.canonicalize h ⟨⟨rfl, rfl, rfl, rfl⟩, rfl, rfl, rfl, rfl, rfl, rfl⟩

theorem sanitizeRevisionReplay_canonical (candidate : TurnRecord) (authority : Option TurnRecord)
    (tombstonedEventIds : List String) : (sanitizeRevisionReplay candidate authority tombstonedEventIds).Canonical :=
  TurnRecord.canonicalize_canonical _

/-- A decoded record is canonical, is of a turn and is indexed by the event it was read under. -/
theorem TurnRecord.fromLedgerRecord_eq_some {e : String} {raw r : TurnRecord}
    (h : TurnRecord.fromLedgerRecord e raw = some r) :
    r.Canonical ∧ e ∈ r.indexedEventIds ∧ r.sourceEventIds = canonicalSourceEventIds raw.sourceEventIds ∧
      r.anchorEventId = canonicalOptionalString raw.anchorEventId ∧ r.anchorEventId ≠ none := by
  unfold TurnRecord.fromLedgerRecord at h
  split at h
  · cases h
  · next hraw =>
    rw [not_or] at hraw
    dsimp only at h
    split at h
    · next he =>
      cases h
      have hanchor : ∀ x : Option String, canonicalOptionalString raw.anchorEventId ≠ none →
          (canonicalOptionalString raw.anchorEventId).or x =
            canonicalOptionalString raw.anchorEventId := by
        intro x hne
        cases hs : canonicalOptionalString raw.anchorEventId with
        | none => exact absurd hs hne
        | some a => rfl
      refine ⟨TurnRecord.canonicalize_canonical _, he, rfl, hanchor _ hraw.1, ?_⟩
      change (canonicalOptionalString raw.anchorEventId).or _ ≠ none
      rw [hanchor _ hraw.1]
      exact hraw.1
    · cases h

variable {r : TurnRecord} {records : Mapping String TurnRecord}

/-- A canonical record of a turn is read back as it was written. -/
theorem TurnRecord.fromLedgerRecord_canonical {e : String} (hr : r.Canonical)
    (he : e ∈ r.indexedEventIds) (hanchor : canonicalOptionalString r.anchorEventId ≠ none)
    (hsources : r.sourceEventIds ≠ []) :
    ∃ r', TurnRecord.fromLedgerRecord e r = some r' ∧ r.SameFacts r' ∧ r'.Canonical := by
  have hsame : r.SameFacts
      { r with
        revisionReplay := r.revisionReplay.mapValues fun _ revision =>
          { revision with responseEventId := canonicalOptionalString revision.responseEventId }
        sourceEventMetadata := r.sourceEventMetadata.map readSourceEventMetadata } :=
    ⟨⟨rfl, rfl, rfl, rfl⟩, rfl, rfl, rfl, rfl, rfl, rfl⟩
  have hfacts := hsame.canonicalize hr
  refine ⟨_, ?_, hfacts, TurnRecord.canonicalize_canonical _⟩
  unfold TurnRecord.fromLedgerRecord
  rw [if_neg (not_or.mpr ⟨hanchor, by rw [hr.sources]; exact hsources⟩)]
  exact if_pos (hfacts.indexed ▸ he)

/-! ## Receipt orders -/

/-- An order once known stays known and does not fall. -/
def NotBelow (before after : Option Int) : Prop := ∀ n ∈ before, ∃ m ∈ after, n ≤ m

theorem NotBelow.refl (n : Option Int) : NotBelow n n := fun k hk => ⟨k, hk, le_refl k⟩

theorem NotBelow.trans {a b c : Option Int} (h : NotBelow a b) (h' : NotBelow b c) : NotBelow a c := by
  intro n hn
  obtain ⟨m, hm, hnm⟩ := h n hn
  obtain ⟨k, hk, hmk⟩ := h' m hm
  exact ⟨k, hk, hnm.trans hmk⟩

theorem maxOrder_comm (first second : Option Int) : maxOrder first second = maxOrder second first := by
  unfold maxOrder
  rw [max_comm]

/-- The later of two orders is not below a canonical one of them. -/
theorem NotBelow.maxOrder {first : Option Int} (h : positiveIntOrNone first = first)
    (second : Option Int) : NotBelow first (positiveIntOrNone (maxOrder first second)) := by
  rintro n ⟨rfl⟩
  have hn : 0 < n := by
    by_contra hneg
    simp [positiveIntOrNone, Option.filter, hneg] at h
  have hle : n ≤ max n (second.getD 0) := le_max_left _ _
  have hne : max n (second.getD 0) ≠ 0 := by omega
  have hpos : 0 < max n (second.getD 0) := by omega
  refine ⟨max n (second.getD 0), ?_, hle⟩
  simp [MindRoom.maxOrder, positiveIntOrNone, Option.filter, hne, hpos]

/-- A settled stop is one that was received. -/
theorem TurnRecord.Canonical.settled_le (h : r.Canonical) :
    NotBelow r.userStopSettledReceiptOrder r.userStopReceiptOrder := by
  intro n hn
  rw [← h.settled] at hn
  obtain ⟨_, hany⟩ := Option.mem_filter_iff.mp hn
  cases hstop : r.userStopReceiptOrder with
  | none => simp [hstop] at hany
  | some m => exact ⟨m, rfl, by simpa [hstop] using hany⟩

/-! ## Two records of one turn -/

structure TurnRecord.Joins (a b m : TurnRecord) : Prop where
  canonical : m.Canonical
  sources : m.sourceEventIds = a.sourceEventIds
  anchor : m.anchorEventId = a.anchorEventId
  discovery : ∀ d ∈ m.discoveryEventIds, d ∈ a.discoveryEventIds ∨ d ∈ b.discoveryEventIds
  completed : m.completed = (a.completed || b.completed)
  redactions : ∀ e ∈ a.sourceEventIds,
    e ∈ m.redactedSourceEventIds ↔ e ∈ a.redactedSourceEventIds ∨ e ∈ b.redactedSourceEventIds
  latestEdit : m.latestEditReceiptOrder =
    positiveIntOrNone (maxOrder a.latestEditReceiptOrder b.latestEditReceiptOrder)
  userStop : m.userStopReceiptOrder =
    positiveIntOrNone (maxOrder a.userStopReceiptOrder b.userStopReceiptOrder)

theorem TurnRecord.Joins.symm {a b m : TurnRecord} (h : a.Joins b m) (hsame : SameTurnIdentity a b) : b.Joins a m where
  canonical := h.canonical
  sources := h.sources.trans hsame.1
  anchor := h.anchor.trans hsame.2
  discovery d hd := (h.discovery d hd).symm
  completed := h.completed.trans (Bool.or_comm _ _)
  redactions e he := (h.redactions e (hsame.1 ▸ he)).trans or_comm
  latestEdit := h.latestEdit.trans (congrArg _ (maxOrder_comm _ _))
  userStop := h.userStop.trans (congrArg _ (maxOrder_comm _ _))

theorem TurnRecord.Joins.congr {a a' b b' m : TurnRecord} (h : a'.Joins b' m) (ha : a.SameFacts a')
    (hb : b.SameFacts b') : a.Joins b m where
  canonical := h.canonical
  sources := h.sources.trans ha.sources
  anchor := h.anchor.trans ha.anchor
  discovery d hd := by
    rw [← ha.discovery, ← hb.discovery]
    exact h.discovery d hd
  completed := by rw [h.completed, ha.completed, hb.completed]
  redactions e he := by rw [h.redactions e (ha.sources ▸ he), ha.redactions, hb.redactions]
  latestEdit := by rw [h.latestEdit, ha.latestEdit, hb.latestEdit]
  userStop := by rw [h.userStop, ha.userStop, hb.userStop]

/-- The precedence of a completed record makes the newer one's completion that of both. -/
theorem keepOlder_joins {newer older : TurnRecord} (hn : newer.Canonical)
    (hcompleted : older.completed = true → newer.completed = true) : newer.Joins older (keepOlder newer older) where
  canonical := TurnRecord.canonicalize_canonical _
  sources := hn.sources
  anchor := by
    change (canonicalOptionalString newer.anchorEventId).or
      (canonicalSourceEventIds newer.sourceEventIds).getLast? = _
    rw [hn.sources]
    exact hn.anchor
  discovery d hd := by
    have hmem : d ∈ canonicalSourceEventIds (newer.discoveryEventIds ++ older.discoveryEventIds) :=
      (List.mem_filter.mp hd).1
    exact List.mem_append.mp (mem_canonicalSourceEventIds.mp hmem).1
  completed := by
    change newer.completed = _
    cases hold : older.completed with
    | false => exact (Bool.or_false _).symm
    | true => rw [hcompleted hold, Bool.true_or]
  redactions e he := by
    have hcanonical : e ∈ canonicalSourceEventIds newer.sourceEventIds := hn.sources.symm ▸ he
    have hne : e ≠ "" := (mem_canonicalSourceEventIds.mp hcanonical).2
    change e ∈ List.filter _ (canonicalSourceEventIds (_ ++ _)) ↔ _
    rw [List.mem_filter, mem_canonicalSourceEventIds, List.mem_append]
    constructor
    · exact fun h => h.1.1
    · intro h
      refine ⟨⟨h, hne⟩, ?_⟩
      rw [decide_eq_true_iff]
      exact List.mem_append_left _ hcanonical
  latestEdit := rfl
  userStop := rfl

theorem mergeSameIdentityRecords_joins {candidate existing : TurnRecord} (hc : candidate.Canonical)
    (he : existing.Canonical) (hsame : SameTurnIdentity existing candidate) :
    candidate.Joins existing (mergeSameIdentityRecords candidate existing) := by
  have hc' := sanitizeRevisionReplay_sameFacts hc (some existing) []
  have hcc := sanitizeRevisionReplay_canonical candidate (some existing) []
  unfold mergeSameIdentityRecords
  dsimp only
  generalize sanitizeRevisionReplay candidate (some existing) [] = c at hc' hcc ⊢
  have he' := sanitizeRevisionReplay_sameFacts he (some c) []
  have hec := sanitizeRevisionReplay_canonical existing (some c) []
  generalize sanitizeRevisionReplay existing (some c) [] = x at he' hec ⊢
  have hxc : SameTurnIdentity x c := by
    constructor
    · rw [he'.sources, hc'.sources, hsame.1]
    · rw [he'.anchor, hc'.anchor, hsame.2]
  by_cases hne : c.completed ≠ x.completed
  · rw [if_pos hne]
    by_cases hcompleted : c.completed = true
    · rw [if_pos hcompleted]
      exact (keepOlder_joins hcc fun _ => hcompleted).congr hc' he'
    · rw [if_neg hcompleted]
      exact ((keepOlder_joins hec fun h => absurd h hcompleted).symm hxc).congr hc' he'
  · have heq : c.completed = x.completed := not_not.mp hne
    rw [if_neg hne]
    by_cases hlt : x.timestamp < c.timestamp
    · rw [if_pos hlt]
      exact (keepOlder_joins hcc fun h => heq.trans h).congr hc' he'
    · rw [if_neg hlt]
      exact ((keepOlder_joins hec fun h => heq.symm.trans h).symm hxc).congr hc' he'

theorem positiveIntOrNone_maxOrder_self {n : Option Int} (h : positiveIntOrNone n = n) :
    positiveIntOrNone (maxOrder n n) = n := by
  cases n with
  | none => rfl
  | some n =>
    have hn : 0 < n := by
      by_contra hneg
      simp [positiveIntOrNone, Option.filter, hneg] at h
    have hne : n ≠ 0 := by omega
    simp [maxOrder, positiveIntOrNone, Option.filter, hn, hne]

theorem TurnRecord.Joins.self (h : r.Canonical) : r.Joins r r where
  canonical := h
  sources := rfl
  anchor := rfl
  discovery _ := .inl
  completed := (Bool.or_self _).symm
  redactions _ _ := or_self_iff.symm
  latestEdit := (positiveIntOrNone_maxOrder_self h.latestEdit).symm
  userStop := (positiveIntOrNone_maxOrder_self h.userStop).symm

/-- Dropping discovery aliases changes nothing else. -/
theorem TurnRecord.Joins.keepDiscovery {a b m : TurnRecord} (h : a.Joins b m)
    (records : Mapping String TurnRecord) : a.Joins b (keepDiscovery m records) where
  canonical := TurnRecord.canonicalize_canonical _
  sources := h.canonical.sources.trans h.sources
  anchor := by
    change (canonicalOptionalString m.anchorEventId).or
      (canonicalSourceEventIds m.sourceEventIds).getLast? = _
    rw [h.canonical.sources, h.canonical.anchor, h.anchor]
  discovery d hd := by
    have hmem : d ∈ canonicalSourceEventIds (m.discoveryEventIds.filter _) := (List.mem_filter.mp hd).1
    exact h.discovery d (List.mem_filter.mp (mem_canonicalSourceEventIds.mp hmem).1).1
  completed := h.completed
  redactions e he := by
    rw [← h.redactions e he]
    have hm : e ∈ canonicalSourceEventIds m.sourceEventIds := by
      rw [h.canonical.sources, h.sources]
      exact he
    change e ∈ List.filter _ (canonicalSourceEventIds _) ↔ _
    rw [List.mem_filter, mem_canonicalSourceEventIds, decide_eq_true_iff]
    constructor
    · exact fun h => h.1.1
    · exact fun h => ⟨⟨h, (mem_canonicalSourceEventIds.mp hm).2⟩, List.mem_append_left _ hm⟩
  latestEdit := (congrArg positiveIntOrNone h.latestEdit).trans
    ((positiveIntOrNone_positive _).trans rfl)
  userStop := (congrArg positiveIntOrNone h.userStop).trans
    ((positiveIntOrNone_positive _).trans rfl)

/-! ## Resolving -/

theorem highestPrecedence_mem {records : List TurnRecord} {best : TurnRecord}
    (h : TurnRecord.highestPrecedence records = some best) : best ∈ records := by
  cases records with
  | nil => cases h
  | cons record records =>
    have hfold : ∀ (l : List TurnRecord) (r : TurnRecord),
        l.foldl (fun best record => if best.precedence < record.precedence then record else best) r ∈
          r :: l := by
      intro l
      induction l with
      | nil => exact fun r => List.mem_singleton.mpr rfl
      | cons x l ih =>
        intro r
        rw [List.foldl_cons]
        rcases List.mem_cons.mp (ih (if r.precedence < x.precedence then x else r)) with h | h
        · rw [h]
          split
          · exact List.mem_cons_of_mem _ List.mem_cons_self
          · exact List.mem_cons_self
        · exact List.mem_cons_of_mem _ (List.mem_cons_of_mem _ h)
    rw [TurnRecord.highestPrecedence, Option.some.injEq] at h
    rw [← h]
    exact hfold records record

theorem highestPrecedence_eq_none {records : List TurnRecord}
    (h : TurnRecord.highestPrecedence records = none) : records = [] := by
  cases records with
  | nil => rfl
  | cons _ _ => cases h

/-- The records of one turn that some events are stored under. -/
def StoredTurn (records : Mapping String TurnRecord) (turn existing : TurnRecord) : Prop :=
  ∃ e ∈ turn.indexedEventIds, records.value? e = some existing ∧ SameTurnIdentity existing turn

/-- A candidate is joined with a stored record of its turn, and with itself if there is none. -/
theorem joinStoredTurn_joins {p : TurnRecord} (hp : p.Canonical)
    (hrecords : ∀ e r, records.value? e = some r → r.Canonical) : ∃ existing, (StoredTurn records p existing ∨
        existing = p ∧ ∀ r, ¬ StoredTurn records p r) ∧
      p.Joins existing (joinStoredTurn p records) := by
  unfold joinStoredTurn
  dsimp only
  generalize hbest : TurnRecord.highestPrecedence _ = best
  cases best with
  | none =>
    have hnil := highestPrecedence_eq_none hbest
    refine ⟨p, .inr ⟨rfl, ?_⟩, TurnRecord.Joins.self hp⟩
    rintro r ⟨e, he, hr, hsame⟩
    rw [List.filterMap_eq_nil_iff] at hnil
    have hnone := hnil e he
    rw [hr] at hnone
    simp [Option.filter, hsame] at hnone
  | some existing =>
    obtain ⟨e, he, hfilter⟩ := List.mem_filterMap.mp (highestPrecedence_mem hbest)
    obtain ⟨hr, hsame⟩ := Option.mem_filter_iff.mp hfilter
    have hsame : SameTurnIdentity existing p := by simpa using hsame
    exact ⟨existing, .inl ⟨e, he, hr, hsame⟩, mergeSameIdentityRecords_joins hp (hrecords e existing hr) hsame⟩

/-- A resolved record keeps no discovery alias of another completed turn. -/
theorem discovery_keepDiscovery {m : TurnRecord} {d : String} (hd : d ∈ (keepDiscovery m records).discoveryEventIds)
    (hr : records.value? d = some r) (hcompleted : r.completed = true) : SameTurnIdentity r m := by
  have hmem : d ∈ canonicalSourceEventIds (m.discoveryEventIds.filter fun e =>
      (records.value? e).all fun existing => !existing.completed || SameTurnIdentity existing m) :=
    (List.mem_filter.mp hd).1
  have hall := (List.mem_filter.mp (mem_canonicalSourceEventIds.mp hmem).1).2
  simpa [hr, hcompleted] using hall

/-! ## Detaching -/

def TurnRecord.Anchored (r : TurnRecord) : Prop := ∃ a ∈ r.sourceEventIds, r.anchorEventId = some a

theorem TurnRecord.SameIndexes.anchored {r r' : TurnRecord} (h : r.SameIndexes r') (hr : r.Anchored) :
    r'.Anchored := by
  obtain ⟨a, ha, hanchor⟩ := hr
  exact ⟨a, h.sources ▸ ha, h.anchor.trans hanchor⟩

theorem TurnRecord.Canonical.not_mem_empty (h : r.Canonical) : "" ∉ r.sourceEventIds := by
  rw [← h.sources]
  exact fun hmem => (mem_canonicalSourceEventIds.mp hmem).2 rfl

theorem canonicalSourceEventIds_retained {s : TurnRecord} (hs : s.Canonical) (conflicting : List String) :
    canonicalSourceEventIds (s.retainedSourceEventIds conflicting) =
      s.retainedSourceEventIds conflicting := by
  have hsources := canonicalSourceEventIds_filter s.sourceEventIds (fun e => decide (e ∉ conflicting))
  rw [hs.sources] at hsources
  have hredactions := canonicalSourceEventIds_filter s.redactedSourceEventIds
    (fun e => decide (e ∉ conflicting) && decide (e ∈ s.indexedEventIds))
  have hfilter : List.filter (fun e => decide (e ∉ conflicting) && decide (e ∈ s.indexedEventIds))
      (canonicalSourceEventIds s.redactedSourceEventIds) =
        s.redactedSourceEventIds.filter (fun e => decide (e ∉ conflicting)) := by
    rw [← List.filter_filter, hs.redactions]
  rw [hfilter] at hredactions
  unfold TurnRecord.retainedSourceEventIds
  dsimp only
  split
  · exact hredactions
  · exact hsources

/-- A projected redaction is a turn of its own over the events it retains. -/
structure TurnRecord.Projects (s : TurnRecord) (retained : List String) (p : TurnRecord) : Prop where
  nonempty : retained ≠ []
  canonical : p.Canonical
  sources : p.sourceEventIds = retained
  anchor : p.anchorEventId =
    if s.anchorEventId.any (· ∈ retained) then s.anchorEventId else retained.getLast?
  discovery : ∀ d ∈ p.discoveryEventIds, d ∈ s.discoveryEventIds
  redactions : ∀ e ∈ retained, e ∈ s.redactedSourceEventIds → e ∈ p.redactedSourceEventIds

theorem projectRedactionAlias_projects {s p : TurnRecord} {conflicting : List String} (hs : s.Canonical)
    (h : s.projectRedactionAlias conflicting = some p) : s.Projects (s.retainedSourceEventIds conflicting) p := by
  have hretained := canonicalSourceEventIds_retained hs conflicting
  unfold TurnRecord.projectRedactionAlias at h
  dsimp only at h
  generalize s.retainedSourceEventIds conflicting = retained at h hretained ⊢
  split at h
  · cases h
  · split at h
    · cases h
    · next hne =>
      cases h
      refine ⟨hne, TurnRecord.canonicalize_canonical _, hretained, ?_, ?_, ?_⟩
      · have hempty : "" ∉ retained := by
          rw [← hretained]
          exact fun hmem => (mem_canonicalSourceEventIds.mp hmem).2 rfl
        change (canonicalOptionalString (if _ then _ else _)).or
          (canonicalSourceEventIds retained).getLast? = _
        rw [hretained]
        by_cases hany : s.anchorEventId.any (· ∈ retained) = true
        · cases hanchor : s.anchorEventId with
          | none => simp [hanchor] at hany
          | some a =>
            have ha : a ∈ retained := by simpa [hanchor] using hany
            have hne : a ≠ "" := fun h => hempty (h ▸ ha)
            simp [ha, canonicalOptionalString, Option.filter, hne]
        · rw [if_neg hany]
          obtain ⟨a, ha⟩ := Option.isSome_iff_exists.mp (List.getLast?_isSome.mpr hne)
          have hne : a ≠ "" := fun h => hempty (h ▸ List.mem_of_getLast? ha)
          simp [ha, canonicalOptionalString, Option.filter, hne]
      · intro d hd
        have hmem : d ∈ canonicalSourceEventIds s.discoveryEventIds := (List.mem_filter.mp hd).1
        exact (mem_canonicalSourceEventIds.mp hmem).1
      · intro e he hred
        have hmem : e ∈ canonicalSourceEventIds retained := hretained.symm ▸ he
        change e ∈ List.filter _ (canonicalSourceEventIds s.redactedSourceEventIds)
        rw [List.mem_filter, mem_canonicalSourceEventIds, decide_eq_true_iff]
        exact ⟨⟨hred, (mem_canonicalSourceEventIds.mp hmem).2⟩, List.mem_append_left _ hmem⟩

theorem TurnRecord.Projects.anchored {s p : TurnRecord} {retained : List String}
    (h : s.Projects retained p) : p.Anchored := by
  obtain ⟨last, hlast⟩ := Option.isSome_iff_exists.mp (List.getLast?_isSome.mpr h.nonempty)
  have hanchor := h.anchor
  rw [TurnRecord.Anchored, h.sources]
  by_cases hany : s.anchorEventId.any (· ∈ retained) = true
  · rw [if_pos hany] at hanchor
    cases hs : s.anchorEventId with
    | none => simp [hs] at hany
    | some a => exact ⟨a, by simpa [hs] using hany, hanchor.trans hs⟩
  · rw [if_neg hany] at hanchor
    exact ⟨last, List.mem_of_getLast? hlast, hanchor.trans hlast⟩

/-- A detached candidate is the candidate itself, or the turn its redactions are projected to. -/
theorem detachConflicts_eq_some {s p : TurnRecord} (hs : s.Canonical) (h : detachConflicts s records = some p) :
    (s.conflictingSourceEventIds records = [] ∧ p = s) ∨ (s.conflictingSourceEventIds records ≠ [] ∧
        s.Projects (s.retainedSourceEventIds (s.conflictingSourceEventIds records)) p) := by
  unfold detachConflicts at h
  dsimp only at h
  split at h
  · next hnil => exact .inl ⟨hnil, (Option.some.inj h).symm⟩
  · next hne => exact .inr ⟨hne, projectRedactionAlias_projects hs h⟩

/-! ## Answers -/

structure TurnRecord.Answers (r m : TurnRecord) : Prop extends TurnRecord.SameIndexes r m where
  canonical : m.Canonical
  completed : m.completed = true
  userStop : m.userStopReceiptOrder = r.userStopReceiptOrder

theorem completedResponseRecord_answers (hr : r.Canonical) (responseEventId : String) :
    r.Answers (completedResponseRecord r responseEventId none) ∧
      (completedResponseRecord r responseEventId none).latestEditReceiptOrder =
        r.latestEditReceiptOrder := by
  have hs := sanitizeRevisionReplay_sameFacts hr none []
  have hcanonical := sanitizeRevisionReplay_canonical r none []
  unfold completedResponseRecord
  dsimp only
  generalize sanitizeRevisionReplay r none [] = s at hs hcanonical ⊢
  have hsame : ∀ replay, s.SameIndexes
      { s with responseEventId := some responseEventId, completed := true, revisionReplay := replay } :=
    fun _ => ⟨rfl, rfl, rfl, rfl⟩
  constructor
  · exact ⟨hs.toSameIndexes.trans ((hsame _).canonicalize hcanonical),
      TurnRecord.canonicalize_canonical _, rfl, hcanonical.userStop.trans hs.userStop⟩
  · exact hcanonical.latestEdit.trans hs.latestEdit

theorem mergeCommittedResponse_answers {current committed m : TurnRecord} (hc : current.Canonical)
    {tombstonedEventIds : List String}
    (h : mergeCommittedResponse (some current) committed tombstonedEventIds = some m) :
    SameTurnIdentity current committed ∧ current.Answers m ∧
      NotBelow current.latestEditReceiptOrder m.latestEditReceiptOrder := by
  unfold mergeCommittedResponse at h
  dsimp only at h
  split at h
  · cases h
  · next hmatch =>
    cases h
    have hidentity : SameTurnIdentity current committed := by
      by_contra hne
      exact hmatch (.inl hne)
    refine ⟨hidentity, ?_⟩
    generalize hmerged : TurnRecord.canonicalize _ = merged
    have hindexes : current.SameIndexes merged := by
      rw [← hmerged]
      exact TurnRecord.SameIndexes.canonicalize hc ⟨rfl, rfl, rfl, rfl⟩
    have hcanonical : merged.Canonical := hmerged ▸ TurnRecord.canonicalize_canonical _
    have hcompleted : merged.completed = true := by
      rw [← hmerged]
      rfl
    have hstop : merged.userStopReceiptOrder = current.userStopReceiptOrder := by
      rw [← hmerged]
      exact hc.userStop
    have hedit : NotBelow current.latestEditReceiptOrder merged.latestEditReceiptOrder := by
      rw [← hmerged]
      exact NotBelow.maxOrder hc.latestEdit _
    have hfacts := sanitizeRevisionReplay_sameFacts hcanonical none tombstonedEventIds
    constructor
    · exact ⟨hindexes.trans hfacts.toSameIndexes, sanitizeRevisionReplay_canonical _ _ _,
        hfacts.completed.trans hcompleted, hfacts.userStop.trans hstop⟩
    · rw [hfacts.latestEdit]
      exact hedit

/-! ## Writes -/

namespace TurnRecords

def AllCanonical (records : Mapping String TurnRecord) : Prop :=
  ∀ e r, records.value? e = some r → r.Canonical

/-- What a cached ledger write stores for the turn `p` its candidate is resolved to: the record
joined with one stored record of that turn, completed or redacted where that one was completed. -/
structure Writes (records : Mapping String TurnRecord) (p f : TurnRecord) : Prop where
  canonical : f.Canonical
  sources : f.sourceEventIds = p.sourceEventIds
  anchor : f.anchorEventId = p.anchorEventId
  discovery : ∀ d ∈ f.discoveryEventIds, ∀ r, records.value? d = some r → r.completed = true →
    SameTurnIdentity r p
  joined : ∃ existing, (StoredTurn records p existing ∨ existing = p ∧ ∀ r, ¬ StoredTurn records p r) ∧
    (∀ d ∈ f.discoveryEventIds, d ∈ p.discoveryEventIds ∨ d ∈ existing.discoveryEventIds) ∧
    (existing.completed = true → f.completed = true ∨ f.SourcesRedacted) ∧
    (∀ e ∈ p.sourceEventIds,
      e ∈ f.redactedSourceEventIds ↔ e ∈ p.redactedSourceEventIds ∨ e ∈ existing.redactedSourceEventIds) ∧
    NotBelow existing.latestEditReceiptOrder f.latestEditReceiptOrder ∧
    NotBelow existing.userStopReceiptOrder f.userStopReceiptOrder

theorem keepCommitted_eq_some {current : Option TurnRecord} {c f : TurnRecord} (hc : c.Canonical)
    (h : keepCommitted current c = some f) : f.Canonical ∧ c.SameIndexes f ∧ (c.completed = true → f.completed = true) ∧
      NotBelow c.latestEditReceiptOrder f.latestEditReceiptOrder ∧
      f.userStopReceiptOrder = c.userStopReceiptOrder := by
  have hself : c.Canonical ∧ c.SameIndexes c ∧ (c.completed = true → c.completed = true) ∧
      NotBelow c.latestEditReceiptOrder c.latestEditReceiptOrder ∧
      c.userStopReceiptOrder = c.userStopReceiptOrder :=
    ⟨hc, ⟨rfl, rfl, rfl, rfl⟩, id, NotBelow.refl _, rfl⟩
  unfold keepCommitted at h
  cases current with
  | none => exact Option.some.inj h ▸ hself
  | some current =>
    dsimp only at h
    split at h
    · obtain ⟨_, hanswers, hedit⟩ := mergeCommittedResponse_answers hc h
      exact ⟨hanswers.canonical, hanswers.toSameIndexes, fun _ => hanswers.completed, hedit, hanswers.userStop⟩
    · exact Option.some.inj h ▸ hself

/-- Forgetting a cleaned answer leaves the turn, and what it forgets is redacted. -/
theorem forgetCleaned_facts (outbox : Table OutboxRow) (current : Option TurnRecord) {c : TurnRecord}
    (hc : c.Canonical) : (forgetCleaned outbox current c).Canonical ∧ c.SameIndexes (forgetCleaned outbox current c) ∧
      (c.completed = true → (forgetCleaned outbox current c).completed = true ∨
        (forgetCleaned outbox current c).SourcesRedacted) ∧
      (forgetCleaned outbox current c).latestEditReceiptOrder = c.latestEditReceiptOrder ∧
      (forgetCleaned outbox current c).userStopReceiptOrder = c.userStopReceiptOrder := by
  have hself : c.Canonical ∧ c.SameIndexes c ∧
      (c.completed = true → c.completed = true ∨ c.SourcesRedacted) ∧
      c.latestEditReceiptOrder = c.latestEditReceiptOrder ∧
      c.userStopReceiptOrder = c.userStopReceiptOrder :=
    ⟨hc, ⟨rfl, rfl, rfl, rfl⟩, .inl, rfl, rfl⟩
  unfold forgetCleaned
  split
  · next response anchor hresponse hanchor =>
    split
    · next hcleaned =>
      refine ⟨?_, ⟨rfl, rfl, rfl, rfl⟩, fun _ => .inr hcleaned.1, rfl, rfl⟩
      refine { hc with response := rfl, settled := ?_ }
      change (positiveIntOrNone c.userStopReceiptOrder).filter _ = c.userStopReceiptOrder
      rw [hc.userStop]
      cases c.userStopReceiptOrder with
      | none => rfl
      | some n => simp [Option.filter]
    · exact hself
  · exact hself

theorem writtenRecord_writes {outbox : Table OutboxRow} {records : Mapping String TurnRecord}
    {c f : TurnRecord} (hrecords : AllCanonical records) (h : writtenRecord outbox records c = some f) :
    ∃ ts p, detachConflicts (sanitizeRevisionReplay c none ts) records = some p ∧ Writes records p f := by
  have hsanitized := sanitizeRevisionReplay_canonical c none (tombstonedRevisions c records)
  obtain ⟨m, hm, hrest⟩ := Option.bind_eq_some_iff.mp h
  obtain ⟨k, hk, hf⟩ := Option.bind_eq_some_iff.mp hrest
  obtain ⟨p, hp, rfl⟩ := Option.map_eq_some_iff.mp hm
  have hpc : p.Canonical := by
    rcases detachConflicts_eq_some hsanitized hp with ⟨_, rfl⟩ | ⟨_, hprojects⟩
    · exact hsanitized
    · exact hprojects.canonical
  refine ⟨_, p, hp, ?_⟩
  obtain ⟨existing, hexisting, hjoin⟩ := joinStoredTurn_joins hpc hrecords
  have hec : existing.Canonical := by
    rcases hexisting with ⟨e, _, hr, _⟩ | ⟨rfl, _⟩
    · exact hrecords e existing hr
    · exact hpc
  have hjoins := hjoin.keepDiscovery records
  obtain ⟨hkc, hkindexes, hkcompleted, hkedit, hkstop⟩ := keepCommitted_eq_some hjoins.canonical hk
  have hforget := forgetCleaned_facts outbox (currentRecord records
    (keepDiscovery (joinStoredTurn p records) records)) hkc
  rw [Option.some.inj hf] at hforget
  obtain ⟨hfc, hfindexes, hfcompleted, hfedit, hfstop⟩ := hforget
  have hindexes := hkindexes.trans hfindexes
  refine ⟨hfc, hindexes.sources.trans hjoins.sources, hindexes.anchor.trans hjoins.anchor, ?_, ?_⟩
  · intro d hd r hr hcompleted
    rw [hindexes.discovery] at hd
    obtain ⟨hs, ha⟩ := discovery_keepDiscovery hd hr hcompleted
    exact ⟨hs.trans hjoin.sources, ha.trans hjoin.anchor⟩
  · refine ⟨existing, hexisting, ?_, ?_, ?_, ?_, ?_⟩
    · intro d hd
      exact hjoins.discovery d (hindexes.discovery ▸ hd)
    · intro hcompleted
      exact hfcompleted (hkcompleted (hjoins.completed.trans (by rw [hcompleted, Bool.or_true])))
    · intro e he
      rw [hindexes.redactions]
      exact hjoins.redactions e he
    · rw [hfedit]
      refine NotBelow.trans ?_ hkedit
      rw [hjoins.latestEdit, maxOrder_comm]
      exact NotBelow.maxOrder hec.latestEdit _
    · rw [hfstop, hkstop, hjoins.userStop, maxOrder_comm]
      exact NotBelow.maxOrder hec.userStop _

/-- What a delivered answer stores: the record that is there, or an answered record of the turn. -/
theorem committedRecord_eq_ok {records : Mapping String TurnRecord} {c f : TurnRecord}
    (hrecords : AllCanonical records) (hc : c.Canonical) (h : committedRecord records c = .ok (some f)) :
    (∀ e ∈ c.indexedEventIds, ∀ r, records.value? e = some r → r.sourceEventIds = c.sourceEventIds) ∧
      ((currentRecord records c = none ∧ f.Canonical ∧ c.SameIndexes f ∧ f.completed = true) ∨
        ∃ current, currentRecord records c = some current ∧ current.SameIndexes f ∧ f.Canonical ∧
          (current.completed = true → f.completed = true) ∧
          NotBelow current.latestEditReceiptOrder f.latestEditReceiptOrder ∧
          f.userStopReceiptOrder = current.userStopReceiptOrder) := by
  unfold committedRecord at h
  dsimp only at h
  split at h
  · cases h
  · next howners =>
    constructor
    · intro e he r hr
      by_contra hne
      exact howners ⟨e, he, r, hr, hne⟩
    · cases hcurrent : currentRecord records c with
      | none =>
        simp only [hcurrent] at h
        left
        rw [if_neg (by rintro ⟨_, hnone, _⟩; cases hnone)] at h
        dsimp only [Option.elim] at h
        split at h
        · cases h
        · next response _ =>
          obtain ⟨hanswers, _⟩ := completedResponseRecord_answers hc response
          have hf : f = sanitizeRevisionReplay (completedResponseRecord c response none) none _ :=
            (Option.some.inj (Except.ok.inj h)).symm
          have hfacts := sanitizeRevisionReplay_sameFacts hanswers.canonical none
            (records.keys.filter fun e =>
              (records.value? e).any fun record => e ∈ record.redactedSourceEventIds)
          rw [hf]
          exact ⟨rfl, sanitizeRevisionReplay_canonical _ _ _, hanswers.toSameIndexes.trans
            hfacts.toSameIndexes, hfacts.completed.trans hanswers.completed⟩
      | some current =>
        simp only [hcurrent] at h
        obtain ⟨e, _, he⟩ := List.exists_of_findSome?_eq_some hcurrent
        have hcc := hrecords e current he
        right
        refine ⟨current, rfl, ?_⟩
        split at h
        · obtain rfl := Option.some.inj (Except.ok.inj h)
          exact ⟨⟨rfl, rfl, rfl, rfl⟩, hcc, id, NotBelow.refl _, rfl⟩
        · split at h
          · cases h
          · obtain ⟨_, hanswers, hedit⟩ := mergeCommittedResponse_answers hcc (Except.ok.inj h)
            exact ⟨hanswers.toSameIndexes, hanswers.canonical, fun _ => hanswers.completed, hedit, hanswers.userStop⟩

end TurnRecords

end MindRoom
