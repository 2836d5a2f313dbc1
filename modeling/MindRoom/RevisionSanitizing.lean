import MindRoom.MappingParts
import MindRoom.TurnCodec
import MindRoom.TurnFacts

/-! # What sanitizing leaves of a redacted revision

`sanitizeRevisionReplay` marks every invalidated revision, and then visits the sources of the
redacted ones. A source loses its prompt and all its selections, but only where the first of them
is redacted: a source and its discovery alias may select different revisions, and then the order
of the two entries decides.
-/

namespace MindRoom

/-! ## One revision -/

namespace RevisionReplay

theorem redacted_join (old : RevisionReplay) (new : Option RevisionReplay) :
    (old.join new).redacted = (old.redacted || new.any (·.redacted)) := by
  unfold join
  rw [preserveSummaryProvenance_redacted]
  cases new with
  | none => simp
  | some new =>
    by_cases hold : old.redacted = true
    · by_cases hnew : new.redacted = true
      · simp [hold, hnew]
      · simp [hold, hnew]
    · have hold' : old.redacted = false := by simpa using hold
      dsimp only
      rw [if_neg fun hboth => hold hboth.1, if_neg fun hboth => hold hboth.1, hold', Bool.false_or]
      split
      · rfl
      · rfl

theorem preserveSummaryProvenance_sourceEventId (current previous : RevisionReplay) :
    (preserveSummaryProvenance current previous).sourceEventId = current.sourceEventId := by
  unfold preserveSummaryProvenance
  split <;> rfl

/-- A revision keeps its source, unless the authority knows it and redacted it or is alone in
knowing it. -/
theorem sourceEventId_join (old : RevisionReplay) (new : Option RevisionReplay) : (old.join new).sourceEventId =
      if old.redacted then old.sourceEventId else (new.map (·.sourceEventId)).getD old.sourceEventId := by
  unfold join
  rw [preserveSummaryProvenance_sourceEventId]
  cases new with
  | none => simp
  | some new =>
    by_cases hold : old.redacted = true
    · by_cases hnew : new.redacted = true
      · simp [hold, hnew]
      · simp [hold, hnew]
    · dsimp only
      rw [if_neg fun hboth => hold hboth.1, if_neg fun hboth => hold hboth.1, if_neg hold]
      split
      · rfl
      · rfl

def tombstoned (value : RevisionReplay) : RevisionReplay :=
  { value with redacted := true, cleanupPending := true }

theorem stringOr_self (s : Option String) : stringOr s s = s := by
  cases s with
  | none => rfl
  | some a => by_cases ha : a = "" <;> simp [stringOr, canonicalOptionalString, Option.filter, ha]

theorem stringOr_stringOr (s t : Option String) : stringOr s (stringOr s t) = stringOr s t := by
  cases s with
  | none => simp [stringOr, canonicalOptionalString]
  | some a => by_cases ha : a = "" <;> simp [stringOr, canonicalOptionalString, Option.filter, ha]

theorem preserveSummaryProvenance_self (value : RevisionReplay) : preserveSummaryProvenance value value = value := by
  unfold preserveSummaryProvenance
  split
  · next h =>
    cases value
    cases h
    rfl
  · rfl

/-- What was joined with the authority is joined with it already. -/
theorem join_join (old : RevisionReplay) (new : Option RevisionReplay) :
    old.join (some (old.join new)) = old.join new := by
  obtain ⟨source, timestamp, redacted, cleanup, response, legacy⟩ := old
  cases new with
  | none => cases redacted <;> cases legacy <;> cases response <;> simp [join, preserveSummaryProvenance, stringOr_self]
  | some new =>
    obtain ⟨source', timestamp', redacted', cleanup', response', legacy'⟩ := new
    cases redacted <;> cases redacted' <;> cases legacy <;> cases response <;> cases response' <;>
      simp [join, preserveSummaryProvenance, stringOr_self, stringOr_stringOr]

/-- A tombstone the authority does not know of stands. -/
theorem join_tombstoned {old : RevisionReplay} {new : Option RevisionReplay} (h : (old.join new).redacted = false) :
    old.join (some (old.join new).tombstoned) = (old.join new).tombstoned := by
  obtain ⟨source, timestamp, redacted, cleanup, response, legacy⟩ := old
  rw [redacted_join, Bool.or_eq_false_iff] at h
  obtain ⟨rfl, hnew⟩ := h
  cases new with
  | none => cases legacy <;> cases response <;> simp [join, preserveSummaryProvenance, tombstoned]
  | some new =>
    obtain ⟨source', timestamp', redacted', cleanup', response', legacy'⟩ := new
    cases hnew
    cases legacy <;> cases response <;> cases response' <;> simp [join, preserveSummaryProvenance, tombstoned]

end RevisionReplay

/-! ## The replay of the result -/

namespace RevisionSanitizing

section

variable (candidate : TurnRecord) (authority : Option TurnRecord) (tombstonedEventIds : List String)

/-- The first selection of a revision that is not the source's own event. -/
def firstSelection (r : String) : Option (Mapping.Item String SourceEventRevision) :=
  candidate.sourceEventRevisions.rows.find? fun item =>
    item.value.2 = r ∧ item.value.2 ≠ candidate.promptSourceEventId item.key

/-- The source the candidate knows a revision under: that of its provenance, or else that of its
first selection. -/
def knownSource (r : String) : Option String :=
  ((candidate.revisionReplay.value? r).map (·.sourceEventId)).or
    ((firstSelection candidate r).map fun item => candidate.promptSourceEventId item.key)

/-- What the authority knows of a revision. -/
def authorityReplay (r : String) : Option RevisionReplay :=
  authority.bind fun record => record.revisionReplay.value? r

/-- A revision that is redacted in the candidate or in the authority, or that one of them knows of
and whose event is tombstoned. -/
def Invalidated (r : String) : Prop :=
  (∃ value, candidate.revisionReplay.value? r = some value ∧ value.redacted = true) ∨
    (∃ value, authorityReplay authority r = some value ∧ value.redacted = true) ∨
      (r ∈ tombstonedEventIds ∧ (knownSource candidate r ≠ none ∨ authorityReplay authority r ≠ none))

/-- The source a revision is recorded under: the authority's where it redacted the revision or is
alone in knowing it. -/
def recordedSource (r : String) : Option String :=
  match authorityReplay authority r with
  | some old => if old.redacted then some old.sourceEventId else (knownSource candidate r).or old.sourceEventId
  | none => knownSource candidate r

def sanitizedReplay : Mapping String RevisionReplay :=
  TurnRecord.tombstoneReplay
    (TurnRecord.joinReplay candidate.selectedReplay (authority.elim ∅ (·.revisionReplay))) tombstonedEventIds

end

def Marked (replay : Mapping String RevisionReplay) (r : String) : Prop :=
  ∃ value, replay.value? r = some value ∧ value.redacted = true

variable {candidate : TurnRecord} {authority : Option TurnRecord} {tombstonedEventIds : List String}

theorem value?_selectedReplay (r : String) : candidate.selectedReplay.value? r = (candidate.revisionReplay.value? r).or
      ((firstSelection candidate r).map fun item =>
        { sourceEventId := candidate.promptSourceEventId item.key, timestampMs := item.value.1 }) := by
  unfold TurnRecord.selectedReplay firstSelection
  generalize candidate.revisionReplay = replay
  generalize candidate.sourceEventRevisions.rows = rows
  induction rows generalizing replay with
  | nil => simp
  | cons item rows ih =>
    rw [List.foldl_cons, ih, List.find?_cons]
    dsimp only
    by_cases hsource : item.value.2 = candidate.promptSourceEventId item.key
    · have hnot : ¬ (item.value.2 = r ∧ item.value.2 ≠ candidate.promptSourceEventId item.key) :=
        fun h => h.2 hsource
      rw [if_neg (not_not.mpr hsource), decide_eq_false hnot]
    · rw [if_pos hsource, Mapping.value?_setdefault]
      by_cases hr : item.value.2 = r
      · rw [if_pos hr, decide_eq_true ⟨hr, hsource⟩]
        cases replay.value? r <;> simp
      · rw [if_neg hr, decide_eq_false fun h => hr h.1]

theorem value?_tombstoneReplay (replay : Mapping String RevisionReplay) (ids : List String) (r : String) :
    (TurnRecord.tombstoneReplay replay ids).value? r = (replay.value? r).map fun value =>
      if r ∈ ids ∧ value.redacted = false then value.tombstoned else value := by
  unfold TurnRecord.tombstoneReplay
  induction ids generalizing replay with
  | nil => simp
  | cons e ids ih =>
    rw [List.foldl_cons, ih]
    cases he : replay.value? e with
    | none =>
      dsimp only
      by_cases hr : r = e
      · rw [hr, he]
        rfl
      · simp [hr]
    | some value =>
      dsimp only
      by_cases hr : r = e
      · subst hr
        by_cases hredacted : value.redacted = true
        · rw [if_pos hredacted, he]
          simp [hredacted]
        · rw [if_neg hredacted, Mapping.value?_set, if_pos rfl, he]
          simp [hredacted, RevisionReplay.tombstoned]
      · by_cases hredacted : value.redacted = true
        · rw [if_pos hredacted]
          simp [hr]
        · rw [if_neg hredacted, Mapping.value?_set, if_neg (Ne.symm hr)]
          simp [hr]

theorem authorityReplay_eq (r : String) :
    (authority.elim ∅ (·.revisionReplay)).value? r = authorityReplay authority r := by
  cases authority <;> rfl

/-- What the candidate and the authority together know of a revision. -/
theorem value?_joined (r : String) :
    (TurnRecord.joinReplay candidate.selectedReplay (authority.elim ∅ (·.revisionReplay))).value? r =
      ((authorityReplay authority r).map fun old => old.join (candidate.selectedReplay.value? r)).or
        (candidate.selectedReplay.value? r) := by
  unfold TurnRecord.joinReplay
  rw [Mapping.value?_joinWith, authorityReplay_eq]

theorem knownSource_eq (r : String) :
    knownSource candidate r = (candidate.selectedReplay.value? r).map (·.sourceEventId) := by
  rw [value?_selectedReplay, knownSource]
  cases candidate.revisionReplay.value? r with
  | none => simp [Function.comp_def]
  | some value => rfl

/-- A selection alone does not redact its revision. -/
theorem redacted_selectedReplay {r : String} :
    Marked candidate.selectedReplay r ↔ Marked candidate.revisionReplay r := by
  unfold Marked
  rw [value?_selectedReplay]
  cases candidate.revisionReplay.value? r with
  | some value => rfl
  | none =>
    constructor
    · rintro ⟨value, hvalue, hredacted⟩
      rw [Option.none_or, Option.map_eq_some_iff] at hvalue
      rcases hvalue with ⟨item, _, rfl⟩
      cases hredacted
    · rintro ⟨value, hvalue, _⟩
      cases hvalue

/-- What is marked redacted in the end is what the inputs invalidate. -/
theorem marked_sanitizedReplay {r : String} : Marked (sanitizedReplay candidate authority tombstonedEventIds) r ↔
      Invalidated candidate authority tombstonedEventIds r := by
  have hselected : Marked candidate.selectedReplay r ↔ Marked candidate.revisionReplay r := redacted_selectedReplay
  unfold Marked at hselected
  unfold Invalidated Marked sanitizedReplay
  rw [← hselected, value?_tombstoneReplay, value?_joined, knownSource_eq]
  cases hauthority : authorityReplay authority r with
  | none =>
    cases candidate.selectedReplay.value? r with
    | none => simp
    | some value =>
      by_cases hr : r ∈ tombstonedEventIds
      · by_cases hredacted : value.redacted = true <;> simp [hr, hredacted, RevisionReplay.tombstoned]
      · simp [hr]
  | some old =>
    have hjoin := old.redacted_join (candidate.selectedReplay.value? r)
    by_cases hr : r ∈ tombstonedEventIds
    · simp only [hr, true_and, Option.map_some, Option.some_or, Option.some.injEq, exists_eq_left', ne_eq,
        reduceCtorEq, not_false_eq_true, or_true, iff_true]
      by_cases hredacted : (old.join (candidate.selectedReplay.value? r)).redacted = true
      · rw [if_neg (by simpa using hredacted)]
        exact hredacted
      · rw [if_pos (by simpa using hredacted)]
        rfl
    · simp only [hr, false_and, if_false, Option.map_some, Option.some_or, Option.some.injEq, exists_eq_left',
        or_false, hjoin, Bool.or_eq_true]
      rw [or_comm]
      cases candidate.selectedReplay.value? r <;> simp

/-- The source of a revision in the end is the one the inputs record it under. -/
theorem source_sanitizedReplay {r : String} :
    ((sanitizedReplay candidate authority tombstonedEventIds).value? r).map (·.sourceEventId) =
      recordedSource candidate authority r := by
  have hsource (p : Prop) [Decidable p] (value : RevisionReplay) :
      (if p then value.tombstoned else value).sourceEventId = value.sourceEventId := by
    split <;> rfl
  unfold sanitizedReplay recordedSource
  rw [value?_tombstoneReplay, value?_joined, knownSource_eq, Option.map_map]
  simp only [Function.comp_def, hsource]
  cases authorityReplay authority r with
  | none => rfl
  | some old =>
    simp only [Option.map_some, Option.some_or, RevisionReplay.sourceEventId_join]
    split
    · rfl
    · cases candidate.selectedReplay.value? r <;> rfl

/-- The sources that are visited are those an invalidated revision is recorded under. -/
theorem mem_invalidSources {replay : Mapping String RevisionReplay} {source : String} :
    source ∈ ((replay.values.filter (·.redacted)).map (·.sourceEventId)).dedup ↔
      ∃ r value, replay.value? r = some value ∧ value.redacted = true ∧ value.sourceEventId = source := by
  simp only [List.mem_dedup, List.mem_map, List.mem_filter, Mapping.mem_values]
  constructor
  · rintro ⟨value, ⟨⟨r, hr⟩, hredacted⟩, hsource⟩
    exact ⟨r, value, hr, hredacted, hsource⟩
  · rintro ⟨r, value, hr, hredacted, hsource⟩
    exact ⟨value, ⟨⟨r, hr⟩, hredacted⟩, hsource⟩

/-! ## The prompts and selections of the result -/

section

variable (candidate : TurnRecord) (replay : Mapping String RevisionReplay)

/-- What a source selects is gone: nothing, or first of all a redacted revision. -/
def Fallen (revisions : Mapping String SourceEventRevision) (source : String) : Prop :=
  (revisions.rows.find? fun item => candidate.promptSourceEventId item.key = source).all
    (fun item => (replay.value? item.value.2).any (·.redacted)) = true

instance (revisions : Mapping String SourceEventRevision) (source : String) :
    Decidable (Fallen candidate replay revisions source) :=
  inferInstanceAs (Decidable (_ = true))

variable {candidate replay}

theorem dropInvalidSource_eq (facts : Mapping String String × Mapping String SourceEventRevision) (source : String) :
    candidate.dropInvalidSource replay facts source =
      if Fallen candidate replay facts.2 source then
        (facts.1.pop source, facts.2.keep (candidate.promptSourceEventId · ≠ source))
      else facts := rfl

/-- Dropping one source leaves the first selection of another one. -/
theorem fallen_keep {revisions : Mapping String SourceEventRevision} {source source' : String} (h : source' ≠ source) :
    Fallen candidate replay (revisions.keep (candidate.promptSourceEventId · ≠ source)) source' ↔
      Fallen candidate replay revisions source' := by
  unfold Fallen
  have hfind : (revisions.keep (candidate.promptSourceEventId · ≠ source)).rows.find?
        (fun item => candidate.promptSourceEventId item.key = source') =
      revisions.rows.find? (fun item => candidate.promptSourceEventId item.key = source') := by
    rw [Mapping.rows_keep, List.find?_filter]
    congr 1
    funext item
    by_cases hitem : candidate.promptSourceEventId item.key = source'
    · simp [hitem, h]
    · simp [hitem]
  rw [hfind]

/-- The visit of all sources drops the selections of the fallen ones. -/
theorem revisions_foldl (sources : List String) (facts : Mapping String String × Mapping String SourceEventRevision) :
    (sources.foldl (candidate.dropInvalidSource replay) facts).2 =
      facts.2.keep fun k => ¬ (candidate.promptSourceEventId k ∈ sources ∧
        Fallen candidate replay facts.2 (candidate.promptSourceEventId k)) := by
  induction sources generalizing facts with
  | nil => exact (Mapping.keep_eq_self fun item _ => by simp).symm
  | cons source sources ih =>
    rw [List.foldl_cons, ih, dropInvalidSource_eq]
    apply Mapping.ext_rows
    by_cases hfallen : Fallen candidate replay facts.2 source
    · rw [if_pos hfallen]
      dsimp only
      rw [Mapping.rows_keep, Mapping.rows_keep, Mapping.rows_keep, List.filter_filter]
      apply List.filter_congr
      intro item _
      by_cases hitem : candidate.promptSourceEventId item.key = source
      · simp [hitem, hfallen]
      · simp [hitem, fallen_keep hitem]
    · rw [if_neg hfallen, Mapping.rows_keep, Mapping.rows_keep]
      apply List.filter_congr
      intro item _
      by_cases hitem : candidate.promptSourceEventId item.key = source
      · simp [hitem, hfallen]
      · simp [hitem]

/-- The visit of all sources drops the prompts of the fallen ones. -/
theorem value?_prompts_foldl (sources : List String)
    (facts : Mapping String String × Mapping String SourceEventRevision) (source : String) :
    (sources.foldl (candidate.dropInvalidSource replay) facts).1.value? source =
      if source ∈ sources ∧ Fallen candidate replay facts.2 source then none else facts.1.value? source := by
  induction sources generalizing facts with
  | nil => simp
  | cons source' sources ih =>
    rw [List.foldl_cons, ih, dropInvalidSource_eq]
    by_cases hfallen : Fallen candidate replay facts.2 source'
    · rw [if_pos hfallen]
      by_cases hsource : source = source'
      · subst hsource
        simp [hfallen]
      · simp [fallen_keep hsource, hsource]
    · rw [if_neg hfallen]
      by_cases hsource : source = source'
      · subst hsource
        simp [hfallen]
      · simp [hsource]

theorem prompts_foldl_part (sources : List String)
    (facts : Mapping String String × Mapping String SourceEventRevision) :
    Mapping.Part (sources.foldl (candidate.dropInvalidSource replay) facts).1 facts.1 := by
  induction sources generalizing facts with
  | nil => exact Mapping.Part.refl _
  | cons source sources ih =>
    rw [List.foldl_cons]
    apply (ih _).trans
    rw [dropInvalidSource_eq]
    split
    · exact Mapping.pop_part _ _
    · exact Mapping.Part.refl _

end

/-! ## Canonical records -/

section

variable (candidate : TurnRecord)

/-- The sources that may keep a prompt. -/
def promptKeys : List String :=
  let canonical := candidate.canonicalSources
  canonical.sourceEventIds.filter fun e => decide (e ∉ canonical.redactedSourceEventIds.map
    (MindRoom.promptSourceEventId canonical.sourceEventIds canonical.sourceEventMetadata))

/-- The sources and aliases that may keep a selection. -/
def revisionKeys : List String :=
  let canonical := candidate.canonicalSources
  canonical.indexedEventIds.filter (· ∉ canonical.redactedSourceEventIds)

theorem nodup_promptKeys : (promptKeys candidate).Nodup :=
  (nodup_canonicalSourceEventIds candidate.sourceEventIds).filter _

theorem nodup_revisionKeys : (revisionKeys candidate).Nodup := by
  apply List.Nodup.filter
  apply List.Nodup.append
  · exact nodup_canonicalSourceEventIds _
  · exact (nodup_canonicalSourceEventIds _).filter _
  · intro e hsource hdiscovery
    have hnot := (List.mem_filter.mp hdiscovery).2
    exact of_decide_eq_true hnot hsource

variable {candidate}

/-- A canonical record with fewer prompts and selections is canonical. -/
theorem canonicalize_facts (h : candidate.canonicalize = candidate) {prompts : Mapping String String}
    {revisions : Mapping String SourceEventRevision} (replay : Mapping String RevisionReplay)
    (hprompts : Mapping.Part prompts candidate.sourceEventPrompts)
    (hrevisions : Mapping.Part revisions candidate.sourceEventRevisions) : { candidate with
      revisionReplay := replay
      sourceEventPrompts := prompts
      sourceEventRevisions := revisions }.canonicalize =
      { candidate with
        revisionReplay := replay
        sourceEventPrompts := prompts
        sourceEventRevisions := revisions } := by
  have hp : Mapping.collect (promptKeys candidate) candidate.sourceEventPrompts.value? =
      candidate.sourceEventPrompts := congrArg TurnRecord.sourceEventPrompts h
  have hr : Mapping.collect (revisionKeys candidate)
      (fun e => (candidate.sourceEventRevisions.value? e).filter (·.2 ≠ "")) =
        candidate.sourceEventRevisions := congrArg TurnRecord.sourceEventRevisions h
  have hprompts' : Mapping.collect (promptKeys candidate) prompts.value? = prompts :=
    Mapping.collect_part (nodup_promptKeys candidate) (hp ▸ hprompts)
  have hnonempty : (fun e => (revisions.value? e).filter fun revision => decide (revision.2 ≠ "")) =
      revisions.value? := by
    funext e
    cases he : revisions.value? e with
    | none => rfl
    | some revision =>
      have hcandidate := hrevisions.value? he
      rw [← hr, Mapping.value?_collect] at hcandidate
      split at hcandidate
      · have hne := (Option.filter_eq_some_iff.mp hcandidate).2
        exact if_pos hne
      · cases hcandidate
  have hrevisions' : Mapping.collect (revisionKeys candidate)
      (fun e => (revisions.value? e).filter fun revision => decide (revision.2 ≠ "")) = revisions := by
    rw [hnonempty]
    exact Mapping.collect_part (nodup_revisionKeys candidate) (hr ▸ hrevisions)
  calc { candidate with
        revisionReplay := replay
        sourceEventPrompts := prompts
        sourceEventRevisions := revisions }.canonicalize
      = { candidate.canonicalize with
          revisionReplay := replay
          sourceEventPrompts := Mapping.collect (promptKeys candidate) prompts.value?
          sourceEventRevisions := Mapping.collect (revisionKeys candidate)
            fun e => (revisions.value? e).filter fun revision => decide (revision.2 ≠ "") } := rfl
    _ = _ := by rw [h, hprompts', hrevisions']

end

/-! ## The result -/

/-- The sources of the redacted revisions of a replay. -/
def visitedSources (replay : Mapping String RevisionReplay) : List String :=
  ((replay.values.filter (·.redacted)).map (·.sourceEventId)).dedup

/-- The prompts and selections that sanitizing stores. -/
def keptFacts (candidate : TurnRecord) (replay : Mapping String RevisionReplay) :
    Mapping String String × Mapping String SourceEventRevision :=
  (visitedSources replay).foldl (candidate.dropInvalidSource replay)
    (candidate.sourceEventPrompts, candidate.sourceEventRevisions)

/-- A selection is dropped where its source is visited and fallen. -/
def Dropped (candidate : TurnRecord) (replay : Mapping String RevisionReplay) (source : String) : Prop :=
  source ∈ visitedSources replay ∧ Fallen candidate replay candidate.sourceEventRevisions source

instance (candidate : TurnRecord) (replay : Mapping String RevisionReplay) (source : String) :
    Decidable (Dropped candidate replay source) :=
  inferInstanceAs (Decidable (_ ∧ _))

theorem revisions_keptFacts (replay : Mapping String RevisionReplay) :
    (keptFacts candidate replay).2 = candidate.sourceEventRevisions.keep fun k =>
      ¬ Dropped candidate replay (candidate.promptSourceEventId k) :=
  revisions_foldl _ _

theorem value?_prompts_keptFacts (replay : Mapping String RevisionReplay) (source : String) :
    (keptFacts candidate replay).1.value? source =
      if Dropped candidate replay source then none else candidate.sourceEventPrompts.value? source :=
  value?_prompts_foldl _ _ _

/-- Sanitizing changes the three maps that edits own, and nothing else. -/
theorem sanitizeRevisionReplay_eq (h : candidate.canonicalize = candidate) :
    sanitizeRevisionReplay candidate authority tombstonedEventIds =
      { candidate with
        revisionReplay := sanitizedReplay candidate authority tombstonedEventIds
        sourceEventPrompts := (keptFacts candidate (sanitizedReplay candidate authority tombstonedEventIds)).1
        sourceEventRevisions := (keptFacts candidate (sanitizedReplay candidate authority tombstonedEventIds)).2 } := by
  have hrevisions : Mapping.Part (keptFacts candidate (sanitizedReplay candidate authority tombstonedEventIds)).2
      candidate.sourceEventRevisions := by
    rw [revisions_keptFacts]
    exact Mapping.keep_part _ _
  exact canonicalize_facts h _ (prompts_foldl_part _ _) hrevisions

/-! ### Sanitizing again -/

/-- The selections of the result are in its replay already. -/
theorem selectedReplay_again {replay : Mapping String RevisionReplay} {revisions : Mapping String SourceEventRevision}
    {prompts : Mapping String String}
    (h : ∀ item ∈ revisions.rows, item.value.2 ≠ candidate.promptSourceEventId item.key →
      ∃ value, replay.value? item.value.2 = some value) :
    { candidate with
      revisionReplay := replay
      sourceEventPrompts := prompts
      sourceEventRevisions := revisions }.selectedReplay = replay := by
  unfold TurnRecord.selectedReplay
  dsimp only
  generalize revisions.rows = rows at h
  induction rows with
  | nil => rfl
  | cons item rows ih =>
    have hstep : (if item.value.2 ≠ candidate.promptSourceEventId item.key then
        replay.setdefault item.value.2
          { sourceEventId := candidate.promptSourceEventId item.key, timestampMs := item.value.1 }
        else replay) = replay := by
      split
      · next hne =>
        rcases h item List.mem_cons_self hne with ⟨value, hvalue⟩
        exact Mapping.setdefault_eq_self hvalue
      · rfl
    rw [List.foldl_cons]
    refine (congrArg (fun m => List.foldl _ m rows) hstep).trans ?_
    exact ih fun item' hitem' => h item' (List.mem_cons_of_mem _ hitem')

theorem tombstoneReplay_eq_self {replay : Mapping String RevisionReplay} {ids : List String}
    (h : ∀ r ∈ ids, ∀ value, replay.value? r = some value → value.redacted = true) :
    TurnRecord.tombstoneReplay replay ids = replay := by
  unfold TurnRecord.tombstoneReplay
  induction ids with
  | nil => rfl
  | cons r ids ih =>
    rw [List.foldl_cons]
    have hr := h r List.mem_cons_self
    cases hvalue : replay.value? r with
    | none => exact ih fun r' hr' => h r' (List.mem_cons_of_mem _ hr')
    | some value =>
      dsimp only
      rw [if_pos (hr value hvalue)]
      exact ih fun r' hr' => h r' (List.mem_cons_of_mem _ hr')

/-- A replay that was sanitized is joined and marked already. -/
theorem sanitizedReplay_again :
    TurnRecord.tombstoneReplay (TurnRecord.joinReplay (sanitizedReplay candidate authority tombstonedEventIds)
      (authority.elim ∅ (·.revisionReplay))) tombstonedEventIds =
        sanitizedReplay candidate authority tombstonedEventIds := by
  have hvalue (r : String) := value?_tombstoneReplay
    (TurnRecord.joinReplay candidate.selectedReplay (authority.elim ∅ (·.revisionReplay))) tombstonedEventIds r
  have hjoin : TurnRecord.joinReplay (sanitizedReplay candidate authority tombstonedEventIds)
      (authority.elim ∅ (·.revisionReplay)) = sanitizedReplay candidate authority tombstonedEventIds := by
    apply Mapping.joinWith_eq_self
    intro item hitem
    have hold : authorityReplay authority item.key = some item.value := by
      rw [← authorityReplay_eq, Mapping.value?_eq_some]
      exact hitem
    unfold sanitizedReplay
    rw [hvalue, value?_joined, hold]
    simp only [Option.map_some, Option.some_or, Option.some.injEq]
    split
    · next h => rw [RevisionReplay.join_tombstoned h.2]
    · rw [RevisionReplay.join_join]
  rw [hjoin]
  apply tombstoneReplay_eq_self
  intro r hr value h
  unfold sanitizedReplay at h
  rw [hvalue, Option.map_eq_some_iff] at h
  rcases h with ⟨joined, _, rfl⟩
  by_cases hredacted : joined.redacted = true
  · rw [if_neg (by simp [hredacted])]
    exact hredacted
  · rw [if_pos ⟨hr, by simpa using hredacted⟩]
    rfl

/-- A selection that is in the candidate is in the replay, unless it is the source's own event. -/
theorem selected_mem_sanitizedReplay {item : Mapping.Item String SourceEventRevision}
    (h : item ∈ candidate.sourceEventRevisions.rows) (hne : item.value.2 ≠ candidate.promptSourceEventId item.key) :
    ∃ value, (sanitizedReplay candidate authority tombstonedEventIds).value? item.value.2 = some value := by
  have hselected : (candidate.selectedReplay.value? item.value.2).isSome := by
    rw [value?_selectedReplay, Option.isSome_or, Bool.or_eq_true]
    right
    rw [Option.isSome_map]
    unfold firstSelection
    rw [List.find?_isSome]
    exact ⟨item, h, by simp [hne]⟩
  unfold sanitizedReplay
  rw [← Option.isSome_iff_exists, value?_tombstoneReplay, Option.isSome_map, value?_joined, Option.isSome_or,
    hselected, Bool.or_true]

/-- Visiting the sources of the result again drops nothing more. -/
theorem keptFacts_again {replay : Mapping String RevisionReplay} {sources : List String}
    {candidate' : TurnRecord} (hprompt : candidate'.promptSourceEventId = candidate.promptSourceEventId)
    (hsources : ∀ source ∈ sources, source ∈ visitedSources replay) :
    sources.foldl (candidate'.dropInvalidSource replay) (keptFacts candidate replay) = keptFacts candidate replay := by
  induction sources with
  | nil => rfl
  | cons source sources ih =>
    have hvisited := hsources source List.mem_cons_self
    have hfind (hnot : ¬ Dropped candidate replay source) :
        (keptFacts candidate replay).2.rows.find? (fun item => candidate.promptSourceEventId item.key = source) =
          candidate.sourceEventRevisions.rows.find? (fun item => candidate.promptSourceEventId item.key = source) := by
      rw [revisions_keptFacts, Mapping.rows_keep, List.find?_filter]
      congr 1
      funext item
      by_cases hitem : candidate.promptSourceEventId item.key = source
      · simp [hitem, hnot]
      · simp [hitem]
    have hstep : candidate'.dropInvalidSource replay (keptFacts candidate replay) source =
        keptFacts candidate replay := by
      rw [dropInvalidSource_eq]
      split
      · next hfallen =>
        have hdropped : Dropped candidate replay source := by
          by_contra hnot
          apply hnot
          refine ⟨hvisited, ?_⟩
          unfold Fallen at hfallen ⊢
          rw [hprompt, hfind hnot] at hfallen
          exact hfallen
        rw [hprompt, Mapping.pop_eq_self, Mapping.keep_eq_self]
        · intro item hitem hsource
          rw [revisions_keptFacts, Mapping.rows_keep, List.mem_filter, decide_eq_true_iff, hsource] at hitem
          exact hitem.2 hdropped
        · rw [value?_prompts_keptFacts, if_pos hdropped]
      · rfl
    rw [List.foldl_cons, hstep]
    exact ih fun source' hsource' => hsources source' (List.mem_cons_of_mem _ hsource')

/-- Sanitizing its own result changes nothing. -/
theorem sanitizeRevisionReplay_again (h : candidate.canonicalize = candidate) :
    sanitizeRevisionReplay (sanitizeRevisionReplay candidate authority tombstonedEventIds) authority tombstonedEventIds =
      sanitizeRevisionReplay candidate authority tombstonedEventIds := by
  have hcanonical : (sanitizeRevisionReplay candidate authority tombstonedEventIds).canonicalize =
      sanitizeRevisionReplay candidate authority tombstonedEventIds := TurnRecord.canonicalize_canonicalize _
  rw [sanitizeRevisionReplay_eq h] at hcanonical ⊢
  rw [sanitizeRevisionReplay_eq hcanonical]
  generalize hreplay : sanitizedReplay candidate authority tombstonedEventIds = replay at hcanonical ⊢
  have hselected : { candidate with
      revisionReplay := replay
      sourceEventPrompts := (keptFacts candidate replay).1
      sourceEventRevisions := (keptFacts candidate replay).2 }.selectedReplay = replay := by
    apply selectedReplay_again
    intro item hitem hne
    rw [revisions_keptFacts, Mapping.rows_keep] at hitem
    rw [← hreplay]
    exact selected_mem_sanitizedReplay (List.mem_of_mem_filter hitem) hne
  have hagain : sanitizedReplay { candidate with
      revisionReplay := replay
      sourceEventPrompts := (keptFacts candidate replay).1
      sourceEventRevisions := (keptFacts candidate replay).2 } authority tombstonedEventIds = replay := by
    rw [sanitizedReplay, hselected, ← hreplay]
    exact sanitizedReplay_again
  have hfacts : keptFacts { candidate with
      revisionReplay := replay
      sourceEventPrompts := (keptFacts candidate replay).1
      sourceEventRevisions := (keptFacts candidate replay).2 } replay = keptFacts candidate replay :=
    keptFacts_again rfl fun _ hsource => hsource
  rw [hagain, hfacts]

/-! ### The law -/

/-- Redacted revisions do not survive: every invalidated revision is marked, no selection names a
marked one, no prompt is left of a source the candidate selected a marked one for, and sanitizing
again changes nothing. -/
structure Sanitized (candidate : TurnRecord) (authority : Option TurnRecord) (tombstonedEventIds : List String) :
    Prop where
  marked : ∀ r, Invalidated candidate authority tombstonedEventIds r →
    Marked (sanitizeRevisionReplay candidate authority tombstonedEventIds).revisionReplay r
  unselected : ∀ k revision,
    (sanitizeRevisionReplay candidate authority tombstonedEventIds).sourceEventRevisions.value? k = some revision →
      ¬ Marked (sanitizeRevisionReplay candidate authority tombstonedEventIds).revisionReplay revision.2
  unprompted : ∀ k revision, candidate.sourceEventRevisions.value? k = some revision →
    Marked (sanitizeRevisionReplay candidate authority tombstonedEventIds).revisionReplay revision.2 →
      (sanitizeRevisionReplay candidate authority tombstonedEventIds).sourceEventPrompts.value?
        (candidate.promptSourceEventId k) = none
  again : sanitizeRevisionReplay (sanitizeRevisionReplay candidate authority tombstonedEventIds) authority
    tombstonedEventIds = sanitizeRevisionReplay candidate authority tombstonedEventIds

/-- Every invalidated revision that is selected can be reached: some invalidated revision is recorded
under its source, and the first selection of that source is an invalidated one. -/
def Reached (candidate : TurnRecord) (authority : Option TurnRecord) (tombstonedEventIds : List String) : Prop :=
  ∀ k revision, candidate.sourceEventRevisions.value? k = some revision →
    Invalidated candidate authority tombstonedEventIds revision.2 →
      (∃ r, Invalidated candidate authority tombstonedEventIds r ∧
        recordedSource candidate authority r = some (candidate.promptSourceEventId k)) ∧
      ∀ item, candidate.sourceEventRevisions.rows.find?
          (fun item => candidate.promptSourceEventId item.key = candidate.promptSourceEventId k) = some item →
        Invalidated candidate authority tombstonedEventIds item.value.2

theorem mem_visitedSources {source : String} :
    source ∈ visitedSources (sanitizedReplay candidate authority tombstonedEventIds) ↔
      ∃ r, Invalidated candidate authority tombstonedEventIds r ∧
        recordedSource candidate authority r = some source := by
  unfold visitedSources
  rw [mem_invalidSources]
  constructor
  · rintro ⟨r, value, hvalue, hredacted, hsource⟩
    refine ⟨r, marked_sanitizedReplay.mp ⟨value, hvalue, hredacted⟩, ?_⟩
    rw [← source_sanitizedReplay, hvalue, Option.map_some, hsource]
  · rintro ⟨r, hinvalidated, hsource⟩
    rcases marked_sanitizedReplay.mpr hinvalidated with ⟨value, hvalue, hredacted⟩
    rw [← source_sanitizedReplay, hvalue, Option.map_some, Option.some.injEq] at hsource
    exact ⟨r, value, hvalue, hredacted, hsource⟩

theorem fallen_iff {source : String} :
    Fallen candidate (sanitizedReplay candidate authority tombstonedEventIds) candidate.sourceEventRevisions source ↔
      ∀ item, candidate.sourceEventRevisions.rows.find?
          (fun item => candidate.promptSourceEventId item.key = source) = some item →
        Invalidated candidate authority tombstonedEventIds item.value.2 := by
  unfold Fallen
  cases candidate.sourceEventRevisions.rows.find? fun item => candidate.promptSourceEventId item.key = source with
  | none => simp
  | some item =>
    simp only [Option.all_some, Option.some.injEq, forall_eq', ← marked_sanitizedReplay, Marked, Option.any_eq_true]

theorem dropped_iff {source : String} :
    Dropped candidate (sanitizedReplay candidate authority tombstonedEventIds) source ↔
      (∃ r, Invalidated candidate authority tombstonedEventIds r ∧ recordedSource candidate authority r = some source) ∧
      ∀ item, candidate.sourceEventRevisions.rows.find?
          (fun item => candidate.promptSourceEventId item.key = source) = some item →
        Invalidated candidate authority tombstonedEventIds item.value.2 :=
  and_congr mem_visitedSources fallen_iff

/-- Redacted revisions do not survive the sanitizing of a record exactly where every invalidated
selection is reached. -/
theorem sanitized_iff_reached (raw : TurnRecord) (authority : Option TurnRecord) (tombstonedEventIds : List String) :
    Sanitized raw.canonicalize authority tombstonedEventIds ↔
      Reached raw.canonicalize authority tombstonedEventIds := by
  have hcanonical := TurnRecord.canonicalize_canonicalize raw
  generalize raw.canonicalize = candidate at hcanonical
  have heq := @sanitizeRevisionReplay_eq _ authority tombstonedEventIds hcanonical
  constructor
  · intro h k revision hselected hinvalidated
    rw [← dropped_iff]
    by_contra hnot
    -- the selection is kept although its revision is marked
    apply h.unselected k revision
    · rw [heq, revisions_keptFacts, Mapping.value?_keep, if_pos hnot]
      exact hselected
    · exact h.marked revision.2 hinvalidated
  · intro h
    constructor
    · intro r hinvalidated
      rw [heq]
      exact marked_sanitizedReplay.mpr hinvalidated
    · intro k revision hkept hmarked
      rw [heq] at hkept hmarked
      rw [revisions_keptFacts, Mapping.value?_keep] at hkept
      split at hkept
      · next hnot => exact hnot (dropped_iff.mpr (h k revision hkept (marked_sanitizedReplay.mp hmarked)))
      · cases hkept
    · intro k revision hselected hmarked
      rw [heq] at hmarked ⊢
      have hdropped := dropped_iff.mpr (h k revision hselected (marked_sanitizedReplay.mp hmarked))
      exact (value?_prompts_keptFacts _ _).trans (if_pos hdropped)
    · exact sanitizeRevisionReplay_again hcanonical

/-! ### A source and its alias -/

/-- A message that was edited under its own event and under its discovery alias. -/
def edited : TurnRecord where
  sourceEventIds := ["$s"]
  discoveryEventIds := ["$d"]
  sourceEventMetadata := some (Mapping.set ∅ "$s" { sender := "@u:hs", discoveryEventId := some "$d" })
  sourceEventPrompts := Mapping.set ∅ "$s" "deleted text"
  sourceEventRevisions := (Mapping.set ∅ "$s" (1, "$r1")).set "$d" (2, "$r2")

/-- The redaction of the alias's edit leaves its selection and the prompt. -/
theorem not_sanitized_alias : ¬ Sanitized edited.canonicalize none ["$r2"] := by
  intro h
  apply h.unselected "$d" (2, "$r2")
  · decide +kernel
  · exact ⟨{ sourceEventId := "$s", timestampMs := 2, redacted := true, cleanupPending := true }, by decide +kernel⟩

end RevisionSanitizing

end MindRoom
