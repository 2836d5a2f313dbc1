import Mathlib
import MindRoom.Json

/-! # The published knowledge index state

`knowledge/index_metadata.py` with the marks of `knowledge/registry.py`: the one state document of
a knowledge base, what a publication leaves in it, and what each mark makes of the document it
loaded. Every writer replaces the whole document. The collections a sweep may delete are those
that carry the names of the base.
-/

namespace MindRoom

inductive KnowledgeBaseMode where
  | semantic
  | files
deriving DecidableEq

/-- Typed schema for settings that determine knowledge index compatibility. -/
structure IndexingSettings where
  baseId : String
  storageRoot : String
  knowledgePath : String
  mode : KnowledgeBaseMode
  embedderProvider : String
  embedderModel : String
  embedderHost : String
  embedderDimensions : String
  chunkSize : String
  chunkOverlap : String
  repoIdentity : String
  gitBranch : String
  gitLfs : String
  gitSkipHidden : String
  gitIncludePatterns : String
  gitExcludePatterns : String
  includePatterns : String
  excludePatterns : String
  includeExtensions : String
  excludeExtensions : String
  extraExtensions : String := ""
  skipHidden : String := ""
  requireContentBeforePublish : String := ""
deriving DecidableEq

namespace KnowledgeBaseMode

def value : KnowledgeBaseMode → String
  | .semantic => "semantic"
  | .files => "files"

def ofValue : String → Option KnowledgeBaseMode
  | "semantic" => some .semantic
  | "files" => some .files
  | _ => none

end KnowledgeBaseMode

namespace IndexingSettings

def emptyFilterKey : String := "()"

def toMetadata (s : IndexingSettings) : List (String × String) :=
  [("base_id", s.baseId), ("storage_root", s.storageRoot), ("knowledge_path", s.knowledgePath),
    ("mode", s.mode.value), ("embedder_provider", s.embedderProvider),
    ("embedder_model", s.embedderModel), ("embedder_host", s.embedderHost),
    ("embedder_dimensions", s.embedderDimensions), ("chunk_size", s.chunkSize),
    ("chunk_overlap", s.chunkOverlap), ("repo_identity", s.repoIdentity),
    ("git_branch", s.gitBranch), ("git_lfs", s.gitLfs), ("git_skip_hidden", s.gitSkipHidden),
    ("git_include_patterns", s.gitIncludePatterns), ("git_exclude_patterns", s.gitExcludePatterns),
    ("include_patterns", s.includePatterns), ("exclude_patterns", s.excludePatterns),
    ("include_extensions", s.includeExtensions), ("exclude_extensions", s.excludeExtensions),
    ("extra_extensions", s.extraExtensions), ("skip_hidden", s.skipHidden),
    ("require_content_before_publish", s.requireContentBeforePublish)]

def requiredKeys : List String :=
  ["base_id", "storage_root", "knowledge_path", "mode", "embedder_provider", "embedder_model",
    "embedder_host", "embedder_dimensions", "chunk_size", "chunk_overlap", "repo_identity",
    "git_branch", "git_lfs", "git_skip_hidden", "git_include_patterns", "git_exclude_patterns",
    "include_extensions", "exclude_extensions"]

def optionalKeys : List String :=
  ["include_patterns", "exclude_patterns", "extra_extensions", "skip_hidden", "require_content_before_publish"]

/-- `from_metadata`, with `normalize_legacy_indexing_settings`. -/
def fromMetadata (settings : List (String × String)) : Option IndexingSettings :=
  let value (name : String) : String := (settings.lookup name).getD ""
  -- `_optional_filter_key`: an absent or empty filter is the empty one
  let orElse (name empty : String) : String := if value name = "" then empty else value name
  if (∀ name ∈ requiredKeys, name ∈ settings.map (·.1)) ∧
      (∀ name ∈ settings.map (·.1), name ∈ requiredKeys ++ optionalKeys) then
    (KnowledgeBaseMode.ofValue (value "mode")).map fun mode =>
      { baseId := value "base_id"
        storageRoot := value "storage_root"
        knowledgePath := value "knowledge_path"
        mode := mode
        embedderProvider := value "embedder_provider"
        embedderModel := value "embedder_model"
        embedderHost := value "embedder_host"
        embedderDimensions := value "embedder_dimensions"
        chunkSize := value "chunk_size"
        chunkOverlap := value "chunk_overlap"
        repoIdentity := value "repo_identity"
        gitBranch := value "git_branch"
        gitLfs := value "git_lfs"
        gitSkipHidden := value "git_skip_hidden"
        gitIncludePatterns := value "git_include_patterns"
        gitExcludePatterns := value "git_exclude_patterns"
        includePatterns := orElse "include_patterns" emptyFilterKey
        excludePatterns := orElse "exclude_patterns" emptyFilterKey
        includeExtensions := value "include_extensions"
        excludeExtensions := value "exclude_extensions"
        extraExtensions := orElse "extra_extensions" (if mode = .semantic then emptyFilterKey else "")
        skipHidden := value "skip_hidden"
        requireContentBeforePublish := value "require_content_before_publish" }
  else none

/-- What is read back of settings: empty filters have the current spelling. -/
def normalized (s : IndexingSettings) : IndexingSettings :=
  { s with
    includePatterns := if s.includePatterns = "" then emptyFilterKey else s.includePatterns
    excludePatterns := if s.excludePatterns = "" then emptyFilterKey else s.excludePatterns
    extraExtensions :=
      if s.extraExtensions = "" then (if s.mode = .semantic then emptyFilterKey else "") else s.extraExtensions }

end IndexingSettings

/-- The settings of a semantic base without filters. -/
def plainSettings : IndexingSettings where
  baseId := "docs"
  storageRoot := "/s"
  knowledgePath := "/k"
  mode := .semantic
  embedderProvider := "openai"
  embedderModel := "m"
  embedderHost := ""
  embedderDimensions := ""
  chunkSize := "5000"
  chunkOverlap := "0"
  repoIdentity := ""
  gitBranch := ""
  gitLfs := ""
  gitSkipHidden := ""
  gitIncludePatterns := ""
  gitExcludePatterns := ""
  includePatterns := "()"
  excludePatterns := "()"
  includeExtensions := ""
  excludeExtensions := "()"

inductive PublishedIndexStatus where
  | resetting
  | indexing
  | complete
  | failed
deriving DecidableEq

inductive RefreshJob where
  | idle
  | pending
  | running
  | failed
deriving DecidableEq

/-- Persisted state for the published knowledge index: one publication, and the refresh job
around it. -/
structure PublishedIndexState where
  settings : IndexingSettings
  status : PublishedIndexStatus
  collection : Option String := none
  lastPublishedAt : Option String := none
  publishedRevision : Option String := none
  indexedCount : Option Nat := none
  sourceSignature : Option String := none
  refreshJob : RefreshJob := .idle
  reason : Option String := none
  lastError : Option String := none
  updatedAt : Option String := none
  lastRefreshAt : Option String := none
  consecutiveRefreshFailures : Nat := 0
deriving DecidableEq

/-! ## The document -/

/-- `_optional_str`: an empty text is no text. -/
def optionalStr (value : Option String) : Option String := value.filter (· ≠ "")

def PublishedIndexState.RecordsAPublication (state : PublishedIndexState) : Prop :=
  state.indexedCount ≠ none ∧ state.sourceSignature ≠ none ∧
    (state.collection ≠ none ∨ state.settings.mode = .files)

instance (state : PublishedIndexState) : Decidable state.RecordsAPublication := by
  unfold PublishedIndexState.RecordsAPublication
  infer_instance

def PublishedIndexState.parsed (payload : PublishedIndexState) : PublishedIndexState :=
  { payload with
    collection := optionalStr payload.collection
    lastPublishedAt := optionalStr payload.lastPublishedAt
    publishedRevision := optionalStr payload.publishedRevision
    sourceSignature := optionalStr payload.sourceSignature
    reason := optionalStr payload.reason
    lastError := optionalStr payload.lastError
    updatedAt := optionalStr payload.updatedAt
    lastRefreshAt := optionalStr payload.lastRefreshAt }

/-- `load_published_index_state`, of the document in the file. -/
def loadPublishedIndexState (payload : Option PublishedIndexState) : Option PublishedIndexState :=
  payload.bind fun payload =>
    let state := payload.parsed
    -- a complete record that does not say what it published is corrupt
    if state.status = .complete ∧ ¬ state.RecordsAPublication then none else some state

/-- What one publication of a candidate says. None of its texts is empty. -/
structure CandidatePublication where
  settings : IndexingSettings
  collection : String
  indexedCount : Nat
  sourceSignature : String
  publishedRevision : Option String
  collection_ne : collection ≠ "" := by decide
  sourceSignature_ne : sourceSignature ≠ "" := by decide
  publishedRevision_ne : publishedRevision ≠ some "" := by decide
deriving DecidableEq

/-- `state_for_publication`. -/
def CandidatePublication.state (publication : CandidatePublication) (now : String) : PublishedIndexState where
  settings := publication.settings
  status := .complete
  collection := some publication.collection
  lastPublishedAt := some now
  publishedRevision := publication.publishedRevision
  indexedCount := some publication.indexedCount
  sourceSignature := some publication.sourceSignature
  refreshJob := .idle
  reason := none
  lastError := none
  updatedAt := some now
  lastRefreshAt := some now
  consecutiveRefreshFailures := 0

/-! ## The marks

What a mark saves, from what it loaded: `current`. The settings are those of the key the mark
is for.
-/

def stateWithRefreshFields (settings : IndexingSettings) (refreshJob : RefreshJob)
    (statusWhenMissing : PublishedIndexStatus) (reason lastError : Option String) (now : String)
    (current : Option PublishedIndexState) : PublishedIndexState :=
  match current with
  | none =>
    { settings := settings
      status := statusWhenMissing
      refreshJob := refreshJob
      reason := reason
      lastError := lastError
      updatedAt := some now
      lastRefreshAt := if refreshJob = .idle ∨ refreshJob = .failed then some now else none }
  | some current =>
    { current with
      refreshJob := refreshJob
      reason := reason
      lastError := lastError
      updatedAt := some now
      lastRefreshAt :=
        if refreshJob = .idle ∨ refreshJob = .failed then some now else current.lastRefreshAt }

def markPublishedIndexStale (settings : IndexingSettings) (reason : String) (refreshJob : RefreshJob)
    (now : String) (current : Option PublishedIndexState) : PublishedIndexState :=
  stateWithRefreshFields settings refreshJob .indexing (some reason) none now current

def markPublishedIndexRefreshRunning (settings : IndexingSettings) (now : String)
    (current : Option PublishedIndexState) : PublishedIndexState :=
  stateWithRefreshFields settings .running .indexing (some "refreshing") none now current

/-- `mark_published_index_refresh_failed_preserving_last_good`, which loads the document twice. -/
def markPublishedIndexRefreshFailed (settings : IndexingSettings) (error now : String)
    (current again : Option PublishedIndexState) : PublishedIndexState :=
  let state := stateWithRefreshFields settings .failed .failed (some "refresh_failed") (some error) now again
  let failures := (current.elim 0 (·.consecutiveRefreshFailures)) + 1
  { state with
    consecutiveRefreshFailures := failures
    status := if current.any (·.status = .complete) then .complete else state.status }

/-- `mark_published_index_refresh_succeeded`: nothing is saved when nothing was loaded. -/
def markPublishedIndexRefreshSucceeded (now : String) (current : Option PublishedIndexState) :
    Option PublishedIndexState :=
  current.map fun state =>
    { state with
      refreshJob := .idle
      reason := none
      lastError := none
      updatedAt := some now
      lastRefreshAt := some now
      consecutiveRefreshFailures := 0 }

/-! ## The sweep -/

/-- `cleanup_superseded_collections`: the listed collections it deletes. -/
def supersededCollections (defaultCollection : String) (preserved : List String) (candidatesOnly : Bool)
    (names : List String) : List String :=
  names.filter fun name => name ∉ preserved ∧
    (startswith name (defaultCollection ++ "_candidate_") ∨
      ¬ candidatesOnly ∧ name = defaultCollection)

/-! ## What a document says of publications -/

/-- The document is the one of this publication: it is complete, and its settings, collection,
revision, indexed count and source signature are the publication's. -/
structure PublishedIndexState.Records (state : PublishedIndexState)
    (publication : CandidatePublication) : Prop where
  settings : state.settings = publication.settings
  status : state.status = .complete
  collection : state.collection = some publication.collection
  publishedRevision : state.publishedRevision = publication.publishedRevision
  indexedCount : state.indexedCount = some publication.indexedCount
  sourceSignature : state.sourceSignature = some publication.sourceSignature

/-- The document claims no publication. -/
structure PublishedIndexState.Unpublished (state : PublishedIndexState) : Prop where
  status : state.status ≠ .complete
  collection : state.collection = none
  publishedRevision : state.publishedRevision = none
  indexedCount : state.indexedCount = none
  sourceSignature : state.sourceSignature = none

/-- What a document, if there is one, says of the publications written so far, newest first. -/
def Tells (publications : List CandidatePublication) (state : Option PublishedIndexState) : Prop :=
  match publications with
  | [] => ∀ s ∈ state, s.Unpublished
  | publication :: _ => ∃ s, state = some s ∧ s.Records publication

section

variable {settings : IndexingSettings} {now error : String} {reason lastError : Option String}
  {job : RefreshJob} {missing : PublishedIndexStatus} {publications : List CandidatePublication}
  {publication : CandidatePublication} {state s : PublishedIndexState}
  {current again : Option PublishedIndexState}

@[simp] theorem optionalStr_none : optionalStr none = none := rfl

theorem optionalStr_some {text : String} (h : text ≠ "") : optionalStr (some text) = some text := by
  simp [optionalStr, h]

theorem optionalStr_of_ne {text : Option String} (h : text ≠ some "") : optionalStr text = text := by
  cases text with
  | none => rfl
  | some text => exact optionalStr_some fun he => h (congrArg some he)

/-- Two documents with the same publication fields record the same publications. -/
theorem PublishedIndexState.Records.congr (h : state.Records publication)
    (hsettings : s.settings = state.settings) (hstatus : s.status = state.status)
    (hcollection : s.collection = state.collection) (hrevision : s.publishedRevision = state.publishedRevision)
    (hcount : s.indexedCount = state.indexedCount)
    (hsignature : s.sourceSignature = state.sourceSignature) : s.Records publication :=
  ⟨hsettings.trans h.settings, hstatus.trans h.status, hcollection.trans h.collection,
    hrevision.trans h.publishedRevision, hcount.trans h.indexedCount, hsignature.trans h.sourceSignature⟩

theorem PublishedIndexState.Records.recordsAPublication (h : state.Records publication) :
    state.RecordsAPublication := by
  refine ⟨?_, ?_, .inl ?_⟩
  · rw [h.indexedCount]
    exact Option.some_ne_none _
  · rw [h.sourceSignature]
    exact Option.some_ne_none _
  · rw [h.collection]
    exact Option.some_ne_none _

theorem records_state : (publication.state now).Records publication := ⟨rfl, rfl, rfl, rfl, rfl, rfl⟩

theorem PublishedIndexState.Records.parsed (h : state.Records publication) : state.parsed.Records publication where
  settings := h.settings
  status := h.status
  collection := by
    show optionalStr state.collection = _
    rw [h.collection, optionalStr_some publication.collection_ne]
  publishedRevision := by
    show optionalStr state.publishedRevision = _
    rw [h.publishedRevision, optionalStr_of_ne publication.publishedRevision_ne]
  indexedCount := h.indexedCount
  sourceSignature := by
    show optionalStr state.sourceSignature = _
    rw [h.sourceSignature, optionalStr_some publication.sourceSignature_ne]

theorem PublishedIndexState.Unpublished.parsed (h : state.Unpublished) : state.parsed.Unpublished where
  status := h.status
  collection := by
    show optionalStr state.collection = none
    rw [h.collection, optionalStr_none]
  publishedRevision := by
    show optionalStr state.publishedRevision = none
    rw [h.publishedRevision, optionalStr_none]
  indexedCount := h.indexedCount
  sourceSignature := by
    show optionalStr state.sourceSignature = none
    rw [h.sourceSignature, optionalStr_none]

/-- Loading a document keeps what it says. -/
theorem Tells.load (h : Tells publications current) : Tells publications (loadPublishedIndexState current) := by
  cases publications with
  | nil =>
    intro s hs
    unfold loadPublishedIndexState at hs
    rcases current with _ | state
    · cases hs
    · have hstate := (h state rfl).parsed
      rw [Option.bind_some, if_neg fun hc => hstate.status hc.1] at hs
      obtain rfl : state.parsed = s := Option.some.inj hs
      exact hstate
  | cons publication older =>
    rcases h with ⟨state, rfl, hstate⟩
    refine ⟨state.parsed, ?_, hstate.parsed⟩
    unfold loadPublishedIndexState
    rw [Option.bind_some, if_neg fun hc => hc.2 hstate.parsed.recordsAPublication]

/-- A mark keeps what the document it loaded says. -/
theorem Tells.refreshFields (hmissing : missing ≠ .complete) (h : Tells publications current) :
    Tells publications (some (stateWithRefreshFields settings job missing reason lastError now current)) := by
  cases publications with
  | nil =>
    rintro s ⟨⟩
    cases current with
    | none => exact ⟨hmissing, rfl, rfl, rfl, rfl⟩
    | some state =>
      have hstate := h state rfl
      exact ⟨hstate.status, hstate.collection, hstate.publishedRevision, hstate.indexedCount, hstate.sourceSignature⟩
  | cons publication older =>
    rcases h with ⟨state, rfl, hstate⟩
    exact ⟨_, rfl, hstate.congr rfl rfl rfl rfl rfl rfl⟩

theorem Tells.stale (h : Tells publications current) (reason : String) :
    Tells publications (some (markPublishedIndexStale settings reason job now current)) :=
  h.refreshFields (by decide)

theorem Tells.running (h : Tells publications current) :
    Tells publications (some (markPublishedIndexRefreshRunning settings now current)) :=
  h.refreshFields (by decide)

theorem Tells.failed (h : Tells publications current) (hagain : Tells publications again) :
    Tells publications (some (markPublishedIndexRefreshFailed settings error now current again)) := by
  have hstate : Tells publications (some (stateWithRefreshFields settings .failed .failed
      (some "refresh_failed") (some error) now again)) := hagain.refreshFields (by decide)
  unfold markPublishedIndexRefreshFailed
  generalize stateWithRefreshFields settings .failed .failed (some "refresh_failed") (some error) now again
    = state at hstate
  cases publications with
  | nil =>
    rintro s ⟨⟩
    have hstate := hstate state rfl
    have hcurrent : current.any (fun s => decide (s.status = .complete)) = false := by
      cases current with
      | none => rfl
      | some loaded => simpa using (h loaded rfl).status
    refine ⟨?_, hstate.collection, hstate.publishedRevision, hstate.indexedCount, hstate.sourceSignature⟩
    simpa [hcurrent] using hstate.status
  | cons publication older =>
    rcases hstate with ⟨_, ⟨⟩, hstate⟩
    refine ⟨_, rfl, hstate.congr rfl ?_ rfl rfl rfl rfl⟩
    simp [hstate.status]

theorem Tells.succeeded (h : Tells publications current)
    (hs : markPublishedIndexRefreshSucceeded now current = some s) : Tells publications (some s) := by
  rcases current with _ | state
  · cases hs
  obtain rfl := Option.some.inj hs
  cases publications with
  | nil =>
    rintro s ⟨⟩
    have hstate := h state rfl
    exact ⟨hstate.status, hstate.collection, hstate.publishedRevision, hstate.indexedCount, hstate.sourceSignature⟩
  | cons publication older =>
    rcases h with ⟨_, ⟨⟩, hstate⟩
    exact ⟨_, rfl, hstate.congr rfl rfl rfl rfl rfl rfl⟩

end

end MindRoom
