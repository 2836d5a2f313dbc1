import MindRoom.Mapping
import Mathlib.Data.Prod.Lex
import Mathlib.Data.String.Basic

/-! # Canonical durable facts for one Matrix turn

A turn record is the decoded `record_json` of `turn_records`. Its optional maps but the source
metadata are written as nothing where they are empty and read as empty where they are missing,
so they are plain mappings here. `canonicalize` is `canonicalize_turn_record`: every function
that builds a record ends in it.
-/

namespace MindRoom

structure SourceEventMetadata where
  sender : String
  timestampMs : Option Nat := none
  discoveryEventId : Option String := none
deriving DecidableEq

abbrev SourceEventRevision := Int × String

/-- Physical edit provenance, independent of source completion and selection. -/
structure RevisionReplay where
  sourceEventId : String
  timestampMs : Int
  redacted : Bool := false
  cleanupPending : Bool := false
  responseEventId : Option String := none
  legacySummaryProvenance : Bool := false
deriving DecidableEq

inductive HistoryScopeKind where
  | agent
  | team
deriving DecidableEq

structure HistoryScope where
  kind : HistoryScopeKind
  scopeId : { s : String // s ≠ "" }
deriving DecidableEq

structure MessageTarget where
  roomId : { s : String // s ≠ "" }
  sourceThreadId : Option { s : String // s ≠ "" }
  resolvedThreadId : Option { s : String // s ≠ "" }
  replyToEventId : Option { s : String // s ≠ "" }
  sessionId : { s : String // s ≠ "" }
deriving DecidableEq

/-- Canonical immutable identity, outcome, and regeneration facts for one turn. -/
structure TurnRecord where
  sourceEventIds : List String
  discoveryEventIds : List String := []
  redactedSourceEventIds : List String := []
  pendingRedactionCleanupEventIds : List String := []
  anchorEventId : Option String := none
  responseEventId : Option String := none
  completed : Bool := true
  visibleEchoEventId : Option String := none
  visibleEchoIsFallback : Option Bool := none
  sourceEventPrompts : Mapping String String := ∅
  sourceEventRevisions : Mapping String SourceEventRevision := ∅
  revisionReplay : Mapping String RevisionReplay := ∅
  suppressedSourceEventRevisions : Mapping String SourceEventRevision := ∅
  latestEditReceiptOrder : Option Int := none
  userStopReceiptOrder : Option Int := none
  userStopSettledReceiptOrder : Option Int := none
  sourceEventMetadata : Option (Mapping String SourceEventMetadata) := none
  responseOwner : Option String := none
  requesterId : Option String := none
  correlationId : Option String := none
  commandExecutionStarted : Bool := false
  commandResultText : Option String := none
  historyScope : Option HistoryScope := none
  conversationTarget : Option MessageTarget := none
  timestamp : Int := 0
deriving DecidableEq

/-! ## Canonical values -/

def canonicalSourceEventIds (sourceEventIds : List String) : List String :=
  sourceEventIds.foldl (fun normalized eventId =>
    if eventId = "" ∨ eventId ∈ normalized then normalized else normalized ++ [eventId]) []

/-- Return a non-empty string or none. -/
def canonicalOptionalString (value : Option String) : Option String := value.filter (· ≠ "")

def positiveIntOrNone (value : Option Int) : Option Int := value.filter (0 < ·)

/-- Return the physical prompt owner for a source or discovery alias. -/
def promptSourceEventId (sourceEventIds : List String)
    (sourceEventMetadata : Option (Mapping String SourceEventMetadata)) (eventId : String) : String :=
  if eventId ∈ sourceEventIds then eventId
  else
    match (sourceEventMetadata.getD ∅).rows.find?
        (fun item => item.value.discoveryEventId = some eventId) with
    | some item => item.key
    | none => eventId

namespace TurnRecord

/-- Canonical source IDs followed by non-source discovery aliases. -/
def indexedEventIds (record : TurnRecord) : List String :=
  record.sourceEventIds ++ record.discoveryEventIds

/-- Return the physical prompt owner for a source or discovery alias. -/
def promptSourceEventId (record : TurnRecord) (eventId : String) : String :=
  MindRoom.promptSourceEventId record.sourceEventIds record.sourceEventMetadata eventId

def isCoalesced (record : TurnRecord) : Bool := 1 < record.sourceEventIds.length

def SourcesRedacted (record : TurnRecord) : Prop :=
  ∀ e ∈ record.sourceEventIds, e ∈ record.redactedSourceEventIds

instance (record : TurnRecord) : Decidable record.SourcesRedacted :=
  inferInstanceAs (Decidable (∀ e ∈ record.sourceEventIds, _))

/-! ## The canonical record -/

/-- `_canonical_source_state`: the source identity, with every source-owned fact cut down to the
sources and aliases it may be about. -/
def canonicalSources (record : TurnRecord) : TurnRecord :=
  let sources := canonicalSourceEventIds record.sourceEventIds
  let discovery := (canonicalSourceEventIds record.discoveryEventIds).filter (· ∉ sources)
  let indexed := sources ++ discovery
  let redactions := (canonicalSourceEventIds record.redactedSourceEventIds).filter (· ∈ indexed)
  let metadata := record.sourceEventMetadata.map fun metadata =>
    Mapping.collect (sources.filter (· ∉ redactions)) metadata.value?
  let redactedPromptSources := redactions.map (MindRoom.promptSourceEventId sources metadata)
  let revisions (raw : Mapping String SourceEventRevision) :=
    Mapping.collect (indexed.filter (· ∉ redactions)) fun e => (raw.value? e).filter (·.2 ≠ "")
  { record with
    sourceEventIds := sources
    discoveryEventIds := discovery
    redactedSourceEventIds := redactions
    pendingRedactionCleanupEventIds :=
      (canonicalSourceEventIds record.pendingRedactionCleanupEventIds).filter (· ∈ redactions)
    anchorEventId := (canonicalOptionalString record.anchorEventId).or sources.getLast?
    sourceEventPrompts :=
      Mapping.collect (sources.filter (· ∉ redactedPromptSources)) record.sourceEventPrompts.value?
    sourceEventRevisions := revisions record.sourceEventRevisions
    suppressedSourceEventRevisions := revisions record.suppressedSourceEventRevisions
    sourceEventMetadata := metadata }

/-- `_canonical_delivery_state`, `_canonical_dispatch_state`, `_canonical_command_state` and
`_canonical_context_state`. -/
def canonicalState (record : TurnRecord) : TurnRecord :=
  let echoId := canonicalOptionalString record.visibleEchoEventId
  let userStop := positiveIntOrNone record.userStopReceiptOrder
  let result := canonicalOptionalString record.commandResultText
  { record with
    responseEventId := canonicalOptionalString record.responseEventId
    visibleEchoEventId := echoId
    visibleEchoIsFallback := if echoId = none then none else record.visibleEchoIsFallback
    latestEditReceiptOrder := positiveIntOrNone record.latestEditReceiptOrder
    userStopReceiptOrder := userStop
    -- a settled stop is one that was received
    userStopSettledReceiptOrder :=
      (positiveIntOrNone record.userStopSettledReceiptOrder).filter
        fun settled => userStop.any (settled ≤ ·)
    commandExecutionStarted := record.commandExecutionStarted || result.isSome
    commandResultText := result
    responseOwner := canonicalOptionalString record.responseOwner
    requesterId := canonicalOptionalString record.requesterId
    correlationId := canonicalOptionalString record.correlationId }

def canonicalize (record : TurnRecord) : TurnRecord := record.canonicalSources.canonicalState

/-- What the codec reads of the metadata of one source: nothing of a source without a sender. -/
def readMetadata (metadata : SourceEventMetadata) : Option SourceEventMetadata :=
  if metadata.sender = "" then none
  else some { metadata with discoveryEventId := canonicalOptionalString metadata.discoveryEventId }

def readSourceEventMetadata (metadata : Mapping String SourceEventMetadata) :
    Mapping String SourceEventMetadata :=
  Mapping.collect metadata.keys fun e => (metadata.value? e).bind readMetadata

/-- Parse one record from the current ledger schema. The record is the decoded object; what else the
codec drops while reading it is what `canonicalize` drops. -/
def fromLedgerRecord (eventId : String) (rawRecord : TurnRecord) : Option TurnRecord :=
  if canonicalOptionalString rawRecord.anchorEventId = none ∨
      canonicalSourceEventIds rawRecord.sourceEventIds = [] then none
  else
    let record := { rawRecord with
      revisionReplay := rawRecord.revisionReplay.mapValues fun _ revision =>
        { revision with responseEventId := canonicalOptionalString revision.responseEventId }
      sourceEventMetadata := rawRecord.sourceEventMetadata.map readSourceEventMetadata }
    let record := record.canonicalize
    if eventId ∈ record.indexedEventIds then some record else none

end TurnRecord

/-! ## Merging -/

def SameTurnIdentity (first second : TurnRecord) : Prop :=
  first.sourceEventIds = second.sourceEventIds ∧ first.anchorEventId = second.anchorEventId

instance (first second : TurnRecord) : Decidable (SameTurnIdentity first second) :=
  inferInstanceAs (Decidable (_ ∧ _))

/-- `first or second`, for optional strings. -/
def stringOr (first second : Option String) : Option String :=
  (canonicalOptionalString first).or second

/-- `max(first or 0, second or 0) or None`. -/
def maxOrder (first second : Option Int) : Option Int :=
  some (max (first.getD 0) (second.getD 0)) |>.filter (· ≠ 0)

/-- Retain historical summary ownership across current replay updates. -/
def preserveSummaryProvenance (current previous : RevisionReplay) : RevisionReplay :=
  if previous.legacySummaryProvenance then { current with legacySummaryProvenance := true }
  else current

/-- What a revision of the authority makes of the candidate's. Acknowledgement is final for one
physical revision, and only a record that has it may clear its cleanup. -/
def RevisionReplay.join (old : RevisionReplay) (new : Option RevisionReplay) : RevisionReplay :=
  let joined := match new with
    | none => old
    | some new =>
      if old.redacted ∧ ¬ new.redacted then old
      else if old.redacted ∧ new.redacted then
        { old with
          cleanupPending := old.cleanupPending && new.cleanupPending
          responseEventId := stringOr old.responseEventId new.responseEventId }
      else if old.responseEventId ≠ none ∧ new.responseEventId = none then
        { new with responseEventId := old.responseEventId }
      else new
  preserveSummaryProvenance joined old

namespace TurnRecord

/-- The candidate's provenance, with one entry for each revision it selected. -/
def selectedReplay (candidate : TurnRecord) : Mapping String RevisionReplay :=
  candidate.sourceEventRevisions.rows.foldl (fun replay item =>
    let promptSource := candidate.promptSourceEventId item.key
    if item.value.2 ≠ promptSource then
      replay.setdefault item.value.2 { sourceEventId := promptSource, timestampMs := item.value.1 }
    else replay) candidate.revisionReplay

/-- Join what the authority knows into the candidate's provenance. -/
def joinReplay (replay authority : Mapping String RevisionReplay) : Mapping String RevisionReplay :=
  replay.joinWith RevisionReplay.join authority

/-- Mark the revisions whose own event is tombstoned. -/
def tombstoneReplay (replay : Mapping String RevisionReplay) (tombstonedEventIds : List String) :
    Mapping String RevisionReplay :=
  tombstonedEventIds.foldl (fun replay e =>
    match replay.value? e with
    | some value =>
      if value.redacted then replay
      else replay.set e { value with redacted := true, cleanupPending := true }
    | none => replay) replay

/-- Drop the prompt and the selected revision of one source with a redacted revision, unless
what it selected still stands. -/
def dropInvalidSource (candidate : TurnRecord) (replay : Mapping String RevisionReplay)
    (facts : Mapping String String × Mapping String SourceEventRevision) (source : String) :
    Mapping String String × Mapping String SourceEventRevision :=
  let selected := facts.2.rows.find? (fun item => candidate.promptSourceEventId item.key = source)
  if selected.all (fun item => (replay.value? item.value.2).any (·.redacted)) then
    (facts.1.pop source, facts.2.keep (candidate.promptSourceEventId · ≠ source))
  else facts

end TurnRecord

/-- Join monotonic invalidation before removing any candidate provenance. -/
def sanitizeRevisionReplay (candidate : TurnRecord) (authority : Option TurnRecord)
    (tombstonedEventIds : List String) : TurnRecord :=
  let replay := candidate.selectedReplay
  let replay := TurnRecord.joinReplay replay (authority.elim ∅ (·.revisionReplay))
  let replay := TurnRecord.tombstoneReplay replay tombstonedEventIds
  let invalidSources := ((replay.values.filter (·.redacted)).map (·.sourceEventId)).dedup
  let facts := invalidSources.foldl (candidate.dropInvalidSource replay)
    (candidate.sourceEventPrompts, candidate.sourceEventRevisions)
  { candidate with
    revisionReplay := replay
    sourceEventPrompts := facts.1
    sourceEventRevisions := facts.2 }.canonicalize

/-- Merge source prompts and revisions by canonical Matrix revision. -/
def mergeEditFacts (ledger recovery : TurnRecord) :
    Mapping String String × Mapping String SourceEventRevision :=
  let recovery := sanitizeRevisionReplay recovery (some ledger) []
  let prompts := ledger.sourceEventPrompts.merge recovery.sourceEventPrompts
  let revisions := recovery.sourceEventRevisions.keep fun e =>
    recovery.sourceEventPrompts.value? (recovery.promptSourceEventId e) ≠ none
  ledger.sourceEventRevisions.rows.foldl (fun facts item =>
    let promptEventId := ledger.promptSourceEventId item.key
    match ledger.sourceEventPrompts.value? promptEventId with
    | some prompt =>
      if toLex ((facts.2.value? item.key).getD item.value) ≤ toLex item.value then
        (facts.1.set promptEventId prompt, facts.2.set item.key item.value)
      else facts
    | none => facts) (prompts, revisions)

/-- Attribute only this generated snapshot's selected revisions to its answer. -/
def completedResponseRecord (record : TurnRecord) (responseEventId : String)
    (consumedRevisions : Option (List SourceEventRevision)) : TurnRecord :=
  let selected := consumedRevisions.getD record.sourceEventRevisions.values
  let record := sanitizeRevisionReplay record none []
  let replay := selected.foldl (fun replay revision =>
    match replay.value? revision.2 with
    | some value => replay.set revision.2 { value with responseEventId := some responseEventId }
    | none => replay) record.revisionReplay
  { record with
    responseEventId := some responseEventId
    completed := true
    revisionReplay := replay }.canonicalize

/-- Two facts of which both are known and differ. -/
def Disagree {α : Type} (before after : Option α) : Prop :=
  before ≠ none ∧ after ≠ none ∧ before ≠ after

instance {α : Type} [DecidableEq α] (before after : Option α) : Decidable (Disagree before after) :=
  inferInstanceAs (Decidable (_ ∧ _ ∧ _))

/-- Two records that cannot be of one turn with one owner, requester, target and scope. -/
def Mismatched (current committed : TurnRecord) : Prop :=
  ¬ SameTurnIdentity current committed ∨
    Disagree current.responseOwner committed.responseOwner ∨
    Disagree current.requesterId committed.requesterId ∨
    Disagree current.conversationTarget committed.conversationTarget ∨
    Disagree current.historyScope committed.historyScope

instance (current committed : TurnRecord) : Decidable (Mismatched current committed) :=
  inferInstanceAs (Decidable (_ ∨ _ ∨ _ ∨ _ ∨ _))

/-- The responses a committed record proves, put back where sanitising it kept none. -/
def restoreProofs (proofs replay : Mapping String RevisionReplay) : Mapping String RevisionReplay :=
  proofs.rows.foldl (fun replay item =>
    match item.value.responseEventId, replay.value? item.key with
    | some responseEventId, some value =>
      replay.set item.key
        { value with responseEventId := stringOr value.responseEventId (some responseEventId) }
    | _, _ => replay) replay

/-- Join delivered proof with current authority without inventing consumed revisions. -/
def mergeCommittedResponse (current : Option TurnRecord) (committed : TurnRecord)
    (tombstonedEventIds : List String) : Option TurnRecord :=
  match current with
  | none => some (sanitizeRevisionReplay committed none tombstonedEventIds)
  | some current =>
    if Mismatched current committed then none
    else
      let proofs := committed.revisionReplay
      let committed := sanitizeRevisionReplay committed (some current) tombstonedEventIds
      let replay := restoreProofs proofs committed.revisionReplay
      let facts := mergeEditFacts current committed
      let merged := { current with
        responseEventId := stringOr current.responseEventId committed.responseEventId
        completed := true
        sourceEventPrompts := facts.1
        sourceEventRevisions := facts.2
        revisionReplay := replay
        latestEditReceiptOrder :=
          maxOrder current.latestEditReceiptOrder committed.latestEditReceiptOrder
        timestamp := max current.timestamp committed.timestamp }.canonicalize
      some (sanitizeRevisionReplay merged none tombstonedEventIds)

end MindRoom
