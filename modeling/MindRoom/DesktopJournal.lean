import Mathlib
import MindRoom.Questions

/-! # The desktop command journal

`desktop/command_journal.py` with the commands and responses of `desktop/protocol.py`: the bounded
record of started and completed desktop commands, the highest sequence of each session, and the
file they are persisted in. The file holds the items of the two mappings in order.
-/

namespace MindRoom

inductive DesktopAction where
  | status
  | listApps
  | launchApp
  | getAppState
  | screenshot
  | clickElement
  | setValue
  | scrollElement
  | performAction
  | click
  | typeText
  | scroll
  | keypress
  | browserObserve
  | browserControl
deriving DecidableEq

def DesktopAction.value : DesktopAction → String
  | .status => "status"
  | .listApps => "list_apps"
  | .launchApp => "launch_app"
  | .getAppState => "get_app_state"
  | .screenshot => "screenshot"
  | .clickElement => "click_element"
  | .setValue => "set_value"
  | .scrollElement => "scroll_element"
  | .performAction => "perform_action"
  | .click => "click"
  | .typeText => "type_text"
  | .scroll => "scroll"
  | .keypress => "keypress"
  | .browserObserve => "browser_observe"
  | .browserControl => "browser_control"

def desktopControlActions : List DesktopAction :=
  [.launchApp, .clickElement, .setValue, .scrollElement, .performAction, .click, .typeText, .scroll,
    .keypress, .browserControl]

def desktopBrowserActions : List DesktopAction := [.browserObserve, .browserControl]

/-- One short-lived desktop action request. -/
structure DesktopCommand where
  requestId : String
  sessionId : String
  sequence : Int
  issuedAtMs : Int
  expiresAtMs : Int
  action : DesktopAction
  requesterId : String
  agentName : String
  parameters : List (String × Json) := []
deriving DecidableEq

/-- One encrypted Matrix media object carried inside an Olm response. -/
structure EncryptedDesktopMedia where
  url : String
  key : String
  iv : String
  sha256 : String
  mimeType : String
  size : Int
deriving DecidableEq

structure DesktopResponse where
  requestId : String
  sessionId : String
  ok : Bool
  result : List (String × Json) := []
  error : Option String := none
  screenshot : Option EncryptedDesktopMedia := none
deriving DecidableEq

/-- `_required_str` accepts the text. -/
def Required (text : String) : Prop := strip text ≠ []

/-- `_bounded_identifier` accepts the text. -/
def BoundedIdentifier (text : String) : Prop := Required text ∧ text.length ≤ 128

/-- `EncryptedDesktopMedia.from_content` accepts the content of the media. -/
def EncryptedDesktopMedia.Accepted (media : EncryptedDesktopMedia) : Prop :=
  media.url.startsWith "mxc://" ∧ 0 < media.size ∧ media.size ≤ 10 * 1024 * 1024 ∧
    (media.mimeType = "image/jpeg" ∨ media.mimeType = "image/png") ∧
    Required media.key ∧ Required media.iv ∧ Required media.sha256

/-- `DesktopResponse.from_content` accepts the content of the response. -/
def DesktopResponse.Accepted (response : DesktopResponse) : Prop :=
  (∀ error ∈ response.error, Required error) ∧ (response.ok → response.error = none) ∧
    (¬ response.ok → response.error ≠ none ∧ response.screenshot = none) ∧
    BoundedIdentifier response.requestId ∧ BoundedIdentifier response.sessionId ∧
    ∀ media ∈ response.screenshot, media.Accepted

instance : DecidablePred Required := fun _ => by
  unfold Required
  infer_instance

instance : DecidablePred BoundedIdentifier := fun _ => by
  unfold BoundedIdentifier
  infer_instance

instance : DecidablePred EncryptedDesktopMedia.Accepted := fun _ => by
  unfold EncryptedDesktopMedia.Accepted
  infer_instance

instance : DecidablePred DesktopResponse.Accepted := fun _ => by
  unfold DesktopResponse.Accepted
  infer_instance

structure DesktopCommandJournalEntry where
  commandFingerprint : String
  response : Option DesktopResponse
deriving DecidableEq

/-- Bounded record preventing control replay. -/
structure DesktopCommandJournal where
  entries : Mapping String DesktopCommandJournalEntry := ∅
  sequenceHighWatermarks : Mapping String Int := ∅
deriving DecidableEq

structure DesktopJournalPayload where
  v : Int
  entries : List (Mapping.Item String DesktopCommandJournalEntry)
  sequenceHighWatermarks : List (Mapping.Item String Int)
deriving DecidableEq

/-- The desktop command journal has an unsupported or malformed payload. -/
inductive DesktopJournalError where
  | malformed
  /-- The request was journaled with different command content. -/
  | differentContent (requestId : String)
deriving DecidableEq

namespace DesktopCommandJournal

def maxReplayResponses : Nat := 1024

def maxTrackedSessions : Nat := 128

/-- Return one previously started command without mutating replay order. -/
def get (journal : DesktopCommandJournal) (requestId : String) : Option DesktopCommandJournalEntry :=
  journal.entries.value? requestId

/-- Return the replay error for a non-increasing command sequence. -/
def sequenceError (journal : DesktopCommandJournal) (command : DesktopCommand) : Option String :=
  match journal.sequenceHighWatermarks.value? command.sessionId with
  | none => none
  | some previous =>
    if command.sequence ≤ previous then
      some "Desktop command sequence was already used or arrived out of order."
    else none

def prune (journal : DesktopCommandJournal) : DesktopCommandJournal where
  entries := journal.entries.keepLast maxReplayResponses
  sequenceHighWatermarks := journal.sequenceHighWatermarks.keepLast maxTrackedSessions

/-- What `remember_started` persists. -/
def withStarted (journal : DesktopCommandJournal) (command : DesktopCommand)
    (commandFingerprint : String) : DesktopCommandJournal where
  entries := journal.entries.setLast command.requestId ⟨commandFingerprint, none⟩
  sequenceHighWatermarks :=
    journal.sequenceHighWatermarks.setLast command.sessionId command.sequence

/-- What `remember_response` persists. -/
def withResponse (journal : DesktopCommandJournal) (command : DesktopCommand)
    (commandFingerprint : String) (response : DesktopResponse) : DesktopCommandJournal :=
  { journal with
    entries := journal.entries.setLast command.requestId ⟨commandFingerprint, some response⟩ }

/-- `remember_response` refuses a request that was journaled with other content. -/
def responseConflict (journal : DesktopCommandJournal) (command : DesktopCommand)
    (commandFingerprint : String) : Option DesktopJournalError :=
  match journal.entries.value? command.requestId with
  | none => none
  | some existing =>
    if existing.commandFingerprint ≠ commandFingerprint then
      some (.differentContent command.requestId)
    else none

/-- `_persist` writes this payload. -/
def payload (journal : DesktopCommandJournal) : DesktopJournalPayload :=
  ⟨1, journal.entries.rows, journal.sequenceHighWatermarks.rows⟩

def IsFingerprint (fingerprint : String) : Prop :=
  fingerprint.length = 64 ∧ ∀ c ∈ fingerprint.toList, c ∈ "0123456789abcdef".toList

-- the digits of the text are gone through, not all characters there are
instance : DecidablePred IsFingerprint := fun _ =>
  @instDecidableAnd _ _ inferInstance (List.decidableBAll _ _)

/-- A non-empty identifier of at most 128 characters. -/
def IsIdentifier (identifier : String) : Prop := identifier ≠ "" ∧ identifier.length ≤ 128

instance : DecidablePred IsIdentifier := fun _ => by
  unfold IsIdentifier
  infer_instance

def loadEntries (entries : Mapping String DesktopCommandJournalEntry) :
    List (Mapping.Item String DesktopCommandJournalEntry) →
      Except DesktopJournalError (Mapping String DesktopCommandJournalEntry)
  | [] => .ok entries
  | entry :: rest =>
    if ¬ IsIdentifier entry.key ∨ ¬ IsFingerprint entry.value.commandFingerprint ∨
        (entries.value? entry.key).isSome ∨
        ∃ response ∈ entry.value.response, ¬ response.Accepted ∨ response.requestId ≠ entry.key then
      .error .malformed
    else loadEntries (entries.set entry.key entry.value) rest

def loadSequences (sequences : Mapping String Int) :
    List (Mapping.Item String Int) → Except DesktopJournalError (Mapping String Int)
  | [] => .ok sequences
  | record :: rest =>
    if ¬ IsIdentifier record.key ∨ record.value < 0 ∨ (sequences.value? record.key).isSome then
      .error .malformed
    else loadSequences (sequences.set record.key record.value) rest

def loadPayload (payload : DesktopJournalPayload) :
    Except DesktopJournalError DesktopCommandJournal := do
  if payload.v ≠ 1 ∨ payload.entries.length > maxReplayResponses ∨
      payload.sequenceHighWatermarks.length > maxTrackedSessions then
    .error .malformed
  else
    let entries ← loadEntries ∅ payload.entries
    let sequences ← loadSequences ∅ payload.sequenceHighWatermarks
    .ok ⟨entries, sequences⟩

def load (file : Option DesktopJournalPayload) : Except DesktopJournalError DesktopCommandJournal :=
  match file with
  | none => .ok {}
  | some payload => loadPayload payload

/-! ## Loading what was persisted -/

theorem loadEntries_rows {rows : List (Mapping.Item String DesktopCommandJournalEntry)}
    {entries loaded : Mapping String DesktopCommandJournalEntry}
    (h : loadEntries entries rows = .ok loaded) : loaded.rows = entries.rows ++ rows := by
  induction rows generalizing entries with
  | nil =>
    cases h
    exact (List.append_nil _).symm
  | cons entry rest ih =>
    unfold loadEntries at h
    split at h
    · cases h
    · next hok =>
      have habsent : entries.value? entry.key = none := by
        cases hentry : entries.value? entry.key with
        | none => rfl
        | some value => exact absurd (.inr (.inr (.inl (by rw [hentry]; rfl)))) hok
      rw [ih h, Mapping.rows_set_of_absent habsent, List.append_assoc]
      rfl

theorem loadSequences_rows {rows : List (Mapping.Item String Int)} {sequences loaded : Mapping String Int}
    (h : loadSequences sequences rows = .ok loaded) : loaded.rows = sequences.rows ++ rows := by
  induction rows generalizing sequences with
  | nil =>
    cases h
    exact (List.append_nil _).symm
  | cons record rest ih =>
    unfold loadSequences at h
    split at h
    · cases h
    · next hok =>
      have habsent : sequences.value? record.key = none := by
        cases hrecord : sequences.value? record.key with
        | none => rfl
        | some value => exact absurd (.inr (.inr (by rw [hrecord]; rfl))) hok
      rw [ih h, Mapping.rows_set_of_absent habsent, List.append_assoc]
      rfl

theorem eq_of_rows {κ α : Type} {m m' : Mapping κ α} (h : m.rows = m'.rows) : m = m' := by
  cases m
  cases m'
  cases h
  rfl

/-- A journal that loads is the journal that was persisted. -/
theorem load_payload {journal loaded : DesktopCommandJournal}
    (h : load (some journal.payload) = .ok loaded) : loaded = journal := by
  replace h : loadPayload journal.payload = .ok loaded := h
  unfold loadPayload at h
  split at h
  · cases h
  · rcases Transaction.except_bind_eq_ok.mp h with ⟨entries, hentries, h⟩
    rcases Transaction.except_bind_eq_ok.mp h with ⟨sequences, hsequences, h⟩
    cases h
    have hentries : entries = journal.entries := eq_of_rows (loadEntries_rows hentries)
    have hsequences : sequences = journal.sequenceHighWatermarks :=
      eq_of_rows (loadSequences_rows hsequences)
    rw [hentries, hsequences]

end DesktopCommandJournal

end MindRoom
