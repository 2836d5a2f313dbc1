import MindRoom.JsonCuts
import MindRoom.KnowledgeIndexState
import MindRoom.Questions

/-! # The candidate checkpoint

`knowledge/candidate_checkpoint.py`: the snapshot of a candidate index, written atomically, and
the journal of the files indexed since, one JSON text a line. Loading replays the journal over the
snapshot. The two files are held as their texts; every text written is ASCII, so a cut at a byte
is a cut at a character.
-/

namespace MindRoom

open JsonText

/-! ## The records -/

/-- `FileSignature`: time stamp, size and content digest of one source file. -/
structure FileSignature where
  mtimeNs : Int
  size : Nat
  digest : String
  digest_ne : ¬ digest = "" := by decide
deriving DecidableEq

/-- Retry bookkeeping for one source file that could not be indexed. -/
@[ext] structure CandidateFailure where
  attempts : Nat := 0
  lastError : Option String := none
  lastAttemptAt : Option String := none
  lastError_ne : ¬ lastError = some "" := by decide
  lastAttemptAt_ne : ¬ lastAttemptAt = some "" := by decide
deriving DecidableEq

inductive CandidateStatus where
  | building
  | failed
deriving DecidableEq

def CandidateStatus.value : CandidateStatus → String
  | .building => "building"
  | .failed => "failed"

structure CandidateMaps where
  completed : Mapping String FileSignature := ∅
  failed : Mapping String CandidateFailure := ∅
deriving DecidableEq

/-- Resumable state for one in-progress candidate index. -/
structure CandidateCheckpoint where
  collection : String
  settings : IndexingSettings
  status : CandidateStatus := .building
  targetRevision : Option String := none
  totalFiles : Int := 0
  maps : CandidateMaps := {}
  createdAt : String := ""
  updatedAt : String := ""
  replayedJournalEntries : Nat := 0
  collection_ne : ¬ collection = "" := by decide
deriving DecidableEq

inductive JournalUpdate where
  | completed (signature : FileSignature)
  | failed (failure : CandidateFailure)
  | removed
deriving DecidableEq

structure JournalEntry where
  path : String
  update : JournalUpdate
  path_ne : ¬ path = "" := by decide
deriving DecidableEq

/-! ## Writing -/

def optionalText : Option String → Json
  | none => .null
  | some text => .str text

/-- `list(signature)`. -/
def FileSignature.json (signature : FileSignature) : Json :=
  .arr [.num signature.mtimeNs, .num signature.size, .str signature.digest]

def CandidateFailure.json (failure : CandidateFailure) : Json :=
  .obj [("attempts", .num failure.attempts), ("last_error", optionalText failure.lastError),
    ("last_attempt_at", optionalText failure.lastAttemptAt)]

def candidateCheckpointSchemaVersion : Int := 2

/-- `_snapshot_payload`. The members are sorted when the payload is written. -/
def snapshotPayload (checkpoint : CandidateCheckpoint) : Dict :=
  [("schema_version", .num candidateCheckpointSchemaVersion), ("collection", .str checkpoint.collection),
    ("status", .str checkpoint.status.value),
    ("settings", .obj (checkpoint.settings.toMetadata.map fun item => (item.1, .str item.2))),
    ("target_revision", optionalText checkpoint.targetRevision),
    ("total_files", .num checkpoint.totalFiles),
    ("completed", .obj (checkpoint.maps.completed.rows.map fun item => (item.key, item.value.json))),
    ("failed", .obj (checkpoint.maps.failed.rows.map fun item => (item.key, item.value.json))),
    ("created_at", .str checkpoint.createdAt),
    ("updated_at", .str checkpoint.updatedAt)]

def JournalEntry.payload (entry : JournalEntry) : Dict :=
  match entry.update with
  | .completed signature => [("path", .str entry.path), ("signature", signature.json)]
  | .failed failure => [("path", .str entry.path), ("failure", failure.json)]
  | .removed => [("path", .str entry.path), ("removed", .bool true)]

def JournalEntry.line (entry : JournalEntry) : List Char := dumps (sorted (.obj entry.payload))

/-- What one append writes. -/
def journalText (entries : List JournalEntry) : List Char := entries.flatMap fun entry => entry.line ++ ['\n']

/-! ## Reading -/

def optionalStrOf (value : Option Json) : Option String :=
  match value with
  | some (.str text) => optionalStr (some text)
  | _ => none

def parseSignature (value : Option Json) : Option FileSignature :=
  match value with
  | some (.arr [.num mtimeNs, .num size, .str digest]) =>
    if h : digest ≠ "" then (if 0 ≤ size then some ⟨mtimeNs, size.toNat, digest, h⟩ else none) else none
  | _ => none

theorem optionalStr_ne {text : Option String} : optionalStr text ≠ some "" := by
  intro h
  have hne := (Option.filter_eq_some_iff.mp h).2
  revert hne
  decide

theorem optionalStrOf_ne {value : Option Json} : optionalStrOf value ≠ some "" := by
  unfold optionalStrOf
  split
  · exact optionalStr_ne
  · exact (Option.some_ne_none _).symm

def parseFailure (value : Option Json) : Option CandidateFailure :=
  match value with
  | some (.obj failure) =>
    match Dict.get? failure "attempts" with
    | some (.num attempts) =>
      if 0 ≤ attempts then
        some
          { attempts := attempts.toNat
            lastError := optionalStrOf (Dict.get? failure "last_error")
            lastAttemptAt := optionalStrOf (Dict.get? failure "last_attempt_at")
            lastError_ne := optionalStrOf_ne
            lastAttemptAt_ne := optionalStrOf_ne }
      else none
    | _ => none
  | _ => none

def setParsed {α : Type} (parse : Option Json → Option α) (parsed : Mapping String α)
    (member : String × Json) : Mapping String α :=
  match parse (some member.2) with
  | some a => parsed.set member.1 a
  | none => parsed

/-- `_parse_completed`, `_parse_failed`: the items whose value parses. -/
def parseItemsBy {α : Type} (parse : Option Json → Option α) (value : Option Json) : Mapping String α :=
  match value with
  | some (.obj members) => members.foldl (setParsed parse) ∅
  | _ => ∅

def stringItems (members : Dict) : Option (List (String × String)) := members.mapM stringItem

def parseSettings (value : Option Json) : Option IndexingSettings :=
  match value with
  | some (.obj members) => (stringItems members).bind IndexingSettings.fromMetadata
  | _ => none

def strOf (value : Option Json) : String :=
  match value with
  | some (.str text) => text
  | _ => ""

def parseSnapshot (payload : Dict) : Option CandidateCheckpoint :=
  if payload.get? "schema_version" = some (.num candidateCheckpointSchemaVersion) then
    match payload.get? "collection", payload.get? "status", parseSettings (payload.get? "settings") with
    | some (.str collection), some (.str status), some settings =>
      if h : collection ≠ "" then
        if status = "building" ∨ status = "failed" then
          some
            { collection := collection
              settings := settings
              status := if status = "failed" then .failed else .building
              targetRevision := optionalStrOf (payload.get? "target_revision")
              totalFiles := (payload.num? "total_files").getD 0
              maps :=
                { completed := parseItemsBy parseSignature (payload.get? "completed")
                  failed := parseItemsBy parseFailure (payload.get? "failed") }
              createdAt := strOf (payload.get? "created_at")
              updatedAt := strOf (payload.get? "updated_at")
              collection_ne := h }
        else none
      else none
    | _, _, _ => none
  else none

/-- The characters `splitlines` ends a line at. -/
def isLineBreak (c : Char) : Bool :=
  ['\n', '\r', '\x0b', '\x0c', '\x1c', '\x1d', '\x1e', '\u0085', '\u2028', '\u2029'].contains c

/-- `text.splitlines()`, with the line under way. -/
def splitlinesFrom (line : List Char) : List Char → List (List Char)
  | [] => if line = [] then [] else [line]
  | '\r' :: '\n' :: rest => line :: splitlinesFrom [] rest
  | c :: rest => if isLineBreak c then line :: splitlinesFrom [] rest else splitlinesFrom (line ++ [c]) rest

def splitlines (text : List Char) : List (List Char) := splitlinesFrom [] text

/-- The entry of one line: nothing for a blank line, a torn one and one that is no object. -/
def lineEntry (line : List Char) : Option Dict :=
  match strip (String.ofList line) with
  | [] => none
  | stripped =>
    match loads stripped with
    | some (.obj entry) => some entry
    | _ => none

def journalEntries (text : List Char) : List Dict := (splitlines text).filterMap lineEntry

def applyJournalEntry (entry : Dict) (maps : CandidateMaps) : CandidateMaps :=
  match entry.nonempty? "path" with
  | none => maps
  | some path =>
    if entry.get? "removed" = some (.bool true) then
      { completed := maps.completed.pop path, failed := maps.failed.pop path }
    else
      match parseSignature (entry.get? "signature") with
      | some signature => { completed := maps.completed.set path signature, failed := maps.failed.pop path }
      | none =>
        match parseFailure (entry.get? "failure") with
        | some failure => { completed := maps.completed.pop path, failed := maps.failed.set path failure }
        | none => maps

structure CheckpointFiles where
  snapshot : Option (List Char) := none
  journal : Option (List Char) := none
deriving DecidableEq

def loadCandidateCheckpoint (files : CheckpointFiles) : Option CandidateCheckpoint :=
  match files.snapshot.bind loads with
  | some (.obj payload) =>
    (parseSnapshot payload).map fun checkpoint =>
      let entries := (files.journal.map journalEntries).getD []
      { checkpoint with
        maps := entries.foldl (fun maps entry => applyJournalEntry entry maps) checkpoint.maps
        replayedJournalEntries := entries.length }
  | _ => none

/-- The snapshot `save_candidate_checkpoint` writes. -/
def compacted (checkpoint : CandidateCheckpoint) (now : String) : CandidateCheckpoint :=
  { checkpoint with
    createdAt := if checkpoint.createdAt = "" then now else checkpoint.createdAt
    updatedAt := now
    replayedJournalEntries := 0 }

def snapshotText (checkpoint : CandidateCheckpoint) : List Char :=
  dumps (sorted (.obj (snapshotPayload checkpoint)))

/-- `save_candidate_checkpoint` up to the removal of the journal. -/
def writeSnapshot (checkpoint : CandidateCheckpoint) (now : String) (files : CheckpointFiles) : CheckpointFiles :=
  { files with snapshot := some (snapshotText (compacted checkpoint now)) }

def saveCandidateCheckpoint (checkpoint : CandidateCheckpoint) (now : String) (files : CheckpointFiles) :
    CheckpointFiles :=
  { writeSnapshot checkpoint now files with journal := none }

def appendText (text : List Char) (files : CheckpointFiles) : CheckpointFiles :=
  { files with journal := some (files.journal.getD [] ++ text) }

/-- `append_candidate_journal`, of which a crash leaves the first characters. -/
def appendCandidateJournal (entries : List JournalEntry) (cut : Option Nat) (files : CheckpointFiles) :
    CheckpointFiles :=
  if entries = [] then files
  else
    match cut with
    | none => appendText (journalText entries) files
    | some n => appendText ((journalText entries).take n) files

end MindRoom
