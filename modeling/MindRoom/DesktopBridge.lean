import MindRoom.Systems
import MindRoom.DesktopJournal

/-! # The desktop bridge

`on_to_device_event` and `_process` of `desktop/bridge.py`. Handlers run concurrently in one
process and wait for each other only where they await: for the execution lock, for the execution
of a command and for the delivery of a response. A write of the journal file is atomic: it leaves
the old file or the new one, and may raise either way.
-/

namespace MindRoom

/-- Where a handler waits. -/
inductive DesktopPhase where
  /-- For the execution lock. -/
  | waiting
  /-- For the started command, holding the lock. -/
  | executing
  /-- For the delivery of the recorded response. -/
  | answering
deriving DecidableEq

structure DesktopHandler where
  command : DesktopCommand
  phase : DesktopPhase
deriving DecidableEq

inductive JournalWrite where
  | written
  /-- It raised and left the old file. -/
  | lost
  /-- It raised after the file was replaced. -/
  | late
deriving DecidableEq

/-- A bridge, its journal file, the responses it sent and the commands it executed, the latest
first. -/
structure DesktopWorld where
  journal : DesktopCommandJournal
  file : Option DesktopJournalPayload
  inFlight : List String
  handlers : List DesktopHandler
  sent : List (DesktopCommand × DesktopResponse)
  executed : List DesktopCommand
  /-- The requests whose entry was pruned. -/
  evicted : List String

/-- The digest of a command's content. -/
abbrev DesktopHost := DesktopCommand → String

namespace DesktopBridge

def errorResponse (command : DesktopCommand) (error : String) : DesktopResponse where
  requestId := command.requestId
  sessionId := command.sessionId
  ok := false
  error := some error

def unknownControlResponse (command : DesktopCommand) : DesktopResponse :=
  let recoveryAction :=
    if command.action ∈ desktopBrowserActions then
      "browser(action='tabs' or 'snapshot', target='desktop')"
    else "get_app_state"
  { requestId := command.requestId
    sessionId := command.sessionId
    ok := true
    result := [("action", .str command.action.value), ("action_outcome", .str "unknown"),
      ("warning", .str ("The desktop action outcome is unknown and it may have completed; do not " ++
        "repeat the action automatically. Request " ++ recoveryAction ++
        " before deciding the next step."))] }

def interruptedResponse (command : DesktopCommand) : DesktopResponse :=
  if command.action ∈ desktopControlActions then unknownControlResponse command
  else errorResponse command
    "Desktop observation was interrupted before its outcome was recorded; retry with a new request."

/-- The answer to a command that uses the request id of another one. -/
def reusedResponse (command : DesktopCommand) : DesktopResponse :=
  errorResponse command "Desktop request ID was reused with different command content."

/-- The bridge records a journal in memory, prunes it and writes its file. -/
def persist (journal : DesktopCommandJournal) (write : JournalWrite) (w : DesktopWorld) : DesktopWorld :=
  { w with
    journal := journal.prune
    file := if write = .lost then w.file else some journal.prune.payload
    evicted := journal.entries.oldest DesktopCommandJournal.maxReplayResponses ++ w.evicted }

section

variable {journal : DesktopCommandJournal} {write : JournalWrite} {w : DesktopWorld}

@[simp] theorem persist_journal : (persist journal write w).journal = journal.prune := by
  dsimp only [persist]

@[simp] theorem persist_handlers : (persist journal write w).handlers = w.handlers := by
  dsimp only [persist]

@[simp] theorem persist_inFlight : (persist journal write w).inFlight = w.inFlight := by
  dsimp only [persist]

@[simp] theorem persist_sent : (persist journal write w).sent = w.sent := by
  dsimp only [persist]

@[simp] theorem persist_evicted : (persist journal write w).evicted =
    journal.entries.oldest DesktopCommandJournal.maxReplayResponses ++ w.evicted := by
  dsimp only [persist]

@[simp] theorem persist_executed : (persist journal write w).executed = w.executed := by
  dsimp only [persist]

end

/-- `_send_response`. -/
def send (command : DesktopCommand) (response : DesktopResponse) (w : DesktopWorld) : DesktopWorld :=
  { w with sent := (command, response) :: w.sent }

def advance (handler : DesktopHandler) (phase : DesktopPhase) (w : DesktopWorld) : DesktopWorld :=
  { w with handlers := ⟨handler.command, phase⟩ :: w.handlers.erase handler }

/-- A handler ends, however it does: `_in_flight.discard`. -/
def leave (handler : DesktopHandler) (w : DesktopWorld) : DesktopWorld :=
  { w with
    handlers := w.handlers.erase handler
    inFlight := w.inFlight.filter (· ≠ handler.command.requestId) }

variable (fingerprint : DesktopHost)

/-- A handler has the response of its command: it records it and sends it, unless recording
raises. -/
def answer (handler : DesktopHandler) (response : DesktopResponse) (write : JournalWrite)
    (w : DesktopWorld) : DesktopWorld :=
  let command := handler.command
  match w.journal.responseConflict command (fingerprint command) with
  | some _ => leave handler w
  | none =>
    let recorded := persist (w.journal.withResponse command (fingerprint command) response) write w
    if write = .written then send command response (advance handler .answering recorded)
    else leave handler recorded

/-- `on_to_device_event` up to its first wait, for an authenticated well-formed command. -/
def deliver (command : DesktopCommand) (write : JournalWrite) (w : DesktopWorld) : DesktopWorld :=
  match w.journal.get command.requestId with
  | some cached =>
    if cached.commandFingerprint ≠ fingerprint command then send command (reusedResponse command) w
    else
      match cached.response with
      | some response => send command response w
      | none =>
        let response := interruptedResponse command
        let recorded :=
          persist (w.journal.withResponse command (fingerprint command) response) write w
        if write = .written then send command response recorded else recorded
  | none =>
    if command.requestId ∈ w.inFlight then w
    else { w with
      inFlight := command.requestId :: w.inFlight
      handlers := ⟨command, .waiting⟩ :: w.handlers }

/-- `_process` up to its first wait, for a handler that got the lock. -/
def process (handler : DesktopHandler) (policyError : Option String) (write : JournalWrite)
    (w : DesktopWorld) : DesktopWorld :=
  let command := handler.command
  match policyError.or (w.journal.sequenceError command) with
  | some error => answer fingerprint handler (errorResponse command error) write w
  | none =>
    let started := persist (w.journal.withStarted command (fingerprint command)) write w
    if write = .written then
      { advance handler .executing started with executed := command :: w.executed }
    else leave handler started

/-- The process is lost, and a new one loads the journal. -/
def restarted (journal : DesktopCommandJournal) (w : DesktopWorld) : DesktopWorld :=
  { w with journal := journal, inFlight := [], handlers := [] }

end DesktopBridge

open DesktopBridge

inductive DesktopLabel where
  | deliver (command : DesktopCommand) (write : JournalWrite)
  /-- A handler gets the lock; what the local policy says of its command is its argument. -/
  | process (handler : DesktopHandler) (policyError : Option String) (write : JournalWrite)
  /-- The execution of a command came to a response. -/
  | complete (handler : DesktopHandler) (response : DesktopResponse) (write : JournalWrite)
  /-- A handler ended: its response is delivered, or it was cancelled. -/
  | leave (handler : DesktopHandler)
  | restart
deriving DecidableEq

variable (fingerprint : DesktopHost)

/-- One step. The lock is held by the handler that executes. -/
def desktopStep : DesktopLabel → DesktopWorld → DesktopWorld → Prop
  | .deliver command write, w, w' => w' = deliver fingerprint command write w
  | .process handler policyError write, w, w' =>
    handler ∈ w.handlers ∧ handler.phase = .waiting ∧ (∀ h ∈ w.handlers, h.phase ≠ .executing) ∧
      w' = process fingerprint handler policyError write w
  | .complete handler response write, w, w' =>
    handler ∈ w.handlers ∧ handler.phase = .executing ∧
      w' = answer fingerprint handler response write w
  | .leave handler, w, w' => handler ∈ w.handlers ∧ w' = leave handler w
  | .restart, w, w' =>
    ∃ journal, DesktopCommandJournal.load w.file = .ok journal ∧ w' = restarted journal w

/-- The bridge over its life, from a machine without a journal file. -/
def desktopSystem : System DesktopWorld DesktopLabel where
  start w := w = ⟨{}, none, [], [], [], [], []⟩
  step := desktopStep fingerprint

/-- One process of the bridge, on whatever journal it loaded. -/
def desktopProcess : System DesktopWorld DesktopLabel where
  start w := ∃ journal file, w = ⟨journal, file, [], [], [], [], []⟩
  step label w w' := label ≠ .restart ∧ desktopStep fingerprint label w w'

end MindRoom
