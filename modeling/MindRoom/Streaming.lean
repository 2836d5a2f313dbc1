import MindRoom.ToolMarkers

/-! # Streaming responses

A streamed answer is one message that is edited as its text grows. The state keeps the text, what Matrix
last acknowledged and what the terminal update is to carry. Updates before the last go through one owner: a
payload is frozen, sent and committed when it is acknowledged. The texts have no mentions, nothing
transforms the final one, and the room is still joined.
-/

namespace MindRoom.Streaming

def progressPlaceholder : String := "Thinking..."

def cancelledResponseNote : String := "**[Response cancelled by user]**"

def interruptedResponseNote : String := "**[Response interrupted]**"

def restartInterruptedResponseNote : String := "**[Response interrupted by service restart]**"

def streamErrorResponseNote : String := "**[Response interrupted by an error"

/-- `not text.strip()`. -/
def isBlank (text : String) : Bool := strip text = []

/-! ## Statuses -/

inductive StreamStatus
  | pending
  | streaming
  | completed
  | cancelled
  | error
deriving DecidableEq

inductive VisibleBodyState
  | none
  | placeholderOnly
  | visibleBody
deriving DecidableEq

inductive CancelSource
  | userStop
  | syncRestart
  | interrupted
deriving DecidableEq

def cancelFailureReason : CancelSource → String
  | .syncRestart => "sync_restart_cancelled"
  | .userStop => "cancelled_by_user"
  | .interrupted => "interrupted"

/-! ## Terminal texts -/

/-- `" ".join(text.split())`. -/
def normalizeSpaces (text : String) : String :=
  " ".intercalate (((text.toList.splitOnP ToolMarkers.isSpace).filter (· ≠ [])).map String.ofList)

def formatStreamErrorNote (error : String) : String :=
  let normalizedError := normalizeSpaces error
  if normalizedError = "" then streamErrorResponseNote ++ ". Please retry.]**"
  else if 220 < normalizedError.length then
    streamErrorResponseNote ++ ": " ++ String.ofList (normalizedError.toList.take 219) ++ "…" ++ "]**"
  else streamErrorResponseNote ++ ": " ++ normalizedError ++ "]**"

/-- A note on its own, or under the text it ends. -/
def withNote (text note : String) (hidesPlaceholder : Bool) : String :=
  let strippedText := DynamicWorkflow.rstripped text
  if strippedText = "" ∨ (hidesPlaceholder = true ∧ strippedText = progressPlaceholder) then note
  else strippedText ++ "\n\n" ++ note

def buildCancelledResponseUpdate (text : String) : CancelSource → String × StreamStatus
  | .syncRestart => (withNote text restartInterruptedResponseNote true, .error)
  | .userStop => (withNote text cancelledResponseNote true, .cancelled)
  | .interrupted => (withNote text interruptedResponseNote true, .error)

/-! ## Payloads -/

/-- What formatting makes of a text: the text shown, and the prompt found in it. -/
structure Formatter (μ : Type) where
  parseAndFormatInteractive : String → String × Option μ
  placeholder : (parseAndFormatInteractive progressPlaceholder).1 = progressPlaceholder

/-- What is sent. The visible body is named when worker notices follow it in the body. -/
structure StreamContent where
  body : String
  visibleBody : Option String := none
  warmupSuffix : Option String := none
  streamStatus : StreamStatus
  notice : Bool
deriving DecidableEq

/-- The body of a payload, without the notices under it. -/
def StreamContent.shown (content : StreamContent) : String := content.visibleBody.getD content.body

/-- One frozen stream state that definitely reached Matrix. -/
structure CommittedDeliveryState (μ : Type) where
  accumulatedText : String
  placeholderProgressSent : Bool
  renderedBody : String
  visibleBodyState : VisibleBodyState
  interactiveMetadata : Option μ
  streamStatus : StreamStatus

structure PreparedDelivery (μ : Type) where
  content : StreamContent
  committedState : CommittedDeliveryState μ

/-- The state needed to format one outbound payload. -/
structure DeliverySnapshot where
  accumulatedText : String
  warmupSuffixLines : List String
  streamStatus : StreamStatus

structure StreamingResponse (μ : Type) where
  /-- A `ReplacementStreamingResponse`. -/
  replacement : Bool := false
  preserveExistingVisibleOnEmptyTerminal : Bool := false
  accumulatedText : String := ""
  eventId : Option String := none
  placeholderProgressSent : Bool := false
  canonicalFinalBodyCandidate : Option String := none
  /-- The worker notices to render. -/
  warmupLines : List String := []
  lastDeliveredText : String := ""
  lastPlaceholderProgressSent : Bool := false
  lastCommittedRenderedBody : Option String := none
  lastCommittedInteractiveMetadata : Option μ := none
  lastCommittedVisibleBodyState : VisibleBodyState := .none

structure StreamTransportOutcome (μ : Type) where
  lastPhysicalStreamEventId : Option String
  terminalStatus : StreamStatus
  renderedBody : Option String
  visibleBodyState : VisibleBodyState
  terminalUpdateCommitted : Bool := false
  canonicalFinalBodyCandidate : Option String
  failureReason : Option String
  interactiveMetadata : Option μ := none

section

variable {μ : Type} (formatter : Formatter μ)

/-- `format_message_with_mentions(...)["body"]` for a text without mentions. -/
def messageBody (text : String) : String := ToolMarkers.ensureVisibleToolMarkerSpacing text

def bodyState (body : String) : VisibleBodyState := if body = progressPlaceholder then .placeholderOnly else .visibleBody

def contentOf (body : String) (lines : List String) (status : StreamStatus) : StreamContent :=
  let notice := status = .pending || status = .streaming
  if lines = [] then { body := body, streamStatus := status, notice := notice }
  else
    let warmupSuffix := "\n".intercalate lines
    { body := body ++ "\n\n" ++ warmupSuffix
      visibleBody := some body
      warmupSuffix := some warmupSuffix
      streamStatus := status
      notice := notice }

/-- Format one outbound payload from immutable stream state. -/
def prepareDeliveryFromSnapshot (snapshot : DeliverySnapshot) : PreparedDelivery μ :=
  let textToSend := if isBlank snapshot.accumulatedText then progressPlaceholder else snapshot.accumulatedText
  let response := formatter.parseAndFormatInteractive textToSend
  let canonicalVisibleBody := messageBody response.1
  { content := contentOf canonicalVisibleBody snapshot.warmupSuffixLines snapshot.streamStatus
    committedState := {
      accumulatedText := if isBlank snapshot.accumulatedText then "" else snapshot.accumulatedText
      placeholderProgressSent := isBlank snapshot.accumulatedText
      renderedBody := canonicalVisibleBody
      visibleBodyState := bodyState canonicalVisibleBody
      interactiveMetadata := response.2
      streamStatus := snapshot.streamStatus } }

namespace StreamingResponse

variable (s : StreamingResponse μ)

def resolveStreamStatus (isFinal : Bool) : Option StreamStatus → StreamStatus
  | some status => status
  | none => if isFinal then .completed else if s.eventId = none then .pending else .streaming

/-- Freeze all mutable stream state needed for one formatting pass. -/
def deliverySnapshot (isFinal allowEmptyProgress : Bool) (streamStatus : Option StreamStatus) :
    Option DeliverySnapshot :=
  if isBlank s.accumulatedText && !allowEmptyProgress && s.warmupLines = [] then none
  else some ⟨s.accumulatedText, s.warmupLines, s.resolveStreamStatus isFinal streamStatus⟩

def prepareDelivery (isFinal allowEmptyProgress : Bool) (streamStatus : Option StreamStatus) :
    Option (PreparedDelivery μ) :=
  (s.deliverySnapshot isFinal allowEmptyProgress streamStatus).map (prepareDeliveryFromSnapshot formatter)

/-- Snapshot the last non-terminal state that actually reached Matrix. -/
def markDeliveryCommitted (committed : CommittedDeliveryState μ) : StreamingResponse μ :=
  { s with
    lastDeliveredText := committed.accumulatedText
    lastPlaceholderProgressSent := committed.placeholderProgressSent
    lastCommittedRenderedBody := some committed.renderedBody
    lastCommittedVisibleBodyState := committed.visibleBodyState
    lastCommittedInteractiveMetadata := committed.interactiveMetadata
    placeholderProgressSent := committed.placeholderProgressSent }

/-- The last visible body that definitely reached Matrix. -/
def committedTerminalSnapshot : Option String × VisibleBodyState :=
  if s.lastCommittedVisibleBodyState ≠ .none then (s.lastCommittedRenderedBody, s.lastCommittedVisibleBodyState)
  else if s.eventId.isSome && s.placeholderProgressSent then (some progressPlaceholder, .placeholderOnly)
  else (none, .none)

/-- Discard buffered state that never reached Matrix after a delivery failure. -/
def restoreLastDeliveredState : StreamingResponse μ :=
  { s with
    accumulatedText := s.lastDeliveredText
    placeholderProgressSent := s.lastPlaceholderProgressSent }

def appendIncrementalText (newChunk : String) : StreamingResponse μ :=
  { s with accumulatedText := s.accumulatedText ++ newChunk }

/-- `_update`: a replacement stream shows the latest chunk only. -/
def update (newChunk : String) : StreamingResponse μ :=
  if s.replacement then { s with accumulatedText := newChunk } else s.appendIncrementalText newChunk

end StreamingResponse

/-! ## The life of a stream -/

/-- A stream, the payload under way, and what Matrix has acknowledged. -/
structure StreamRun (μ : Type) where
  stream : StreamingResponse μ
  prepared : Option (PreparedDelivery μ) := none
  acknowledged : List StreamContent := []
  adoptedPlaceholder : Bool := false

/-- What happens to a stream before its terminal update. -/
inductive StreamStep
  | update (chunk : String)
  | append (chunk : String)
  | completeTool (toolName : String) (toolIndex : Nat)
  | runCompleted (content : String)
  | warmup (lines : List String)
  | prepare (allowEmptyProgress : Bool)
  | acknowledged (eventId : String)
  /-- The payload is held back, or its send fails or is cancelled. -/
  | unsent
  | restore

def StreamRun.step (run : StreamRun μ) : StreamStep → StreamRun μ
  | .update chunk => { run with stream := run.stream.update chunk }
  | .append chunk => { run with stream := run.stream.appendIncrementalText chunk }
  | .completeTool toolName toolIndex =>
    { run with stream := { run.stream with
        accumulatedText := ToolMarkers.completePendingToolBlock run.stream.accumulatedText toolName toolIndex } }
  | .runCompleted content => { run with stream := { run.stream with canonicalFinalBodyCandidate := some content } }
  | .warmup lines => { run with stream := { run.stream with warmupLines := lines } }
  | .prepare allowEmptyProgress =>
    { run with prepared := run.stream.prepareDelivery formatter false allowEmptyProgress none }
  | .acknowledged eventId =>
    match run.prepared with
    | none => run
    | some prepared =>
      { run with
        stream := { run.stream.markDeliveryCommitted prepared.committedState with
          eventId := run.stream.eventId <|> some eventId }
        prepared := none
        acknowledged := run.acknowledged ++ [prepared.content] }
  | .unsent => { run with prepared := none }
  | .restore => { run with stream := run.stream.restoreLastDeliveredState }

/-- A stream that starts a message, or goes on with one that may be its placeholder. -/
def StreamRun.start (replacement preserve : Bool) (existingEventId : Option String)
    (adoptExistingPlaceholder : Bool) : StreamRun μ where
  stream := {
    replacement := replacement
    preserveExistingVisibleOnEmptyTerminal := preserve
    eventId := existingEventId
    placeholderProgressSent := existingEventId.isSome && adoptExistingPlaceholder }
  adoptedPlaceholder := existingEventId.isSome && adoptExistingPlaceholder

inductive Reachable : StreamRun μ → Prop
  | start (replacement preserve : Bool) (existingEventId : Option String) (adoptExistingPlaceholder : Bool) :
      Reachable (StreamRun.start replacement preserve existingEventId adoptExistingPlaceholder)
  | step {run : StreamRun μ} (step : StreamStep) (before : Reachable run) : Reachable (run.step formatter step)

/-! ## The terminal update -/

structure Ending where
  cancelled : Bool := false
  restartInterrupted : Bool := false
  cancelSource : Option CancelSource := none
  /-- The text of the exception. -/
  error : Option String := none
  /-- `current_task_is_process_shutdown()`. -/
  processShutdown : Bool := false

def Ending.resolvedCancelSource (ending : Ending) : Option CancelSource :=
  match ending.cancelSource with
  | some source => some source
  | none => if ending.restartInterrupted then some .syncRestart else if ending.cancelled then some .userStop else none

inductive SendResult
  | delivered (eventId : String)
  | undelivered
  | sendRetryError
  | raised (exceptionName : String)
  | cancelled (source : CancelSource)

/-- What all attempts come to. -/
inductive SendEnd
  | returned (succeeded : Bool)
  | raised (exceptionName : String)
  | cancelled (source : CancelSource)

/-- The attempts of `_send_content`, with the payloads that Matrix acknowledges on the way. -/
def sendContent (content : StreamContent) (sends : Nat → SendResult) (totalAttempts : Nat) :
    (left : Nat) → (s : StreamingResponse μ) → SendEnd × StreamingResponse μ × List StreamContent
  | 0, s => (.returned false, s, [])
  | left + 1, s =>
    match sends (totalAttempts - (left + 1)) with
    | .delivered eventId => (.returned true, { s with eventId := s.eventId <|> some eventId }, [content])
    | .undelivered => sendContent content sends totalAttempts left s
    | .sendRetryError => (.raised "SendRetryError", s, [])
    | .raised exceptionName =>
      if left = 0 then (.raised exceptionName, s, []) else sendContent content sends totalAttempts left s
    | .cancelled source => (.cancelled source, s, [])

/-- `_send_or_edit_message` of the terminal update. -/
def sendTerminal (s : StreamingResponse μ) (allowEmptyProgress : Bool) (streamStatus : StreamStatus)
    (totalAttempts : Nat) (sends : Nat → SendResult) : SendEnd × StreamingResponse μ × List StreamContent :=
  match s.prepareDelivery formatter true allowEmptyProgress (some streamStatus) with
  | none => (.returned true, s, [])
  | some prepared =>
    match sendContent prepared.content sends totalAttempts totalAttempts s with
    | (.returned true, s, acknowledged) => (.returned true, { s with placeholderProgressSent := false }, acknowledged)
    | unsent => unsent

/-- Apply terminal text adjustments and return the terminal stream status. -/
def prepareTerminalTextAndStatus (text : String) (ending : Ending) : String × StreamStatus :=
  match ending.error with
  | some error => (withNote text (formatStreamErrorNote error) false, .error)
  | none =>
    match ending.resolvedCancelSource with
    | some source => buildCancelledResponseUpdate text source
    | none => (text, .completed)

/-- What finalizing a stream gives: the outcome, and what Matrix acknowledged meanwhile. -/
structure Finalized (μ : Type) where
  outcome : StreamTransportOutcome μ
  stream : StreamingResponse μ
  acknowledged : List StreamContent := []

/-- The facts every outcome of one call shares. -/
structure TerminalFacts where
  terminalStatus : StreamStatus
  candidate : Option String
  failureReason : Option String

/-- Nothing of this stream is visible. -/
def finalizedEmpty (s : StreamingResponse μ) (facts : TerminalFacts) : Finalized μ where
  outcome := {
    lastPhysicalStreamEventId := s.eventId
    terminalStatus := facts.terminalStatus
    renderedBody := none
    visibleBodyState := .none
    canonicalFinalBodyCandidate := facts.candidate
    failureReason := facts.failureReason }
  stream := s

/-- What was last committed stands. -/
def finalizedCommitted (s : StreamingResponse μ) (facts : TerminalFacts) (acknowledged : List StreamContent) :
    Finalized μ where
  outcome := {
    lastPhysicalStreamEventId := s.eventId
    terminalStatus := facts.terminalStatus
    renderedBody := s.committedTerminalSnapshot.1
    visibleBodyState := s.committedTerminalSnapshot.2
    canonicalFinalBodyCandidate := facts.candidate
    failureReason := facts.failureReason
    interactiveMetadata := s.lastCommittedInteractiveMetadata }
  stream := s
  acknowledged := acknowledged

/-- Send the text that remains, and report it when the send succeeds. -/
def finalizeSending (s : StreamingResponse μ) (ending : Ending) (facts : TerminalFacts) (status : StreamStatus)
    (hasPlaceholder : Bool) (response : String × Option μ) (sends : Nat → SendResult) : Finalized μ :=
  let retryImmediately := status ≠ .completed && !ending.restartInterrupted && ending.cancelSource ≠ some .syncRestart
  let totalAttempts := if status = .completed ∨ retryImmediately = true then 2 else 1
  match sendTerminal formatter s hasPlaceholder status totalAttempts sends with
  | (.cancelled source, s, acknowledged) =>
    finalizedCommitted s { facts with
      terminalStatus := .cancelled
      failureReason := some (cancelFailureReason (ending.resolvedCancelSource.getD source)) } acknowledged
  | (.raised exceptionName, s, acknowledged) =>
    finalizedCommitted s { facts with
      failureReason := facts.failureReason <|> some ("terminal_update_exception:" ++ exceptionName) } acknowledged
  | (.returned false, s, acknowledged) =>
    finalizedCommitted s { facts with
      failureReason := facts.failureReason <|> some "terminal_update_failed" } acknowledged
  | (.returned true, s, acknowledged) => {
      outcome := {
        lastPhysicalStreamEventId := s.eventId
        terminalStatus := facts.terminalStatus
        renderedBody := some response.1
        visibleBodyState := bodyState response.1
        terminalUpdateCommitted := true
        canonicalFinalBodyCandidate := facts.candidate
        failureReason := facts.failureReason
        interactiveMetadata := response.2 }
      stream := s
      acknowledged := acknowledged }

/-- Send the terminal update and return immutable transport facts. -/
def finalize (s : StreamingResponse μ) (ending : Ending) (sends : Nat → SendResult) : Finalized μ :=
  let s := { s with warmupLines := [] }
  let candidate := s.canonicalFinalBodyCandidate <|>
    if isBlank s.accumulatedText then none else some s.accumulatedText
  let cancellationFailureReason := ending.resolvedCancelSource.map cancelFailureReason
  if ending.resolvedCancelSource.isSome && ending.processShutdown then
    finalizedCommitted s ⟨.cancelled, candidate, cancellationFailureReason⟩ []
  else
    let hadBodyBeforeTerminal := !isBlank s.accumulatedText
    let (text, status) := prepareTerminalTextAndStatus s.accumulatedText ending
    let s := { s with accumulatedText := text }
    let facts : TerminalFacts :=
      ⟨if ending.resolvedCancelSource.isSome then .cancelled else status, candidate, cancellationFailureReason⟩
    let hasPlaceholder := s.eventId.isSome && s.placeholderProgressSent && isBlank text
    if status = .completed ∧ isBlank text = true ∧ candidate ≠ none ∧
        s.lastCommittedVisibleBodyState ≠ .visibleBody then
      finalizedCommitted s facts []
    else
      let textToSend := if isBlank text = true ∧ status = .completed then candidate.getD "" else text
      if isBlank textToSend = true ∧ status = .completed ∧ hasPlaceholder = false then finalizedEmpty s facts
      else if status ≠ .completed ∧ s.eventId ≠ none ∧ s.preserveExistingVisibleOnEmptyTerminal = true ∧
          s.placeholderProgressSent = false ∧ s.lastCommittedVisibleBodyState = .none ∧
          hadBodyBeforeTerminal = false then
        finalizedEmpty s facts
      else
        let textToSend := if isBlank textToSend then progressPlaceholder else textToSend
        let response := formatter.parseAndFormatInteractive textToSend
        if isBlank text = true ∧ hasPlaceholder = false ∧ isBlank response.1 = true then finalizedEmpty s facts
        else finalizeSending formatter s ending facts status hasPlaceholder response sends

end

end MindRoom.Streaming
