import MindRoom.WhileLoop
import MindRoom.ThreadTags
import MindRoom.CompactionRuns

/-! # Inputs of compaction summaries

Runs are packed into the input of a summary as long as they fit; a first run that does not fit is cut to
an excerpt. A refused input is built again under a smaller budget or for another model, and chunks are
summarized until no selected run is left.
-/

namespace MindRoom.CompactionInputs

def wrapperOverheadTokens : Int := 200

def oversizedRunNote : String := "Run truncated to fit compaction budget."

def summaryRetryFloorTokens : Int := 1000

/-! ## Texts -/

def join (sep : String) : List String → String
  | [] => ""
  | part :: parts => parts.foldl (fun text part => text ++ sep ++ part) part

def escapeChar (quote : Bool) (c : Char) : List Char :=
  if c = '&' then "&amp;".toList
  else if c = '<' then "&lt;".toList
  else if c = '>' then "&gt;".toList
  else if quote && c = '\x22' then "&quot;".toList
  else if quote && c = '\x27' then "&#x27;".toList
  else [c]

def escape (quote : Bool) (text : String) : String := String.ofList (text.toList.flatMap (escapeChar quote))

/-- `text.replace(old, new)`, over a text that is no longer than the fuel. -/
def replace (old new : List Char) : Nat → List Char → List Char
  | 0, text => text
  | _ + 1, [] => []
  | fuel + 1, c :: text =>
    if old.isPrefixOf (c :: text) then new ++ replace old new fuel ((c :: text).drop old.length)
    else c :: replace old new fuel text

def unescapeXmlContent (text : String) : String :=
  let text := text.toList
  let text := replace "&gt;".toList ['>'] text.length text
  let text := replace "&lt;".toList ['<'] text.length text
  String.ofList (replace "&amp;".toList ['&'] text.length text)

def escapeXmlContent (text : String) : String := escape false (unescapeXmlContent text)

/-- `fragment in text`. -/
def contains (text fragment : String) : Bool := text.toList.tails.any (fragment.toList.isPrefixOf ·)

/-! ## Runs -/

/-- What a replayed message says, its values serialized. Media without a payload are left out. -/
structure MessageView where
  role : String
  name : String := ""
  toolCallId : String := ""
  content : String
  toolCalls : Option String := none
  media : List (String × String) := []

structure RunView where
  runId : String
  status : Option String := none
  metadata : Option String := none
  messages : List MessageView := []

def tagAttribute (name value : String) : String := name ++ "=\"" ++ escape true value ++ "\""

def runOpenTag (run : RunView) (index : Nat) : String :=
  let attrs := ["index=\"" ++ toString index ++ "\""] ++
    (if run.runId = "" then [] else [tagAttribute "run_id" run.runId]) ++
    (run.status.toList.map (tagAttribute "status"))
  "<run " ++ join " " attrs ++ ">"

def messageOpenTag (message : MessageView) : String :=
  let attrs := [tagAttribute "role" message.role] ++
    (if message.name = "" then [] else [tagAttribute "name" message.name]) ++
    (if message.toolCallId = "" then [] else [tagAttribute "tool_call_id" message.toolCallId])
  "<message " ++ join " " attrs ++ ">"

def serializeMessage (message : MessageView) : List String :=
  [messageOpenTag message, escapeXmlContent message.content, "</message>"] ++
    (message.toolCalls.toList.flatMap fun toolCalls =>
      ["<tool_calls>", escapeXmlContent toolCalls, "</tool_calls>"]) ++
    (message.media.flatMap fun entry =>
      if entry.2 = "" then []
      else ["<" ++ entry.1 ++ ">", escapeXmlContent entry.2, "</" ++ entry.1 ++ ">"])

def serializeRun (run : RunView) (index : Nat) : String :=
  join "\n" ([runOpenTag run index] ++
    (run.metadata.toList.flatMap fun metadata => ["<run_metadata>", escapeXmlContent metadata, "</run_metadata>"]) ++
    run.messages.flatMap serializeMessage ++ ["</run>"])

/-! ### Excerpts -/

structure ExcerptBlock where
  openTag : String
  content : String
  closeTag : String

def truncateExcerpt (text : String) (maxChars : Nat) : String :=
  if maxChars = 0 then ""
  else if text.toList.length ≤ maxChars then text
  else if maxChars = 1 then "…"
  else DynamicWorkflow.rstripped (String.ofList (text.toList.take (maxChars - 1))) ++ "…"

def ExcerptBlock.render (block : ExcerptBlock) (maxChars : Nat) : Option String :=
  let snippet := truncateExcerpt block.content maxChars
  if snippet = "" then none else some (join "\n" [block.openTag, escapeXmlContent snippet, block.closeTag])

def excerptBlocks (run : RunView) : List ExcerptBlock :=
  (run.metadata.toList.map fun metadata => ⟨"<run_metadata>", metadata, "</run_metadata>"⟩) ++
    (run.messages.filter (·.content ≠ "")).map fun message => ⟨messageOpenTag message, message.content, "</message>"⟩

def excerptLines : Nat → List ExcerptBlock → List String
  | _, [] => []
  | remainingChars, block :: blocks =>
    if remainingChars = 0 then []
    else
      match block.render remainingChars with
      | none => excerptLines remainingChars blocks
      | some rendered =>
        let length := block.content.toList.length
        if length ≤ remainingChars then rendered :: excerptLines (remainingChars - length) blocks
        else [rendered]

def serializeRunExcerpt (run : RunView) (index : Nat) (blocks : List ExcerptBlock) (contentBudgetChars : Nat) : String :=
  join "\n" ([runOpenTag run index, "<note>" ++ oversizedRunNote ++ "</note>"] ++
    excerptLines contentBudgetChars blocks ++ ["</run>"])

/-! ## Inputs -/

def previousSummaryBlock (summary : String) : String :=
  "<previous_summary>\n" ++ escapeXmlContent summary ++ "\n</previous_summary>"

/-- The block of a previous summary that is not blank. -/
def summaryBlock : Option String → String
  | none => ""
  | some summary => if strip summary = [] then "" else previousSummaryBlock summary

def composeSummaryInput (summaryBlock serializedRuns : String) : String :=
  let conversation := "<new_conversation>\n" ++ serializedRuns ++ "\n</new_conversation>"
  if summaryBlock = "" then conversation else summaryBlock ++ "\n\n" ++ conversation

section

variable {ρ : Type*} (estimate : String → Nat) (view : ρ → RunView)

/-- The loop over ever smaller excerpts. -/
def fittingExcerpt (run : RunView) (index : Nat) (maxTokens : Int) (budgetChars : Nat) : Option String :=
  if _h : budgetChars = 0 then none
  else
    let excerpt := serializeRunExcerpt run index (excerptBlocks run) budgetChars
    if estimate excerpt ≤ maxTokens then some excerpt
    else fittingExcerpt run index maxTokens (budgetChars / 2)
termination_by budgetChars
decreasing_by omega

def serializeOversizedRunExcerpt (run : RunView) (index : Nat) (maxTokens : Int) : Option String :=
  if maxTokens ≤ 0 then none
  else
    let fullRun := serializeRun run index
    if estimate fullRun ≤ maxTokens then some fullRun
    else
      match fittingExcerpt estimate run index maxTokens (maxTokens * 4).toNat with
      | some excerpt => some excerpt
      | none =>
        let minimalExcerpt := serializeRunExcerpt run index (excerptBlocks run) 0
        if estimate minimalExcerpt ≤ maxTokens then some minimalExcerpt else none

def remainingExcerptBudget (maxInputTokens : Int) (summaryBlock : String) : Int :=
  maxInputTokens - estimate (composeSummaryInput summaryBlock "")

def buildOversizedSummaryInput (previousSummary : Option String) (compactedRuns : List ρ) (maxInputTokens : Int) :
    String × List ρ :=
  let summaryBlock := summaryBlock previousSummary
  match compactedRuns with
  | [] => (summaryBlock, [])
  | firstRun :: _ =>
    match serializeOversizedRunExcerpt estimate (view firstRun) 0
        (remainingExcerptBudget estimate maxInputTokens summaryBlock) with
    | none => (summaryBlock, [])
    | some excerpt => (composeSummaryInput summaryBlock excerpt, [firstRun])

/-- The runs that are packed so far, and the tokens that remain. -/
structure Packed (ρ : Type*) where
  includedRuns : List ρ := []
  serializedRuns : List String := []
  remaining : Int

/-- The loop over the runs, up to the first that does not fit. -/
def packRuns : Nat → Packed ρ → List ρ → Packed ρ
  | _, packed, [] => packed
  | index, packed, run :: runs =>
    let serializedRun := serializeRun (view run) index
    let separator := if packed.serializedRuns = [] then "" else "\n\n"
    let runTokens := estimate (separator ++ serializedRun)
    if packed.remaining < runTokens then packed
    else
      packRuns (index + 1)
        { includedRuns := packed.includedRuns ++ [run]
          serializedRuns := packed.serializedRuns ++ [serializedRun]
          remaining := packed.remaining - runTokens } runs

def buildSummaryInput (previousSummary : Option String) (compactedRuns : List ρ) (maxInputTokens : Int) :
    String × List ρ :=
  let summaryBlock := summaryBlock previousSummary
  let remaining := maxInputTokens - estimate (composeSummaryInput summaryBlock "") - wrapperOverheadTokens
  if remaining ≤ 0 then
    buildOversizedSummaryInput estimate view previousSummary (compactedRuns.take 1) maxInputTokens
  else
    let packed := packRuns estimate view 0 { remaining } compactedRuns
    match packed.includedRuns, compactedRuns with
    | [], [] => (summaryBlock, [])
    | [], run :: _ => buildOversizedSummaryInput estimate view previousSummary [run] maxInputTokens
    | includedRuns, _ => (composeSummaryInput summaryBlock (join "\n\n" packed.serializedRuns), includedRuns)

/-- The smallest shrink budget preserving the prior summary and one run envelope. -/
def minimumProgressInputTokens (previousSummary : Option String) (firstRun : ρ) : Int :=
  estimate (composeSummaryInput (summaryBlock previousSummary) (serializeRunExcerpt (view firstRun) 0 [] 0)) +
    wrapperOverheadTokens

end

/-! ## Retries -/

/-- What is known of an exception of a provider call: whether its type asks for a smaller input, its text,
the status of a `ModelProviderError`, and whether a network failure caused it. -/
structure SummaryFailure where
  typedShrinkable : Bool := false
  message : String := ""
  providerStatus : Option Nat := none
  networkCause : Bool := false
  safeguardRefusalError : Bool := false
deriving DecidableEq

/-- `TRANSIENT_PROVIDER_STATUS_CODES - {502}`. -/
def transientSummaryStatusCodes : List Nat := [200, 408, 409, 429, 500, 503, 504, 529]

def shrinkableProviderErrorFragments : List String :=
  ["context length", "context_length_exceeded", "too many tokens", "max tokens", "too large", "too long", "input size",
    "input too large", "maximum length", "max length", "request too large", "reduce the length"]

/-- Whether a provider failure warrants one unchanged retry. -/
def isSameBudgetTransient (error : SummaryFailure) : Bool :=
  match error.providerStatus with
  | none => false
  | some statusCode => statusCode ∈ transientSummaryStatusCodes || (statusCode = 502 && error.networkCause)

/-- Whether rebuilding a smaller summary input may resolve the failure. -/
def shouldShrink (error : SummaryFailure) : Bool :=
  let message := ThreadTags.lower error.message
  error.typedShrinkable || shrinkableProviderErrorFragments.any (contains message) ||
    (contains message "timed out" && !isSameBudgetTransient error)

def isModelSafeguardRefusal (error : SummaryFailure) : Bool :=
  error.safeguardRefusalError || strip error.message = "Claude returned stop_reason=refusal".toList

inductive RetryKind
  | shrink
  | sameBudgetTransient
deriving DecidableEq

/-- One policy-owned retry action for the compaction summary caller. -/
structure SummaryRetryDecision where
  budget : Int
  kind : RetryKind
deriving DecidableEq

structure SummaryRetryPolicy where
  maxAttempts : Nat := 2
  shrinkDivisor : Nat := 2

def defaultSummaryRetryPolicy : SummaryRetryPolicy := {}

/-- The next retry action, or nothing when retries end. -/
def retryBudget (policy : SummaryRetryPolicy) (attempt : Nat) (budget : Int) (inputTokens : Nat)
    (minimumProgressInputTokens : Int) (error : SummaryFailure) : Option SummaryRetryDecision :=
  let smallerBudget := min budget
    (max summaryRetryFloorTokens (max minimumProgressInputTokens (inputTokens / policy.shrinkDivisor : Nat)))
  if policy.maxAttempts ≤ attempt then none
  else if shouldShrink error ∧ smallerBudget < inputTokens then some { budget := smallerBudget, kind := .shrink }
  else if isSameBudgetTransient error then some { budget, kind := .sameBudgetTransient }
  else none

/-- A model that writes summaries: how it counts tokens, and the budget of its inputs. -/
structure SummaryModel where
  name : String
  estimate : String → Nat
  inputBudget : Int

/-- The request at hand: who is asked what, the model to turn to after a refusal, and the calls so far. -/
structure Generation (ρ : Type*) where
  model : SummaryModel
  fallbackModel : Option SummaryModel
  summaryInput : String
  includedRuns : List ρ
  budget : Int
  attempt : Nat := 1
  calls : List (String × String) := []

section

variable {ρ : Type*} (view : ρ → RunView) (provider : Nat → String → String → Except SummaryFailure String)
  (previousSummary : Option String) (firstRun : ρ) (laterRuns : List ρ) (minimumProgress : Int)

/-- The input for the fallback model: the refused one where it fits. -/
def fallbackInput (s : Generation ρ) (fallback : SummaryModel) : String × List ρ :=
  if fallback.estimate s.summaryInput ≤ fallback.inputBudget then (s.summaryInput, s.includedRuns)
  else buildSummaryInput fallback.estimate view previousSummary (firstRun :: laterRuns) fallback.inputBudget

/-- What a failed call leads to: another request, or the exception. -/
def afterFailure (s : Generation ρ) (error : SummaryFailure) :
    WhileLoop.Round (Generation ρ) (Generation ρ × Except SummaryFailure String) :=
  let policy := defaultSummaryRetryPolicy
  match s.fallbackModel.filter fun _ => s.attempt < policy.maxAttempts ∧ isModelSafeguardRefusal error with
  | some fallback =>
    let rebuilt := fallbackInput view previousSummary firstRun laterRuns s fallback
    if rebuilt.2.isEmpty then .leave (s, .error error)
    else .again { s with
      model := fallback
      fallbackModel := none
      summaryInput := rebuilt.1
      includedRuns := rebuilt.2
      budget := fallback.inputBudget
      attempt := s.attempt + 1 }
  | none =>
    match retryBudget policy s.attempt s.budget (s.model.estimate s.summaryInput) minimumProgress error with
    | none => .leave (s, .error error)
    | some { budget := _, kind := .sameBudgetTransient } => .again { s with attempt := s.attempt + 1 }
    | some { budget, kind := .shrink } =>
      let rebuilt := buildSummaryInput s.model.estimate view previousSummary (firstRun :: laterRuns) budget
      if rebuilt.2.isEmpty ∨ s.model.estimate s.summaryInput ≤ s.model.estimate rebuilt.1 then
        .leave (s, .error error)
      else .again { s with
        summaryInput := rebuilt.1
        includedRuns := rebuilt.2
        budget := budget
        attempt := s.attempt + 1 }

/-- One provider call, and what follows it. -/
def generationRound (s : Generation ρ) :
    Option (WhileLoop.Round (Generation ρ) (Generation ρ × Except SummaryFailure String)) :=
  let called := { s with calls := s.calls ++ [(s.model.name, s.summaryInput)] }
  match provider s.attempt s.model.name s.summaryInput with
  | .ok summary => some (.leave (called, .ok summary))
  | .error error => some (afterFailure view previousSummary firstRun laterRuns minimumProgress called error)

end

section

variable {ρ : Type*} (view : ρ → RunView)

/-- One summary chunk, retrying the same or smaller input when safe. -/
def generateCompactionSummaryWithRetry (fuel : Nat) (provider : Nat → String → String → Except SummaryFailure String)
    (model : SummaryModel) (fallbackModel : Option SummaryModel) (previousSummary : Option String) (firstRun : ρ)
    (laterRuns : List ρ) (initialSummaryInput : String) (initialIncludedRuns : List ρ) (summaryInputBudget : Int) :
    Option (Generation ρ × Except SummaryFailure String) :=
  WhileLoop.run
    (generationRound view provider previousSummary firstRun laterRuns
      (minimumProgressInputTokens model.estimate view previousSummary firstRun)) fuel
    { model, fallbackModel, summaryInput := initialSummaryInput, includedRuns := initialIncludedRuns,
      budget := summaryInputBudget }

end

/-! ## Chunks -/

/-- The working session while it is compacted: its runs and its summary, the selected runs that are pending, and
the model that summarizes. -/
structure Rewriting where
  runs : List SessionRun
  summary : Option String
  pendingSelectedRunIds : List String
  summaryModel : SummaryModel
  fallbackModel : Option SummaryModel
  summaryInputBudget : Int
  compactedRunIds : List String := []
  chunk : Nat := 0

def currentSummaryText (summary : Option String) : Option String :=
  (summary.map DynamicWorkflow.stripped).filter (· ≠ "")

section

variable (fuel : Nat) (view : SessionRun → RunView) (visible : SessionRun → Bool)
  (provider : Nat → Nat → String → String → Except SummaryFailure String)

def afterChunk (s : Rewriting) (chunk : Generation SessionRun) (summary : String) : Rewriting :=
  let compactedRunIds := chunk.includedRuns.map (·.runId)
  let switched := s.fallbackModel.isSome && chunk.fallbackModel.isNone
  { runs := runsWithout s.runs compactedRunIds
    summary := some summary
    pendingSelectedRunIds := s.pendingSelectedRunIds.filter (· ∉ compactedRunIds)
    summaryModel := chunk.model
    fallbackModel := chunk.fallbackModel
    summaryInputBudget := if switched then chunk.budget else s.summaryInputBudget
    compactedRunIds := s.compactedRunIds ++ compactedRunIds
    chunk := s.chunk + 1 }

/-- One chunk. The loop is left when no run is pending, when none fits, and with the exception of a call. -/
def rewritingRound (s : Rewriting) : Option (WhileLoop.Round Rewriting (Rewriting × Option SummaryFailure)) :=
  if s.pendingSelectedRunIds = [] then some (.leave (s, none))
  else
    match s.runs.filter fun run => visible run ∧ run.runId ∈ s.pendingSelectedRunIds with
    | [] => some (.leave (s, none))
    | firstRun :: laterRuns =>
      let previousSummary := currentSummaryText s.summary
      let built := buildSummaryInput s.summaryModel.estimate view previousSummary (firstRun :: laterRuns)
        s.summaryInputBudget
      if built.2.isEmpty then some (.leave (s, none))
      else
        match generateCompactionSummaryWithRetry view fuel (provider s.chunk) s.summaryModel s.fallbackModel
            previousSummary firstRun laterRuns built.1 built.2 s.summaryInputBudget with
        | none => none
        | some (_, .error error) => some (.leave (s, some error))
        | some (chunk, .ok summary) => some (.again (afterChunk s chunk summary))

def rewriteWorkingSessionForCompaction (s : Rewriting) : Option (Rewriting × Option SummaryFailure) :=
  WhileLoop.run (rewritingRound fuel view visible provider) fuel s

end

end MindRoom.CompactionInputs
