import MindRoom.WorkflowValidation

/-! # Running workflow specs

The runner executes the steps of a spec one after the other and hands each the outputs of those before
it. The clock and the participants are the run's surroundings: each has a state of its own, which a run
passes on. The two runners differ only in how the content of a step is computed.
-/

namespace MindRoom.DynamicWorkflow

inductive Raised where
  /-- `DynamicWorkflowExecutionError`. -/
  | execution (msg : String)
  /-- `KeyError`. -/
  | key (name : String)
  /-- Something that is no `Exception`, such as a cancellation. -/
  | base (text : String)

inductive ExecutorFailure where
  | execution (msg : String)
  | exception (text : String)
  | base (text : String)

/-- The arguments of the participant executor. -/
structure ParticipantCall where
  participant : Fields
  prompt : String
  inputData : Fields
  stepOutputs : Fields

structure StepResult where
  stepId : String
  stepType : String
  status : String
  content : Value
  startedAt : String
  completedAt : String
  error : Option String := none

/-- Execution summary for one Dynamic Workflow run. -/
structure Execution where
  status : String
  steps : List StepResult
  outputs : Fields
  reportMarkdown : String
  error : Option String := none

abbrev Executor (σ : Type) := σ → ParticipantCall → Except ExecutorFailure Value × σ

/-- The surroundings of a run: `_utc_now`, the participant executor, and what `str` makes of a value
that is no text. -/
structure Host (κ σ : Type) where
  utcNow : κ → String × κ
  executor? : Option (Executor σ)
  render : Value → String

/-! ## Templates -/

namespace Runner

def requiredText (data : Fields) (key : String) : Except Raised String :=
  match Fields.get? data key with
  | some (.str value) =>
    if strip value = [] then throw (.execution s!"Workflow step field '{key}' must be a non-empty string.")
    else return stripped value
  | _ => throw (.execution s!"Workflow step field '{key}' must be a non-empty string.")

end Runner

def stringifyTemplateValue : Value → String
  | .str value => value
  | value => String.ofList (value.dumps 0)

def unknownReference (reference : String) : Raised := .execution s!"Unknown template reference '{reference}'."

def resolveStepReference (stepId : String) (stepOutputs : Fields) : Except Raised Value :=
  match Fields.get? stepOutputs stepId with
  | some content => return content
  | none => throw (unknownReference ("steps." ++ stepId))

def valueAt : List String → Value → Option Value
  | [], value => some value
  | part :: parts, .dict fields => (Fields.get? fields part).bind (valueAt parts)
  | _ :: _, _ => none

def resolvePath (reference : String) (data : Fields) : Except Raised Value :=
  match valueAt ((splitDots reference).drop 1) (.dict data) with
  | some value => return value
  | none => throw (unknownReference reference)

def resolveTemplateReference (inputData stepOutputs : Fields) (reference : String) : Except Raised Value :=
  if startswith reference "input." then resolvePath reference inputData
  else if startswith reference "steps." then
    match splitDots reference with
    | [_, stepId] => resolveStepReference stepId stepOutputs
    | [_, stepId, "content"] => resolveStepReference stepId stepOutputs
    | _ => throw (unknownReference reference)
  else throw (unknownReference reference)

/-- The pieces of a template with what stands for its references. -/
def renderPieces (inputData stepOutputs : Fields) : List Piece → Except Raised (List Char)
  | [] => return []
  | .text chars :: rest => do
      let rendered ← renderPieces inputData stepOutputs rest
      return chars ++ rendered
  | .reference name :: rest => do
      let value ← resolveTemplateReference inputData stepOutputs name
      let rendered ← renderPieces inputData stepOutputs rest
      return (stringifyTemplateValue value).toList ++ rendered

def renderTemplate (template : String) (inputData stepOutputs : Fields) : Except Raised String := do
  let rendered ← renderPieces inputData stepOutputs (pieces template)
  return String.ofList rendered

/-! ## The content of a step -/

section

variable {κ σ : Type}

/-- `str(data.get(key, default))`. -/
def spelled (render : Value → String) (data : Fields) (key default : String) : String :=
  match Fields.get? data key with
  | none => default
  | some (.str value) => value
  | some value => render value

def textAt (step : Fields) (key : String) : Option String :=
  match Fields.get? step key with
  | some (.str value) => some value
  | _ => none

def stepTemplate (render : Value → String) (step : Fields) (fieldNames : List String) : Except Raised String :=
  match fieldNames.findSome? (textAt step) with
  | some template => return template
  | none =>
    throw (.execution ("Workflow step '" ++ spelled render step "id" "unknown" ++ "' must include one of: " ++
      ", ".intercalate fieldNames ++ "."))

def transformContent (render : Value → String) (step inputData stepOutputs : Fields) : Except Raised Value := do
  let template ← stepTemplate render step ["template", "text"]
  let rendered ← renderTemplate template inputData stepOutputs
  return .str rendered

def reportBody (step inputData stepOutputs : Fields) : Except Raised String :=
  match Fields.get? step "body_template" with
  | some (.str bodyTemplate) => renderTemplate bodyTemplate inputData stepOutputs
  | _ => do
      let sourceStep ← Runner.requiredText step "from_step"
      let content ← resolveStepReference sourceStep stepOutputs
      return stringifyTemplateValue content

def reportContent (step inputData stepOutputs : Fields) : Except Raised Value := do
  let body ← reportBody step inputData stepOutputs
  match Fields.get? step "title" with
  | some (.str title) =>
    if strip title = [] then return .str body
    let renderedTitle ← renderTemplate title inputData stepOutputs
    return .str s!"# {renderedTitle}\n\n{body}"
  | _ => return .str body

/-- The ids of an agent step and its participant, and the call its executor gets. -/
def agentCall (render : Value → String) (participantsById : List (String × Fields))
    (step inputData stepOutputs : Fields) (stepId : String) : Except Raised (String × ParticipantCall) := do
  let participantId ← Runner.requiredText step "participant"
  match participantsById.lookup participantId with
  | none => throw (.execution s!"Agent step '{stepId}' references unknown participant '{participantId}'.")
  | some participant =>
    let template ← stepTemplate render step agentStepTemplateFields
    let prompt ← renderTemplate template inputData stepOutputs
    return (participantId, { participant, prompt, inputData, stepOutputs })

def ExecutorFailure.raised (stepId participantId : String) : ExecutorFailure → Raised
  | .execution msg => .execution msg
  | .exception text => .execution s!"Agent step '{stepId}' participant '{participantId}' failed: {text}"
  | .base text => .base text

def agentContent (render : Value → String) (executor? : Option (Executor σ))
    (participantsById : List (String × Fields)) (step inputData stepOutputs : Fields) (agents : σ) :
    Except Raised Value × σ :=
  match Runner.requiredText step "id", executor? with
  | .error err, _ => (.error err, agents)
  | .ok stepId, none => (.error (.execution s!"Agent step '{stepId}' requires a participant executor."), agents)
  | .ok stepId, some executor =>
    match agentCall render participantsById step inputData stepOutputs stepId with
    | .error err => (.error err, agents)
    | .ok (participantId, call) =>
      match executor agents call with
      | (.ok content, agents) => (.ok content, agents)
      | (.error failure, agents) => (.error (failure.raised stepId participantId), agents)

/-- What computes the content of a step of some type from the outputs before it. -/
abbrev Contents (σ : Type) :=
  (step : Fields) → (stepType : String) → (stepOutputs : Fields) → σ → Except Raised Value × σ

def executeStepContent (render : Value → String) (executor? : Option (Executor σ))
    (participantsById : List (String × Fields)) (inputData : Fields) : Contents σ :=
  fun step stepType stepOutputs agents =>
    if stepType = "transform_step" then (transformContent render step inputData stepOutputs, agents)
    else if stepType = "agent_step" then
      agentContent render executor? participantsById step inputData stepOutputs agents
    else if stepType = "report_step" then (reportContent step inputData stepOutputs, agents)
    else (.error (.execution s!"Unsupported workflow step type '{stepType}'."), agents)

/-- Every step but one that calls a participant is executed as in the other runner, without an executor. -/
def aexecuteStepContent (render : Value → String) (executor? : Option (Executor σ))
    (participantsById : List (String × Fields)) (inputData : Fields) : Contents σ :=
  fun step stepType stepOutputs agents =>
    if stepType ≠ "agent_step" then
      executeStepContent render none participantsById inputData step stepType stepOutputs agents
    else agentContent render executor? participantsById step inputData stepOutputs agents

/-! ## A run -/

def executeWorkflowStep (host : Host κ σ) (contents : Contents σ) (step stepOutputs : Fields) (clock : κ)
    (agents : σ) : Except Raised StepResult × κ × σ :=
  match Runner.requiredText step "id" with
  | .error err => (.error err, clock, agents)
  | .ok stepId =>
    let stepType := spelled host.render step "type" "agent_step"
    let started := host.utcNow clock
    match contents step stepType stepOutputs agents with
    | (.error err, agents) => (.error err, started.2, agents)
    | (.ok content, agents) =>
      let completed := host.utcNow started.2
      (.ok { stepId, stepType, status := "completed", content, startedAt := started.1,
             completedAt := completed.1 }, completed.2, agents)

/-- The steps of a list, each with an id that none before it has. -/
def distinctSteps (seen : List String) : List Value → Except Raised (List Fields)
  | [] => return []
  | .dict step :: steps => do
      let stepId ← Runner.requiredText step "id"
      if stepId ∈ seen then throw (.execution s!"Duplicate workflow step id '{stepId}'.")
      let rest ← distinctSteps (stepId :: seen) steps
      return step :: rest
  | _ :: _ => throw (.execution "Workflow steps must be mappings.")

def workflowSteps (spec : Fields) : Except Raised (List Fields) :=
  match Fields.get? spec "workflow" with
  | none => return []
  | some (.list rawSteps) => distinctSteps [] rawSteps
  | some _ => throw (.execution "Workflow spec field 'workflow' must be a list.")

/-- Participants under their ids; the last of several with one id counts. -/
def participantTable : List Value → Except Raised (List (String × Fields))
  | [] => return []
  | .dict participant :: participants => do
      let participantId ← Runner.requiredText participant "id"
      let rest ← participantTable participants
      return rest ++ [(participantId, participant)]
  | _ :: _ => throw (.execution "Workflow participants must be mappings.")

def participantsById (spec : Fields) : Except Raised (List (String × Fields)) :=
  match Fields.get? spec "participants" with
  | none => return []
  | some (.list rawParticipants) => participantTable rawParticipants
  | some _ => throw (.execution "Workflow spec field 'participants' must be a list.")

def outputsFrom (stepOutputs : Fields) : (outputs : Fields) → List Value → Except Raised Fields
  | outputs, [] => return outputs
  | outputs, .dict output :: rawOutputs => do
      let outputId ← Runner.requiredText output "id"
      match Fields.get? output "from_step" with
      | some (.str fromStep) =>
        if strip fromStep = [] then outputsFrom stepOutputs outputs rawOutputs
        else do
          let content ← resolveStepReference (stripped fromStep) stepOutputs
          outputsFrom stepOutputs (Fields.set outputs outputId content) rawOutputs
      | _ => outputsFrom stepOutputs outputs rawOutputs
  | outputs, _ :: rawOutputs => outputsFrom stepOutputs outputs rawOutputs

/-- `spec.get("outputs", [])` where it is a list. -/
def rawOutputs (spec : Fields) : List Value :=
  match Fields.get? spec "outputs" with
  | some (.list outputs) => outputs
  | _ => []

def collectOutputs (spec stepOutputs : Fields) : Except Raised Fields := outputsFrom stepOutputs [] (rawOutputs spec)

/-! ## Reports -/

def firstHtmlReport : List Value → Except Raised (Option String)
  | [] => return none
  | .dict output :: outputs =>
    match Fields.get? output "type" with
    | some (.str "html_report") => do
        let outputId ← Runner.requiredText output "id"
        return some outputId
    | _ => firstHtmlReport outputs
  | _ :: outputs => firstHtmlReport outputs

def firstHtmlReportOutput (spec : Fields) : Except Raised (Option String) := firstHtmlReport (rawOutputs spec)

def inputJson (inputData : Fields) : String := String.ofList (Value.dumps 0 (.dict inputData))

def withInputSection (reportMarkdown : String) (inputData : Fields) : String :=
  s!"{rstripped reportMarkdown}\n\n## Input\n\n```json\n{inputJson inputData}\n```\n"

/-- `str(spec["name"])`. -/
def specTitle (render : Value → String) (spec : Fields) : Except Raised String :=
  match Fields.get? spec "name" with
  | none => throw (.key "name")
  | some _ => return spelled render spec "name" ""

def stepsReport (render : Value → String) (spec inputData : Fields) (steps : List StepResult) :
    Except Raised String :=
  match steps.reverse.find? (·.stepType = "report_step") with
  | some step => return withInputSection (stringifyTemplateValue step.content) inputData
  | none => do
      let title ← specTitle render spec
      let stepSections := "\n\n".intercalate
        (steps.map fun step => s!"## {step.stepId}\n\n{stringifyTemplateValue step.content}")
      return s!"# {title}\n\nDynamic Workflow run completed.\n\n## Input\n\n```json\n{inputJson inputData}\n```\n\n{stepSections}\n"

def reportMarkdown (render : Value → String) (spec inputData : Fields) (steps : List StepResult) (outputs : Fields) :
    Except Raised String := do
  match (← firstHtmlReportOutput spec).bind (Fields.get? outputs) with
  | some content => return withInputSection (stringifyTemplateValue content) inputData
  | none => stepsReport render spec inputData steps

def errorText : Option String → String
  | none => "None"
  | some error => error

def failedReportMarkdown (render : Value → String) (spec inputData : Fields) (steps : List StepResult)
    (error : String) : Except Raised String := do
  let title ← specTitle render spec
  let stepSections := "\n\n".intercalate
    (steps.map fun step => s!"## {step.stepId}\n\nStatus: {step.status}\n\nError: {errorText step.error}")
  return s!"# {title}\n\nDynamic Workflow run failed.\n\n## Error\n\n{error}\n\n## Input\n\n```json\n{inputJson inputData}\n```\n\n{stepSections}\n"

/-! ## The runners -/

def failedStep (host : Host κ σ) (step : Fields) (error : String) (clock : κ) : StepResult × κ :=
  let now := host.utcNow clock
  ({ stepId := spelled host.render step "id" "unknown", stepType := spelled host.render step "type" "agent_step",
     status := "failed", content := .str "", startedAt := now.1, completedAt := now.1, error := some error }, now.2)

def completedExecution (host : Host κ σ) (spec inputData : Fields) (steps : List StepResult)
    (stepOutputs : Fields) : Except Raised Execution := do
  let outputs ← collectOutputs spec stepOutputs
  let report ← reportMarkdown host.render spec inputData steps outputs
  return { status := "completed", steps, outputs, reportMarkdown := report }

def failedExecution (host : Host κ σ) (spec inputData : Fields) (steps : List StepResult) (error : String) :
    Except Raised Execution := do
  let report ← failedReportMarkdown host.render spec inputData steps error
  return { status := "failed", steps, outputs := [], reportMarkdown := report, error := some error }

/-- The loop of a run: the results so far and the outputs by step id are carried along. -/
def executeSteps (host : Host κ σ) (contents : Contents σ) (spec inputData : Fields) :
    (steps : List StepResult) → (stepOutputs : Fields) → List Fields → κ → σ → Except Raised Execution × κ × σ
  | steps, stepOutputs, [], clock, agents => (completedExecution host spec inputData steps stepOutputs, clock, agents)
  | steps, stepOutputs, step :: rest, clock, agents =>
    match executeWorkflowStep host contents step stepOutputs clock agents with
    | (.ok result, clock, agents) =>
      executeSteps host contents spec inputData (steps ++ [result])
        (Fields.set stepOutputs result.stepId result.content) rest clock agents
    | (.error (.execution msg), clock, agents) =>
      let failed := failedStep host step msg clock
      (failedExecution host spec inputData (steps ++ [failed.1]) msg, failed.2, agents)
    | (.error err, clock, agents) => (.error err, clock, agents)

/-- A run with a way to compute contents that is given the participants. -/
def executeWith (host : Host κ σ) (contents : List (String × Fields) → Contents σ) (spec inputData : Fields)
    (clock : κ) (agents : σ) : Except Raised Execution × κ × σ :=
  match participantsById spec with
  | .error err => (.error err, clock, agents)
  | .ok participants =>
    match workflowSteps spec with
    | .error err => (.error err, clock, agents)
    | .ok steps => executeSteps host (contents participants) spec inputData [] [] steps clock agents

def executeWorkflowSpec (host : Host κ σ) (spec inputData : Fields) (clock : κ) (agents : σ) :
    Except Raised Execution × κ × σ :=
  executeWith host (fun participants => executeStepContent host.render host.executor? participants inputData)
    spec inputData clock agents

/-- Execute a declarative Dynamic Workflow spec sequentially on the current event loop. -/
def asyncExecuteWorkflowSpec (host : Host κ σ) (spec inputData : Fields) (clock : κ) (agents : σ) :
    Except Raised Execution × κ × σ :=
  executeWith host (fun participants => aexecuteStepContent host.render host.executor? participants inputData)
    spec inputData clock agents

end

end MindRoom.DynamicWorkflow
