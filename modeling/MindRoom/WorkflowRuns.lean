import MindRoom.WorkflowSoundness

/-! # Runs of accepted workflows

A run over an accepted spec executes one step after the other, with what the steps before it have left,
and ends with the declared outputs. The two runners do the same but for the times they note.
-/

namespace MindRoom.DynamicWorkflow

open Transaction (except_bind_eq_ok)

def outputsOf (results : List StepResult) : Fields := results.map fun result => (result.stepId, result.content)

theorem map_fst_outputsOf (results : List StepResult) : (outputsOf results).map (·.1) = results.map (·.stepId) := by
  rw [outputsOf, List.map_map]
  rfl

section

variable {κ σ : Type}

/-- Every step of a list has run once and in order: each is computed from the outputs of exactly those
before it, in the state of the participants that they have left behind. -/
inductive RunsInOrder (contents : Contents σ) :
    (before : List StepResult) → List Fields → σ → List StepResult → σ → Prop
  | done {before : List StepResult} {agents : σ} : RunsInOrder contents before [] agents [] agents
  | step {before results : List StepResult} {step : Fields} {steps : List Fields} {agents agents' agents'' : σ}
      {result : StepResult} (id : Fields.get? step "id" = some (.str result.stepId))
      (type : Fields.get? step "type" = some (.str result.stepType)) (status : result.status = "completed")
      (error : result.error = none)
      (content : contents step result.stepType (outputsOf before) agents = (.ok result.content, agents'))
      (rest : RunsInOrder contents (before ++ [result]) steps agents' results agents'') :
      RunsInOrder contents before (step :: steps) agents (result :: results) agents''

/-- A participant executor that returns a string for each call. -/
def ReturnsStrings (executor : Executor σ) : Prop :=
  ∀ agents call, ∃ text agents', executor agents call = (.ok (.str text), agents')

variable {render : Value → String}

theorem agentContent_ok {executor : Executor σ} {table : List (String × Fields)}
    {step inputData stepOutputs found : Fields} {stepId participant template : String} {agents : σ}
    (hexecutor : ReturnsStrings executor) (hid : Fields.get? step "id" = some (.str stepId)) (hidTrimmed : Trimmed stepId)
    (hget : Fields.get? step "participant" = some (.str participant)) (htrimmed : Trimmed participant)
    (hfound : table.lookup participant = some found)
    (hfirst : agentStepTemplateFields.findSome? (textAt step) = some template)
    (hrenders : ∃ prompt, renderTemplate template inputData stepOutputs = .ok prompt) :
    ∃ text agents', agentContent render (some executor) table step inputData stepOutputs agents =
      (.ok (.str text), agents') := by
  rcases hrenders with ⟨prompt, hprompt⟩
  have hcall : agentCall render table step inputData stepOutputs stepId =
      .ok (participant, { participant := found, prompt, inputData, stepOutputs }) := by
    unfold agentCall
    rw [requiredText_trimmed hget htrimmed, except_bind_eq_ok]
    refine ⟨participant, rfl, ?_⟩
    rw [hfound]
    dsimp only
    rw [stepTemplate, hfirst, except_bind_eq_ok]
    refine ⟨template, rfl, ?_⟩
    rw [hprompt]
    rfl
  rcases hexecutor agents { participant := found, prompt, inputData, stepOutputs } with ⟨text, agents', hreturns⟩
  refine ⟨text, agents', ?_⟩
  unfold agentContent
  rw [requiredText_trimmed hid hidTrimmed]
  dsimp only
  rw [hcall]
  dsimp only
  rw [hreturns]

theorem reportContent_ok {step inputData stepOutputs : Fields} {stepIds : List String} (hbody : BodyReady stepIds step)
    (htitle : ∀ title, Fields.get? step "title" = some (.str title) → RefersTo stepIds title)
    (hinputs : ∀ template ∈ templates step, InputsResolve inputData template)
    (houtputs : stepIds ⊆ stepOutputs.map (·.1)) :
    ∃ text, reportContent step inputData stepOutputs = .ok (.str text) := by
  have hrendered : ∃ body, reportBody step inputData stepOutputs = .ok body := by
    cases hbody with
    | template body hget hrefers =>
      rw [reportBody, hget]
      exact renderTemplate_ok hrefers (hinputs body (mem_templates (by decide) hget)) houtputs
    | from_step source habsent hget htrimmed hknown =>
      rcases resolveStepReference_ok (houtputs hknown) with ⟨value, hvalue⟩
      refine ⟨stringifyTemplateValue value, ?_⟩
      rw [reportBody, habsent]
      dsimp only
      rw [requiredText_trimmed hget htrimmed, except_bind_eq_ok]
      refine ⟨source, rfl, ?_⟩
      rw [hvalue]
      rfl
  rcases hrendered with ⟨body, hbody⟩
  unfold reportContent
  rw [hbody]
  split
  · next title hget =>
    by_cases hempty : strip title = []
    · refine ⟨body, ?_⟩
      rw [except_bind_eq_ok]
      refine ⟨body, rfl, ?_⟩
      rw [if_pos hempty]
      rfl
    · rcases renderTemplate_ok (htitle title hget) (hinputs title (mem_templates (by decide) hget)) houtputs with
        ⟨rendered, hrendered⟩
      refine ⟨s!"# {rendered}\n\n{body}", ?_⟩
      rw [except_bind_eq_ok]
      refine ⟨body, rfl, ?_⟩
      rw [if_neg hempty, except_bind_eq_ok]
      exact ⟨rendered, hrendered, rfl⟩
  · exact ⟨body, rfl⟩

/-- A step that is ready has a text for its content, in either state of its surroundings. -/
theorem executeStepContent_ok {executor : Executor σ} {table : List (String × Fields)}
    {participantIds stepIds : List String} {step inputData stepOutputs : Fields} {stepId : String}
    (hexecutor : ReturnsStrings executor) (hready : Ready participantIds stepIds step)
    (hid : Fields.get? step "id" = some (.str stepId)) (hidTrimmed : Trimmed stepId)
    (hparticipants : ∀ id ∈ participantIds, ∃ participant, table.lookup id = some participant)
    (hinputs : ∀ template ∈ templates step, InputsResolve inputData template)
    (houtputs : stepIds ⊆ stepOutputs.map (·.1)) (agents : σ) :
    ∃ type text agents', Fields.get? step "type" = some (.str type) ∧
      executeStepContent render (some executor) table inputData step type stepOutputs agents =
        (.ok (.str text), agents') := by
  have hlisted : ∀ {fieldNames : List String} {template : String},
      fieldNames ⊆ agentStepTemplateFields ++ ["text", "body_template", "title"] →
      fieldNames.findSome? (textAt step) = some template → template ∈ templates step := by
    intro fieldNames template hsub hfirst
    rcases List.exists_of_findSome?_eq_some hfirst with ⟨field, hmem, htext⟩
    exact List.mem_filterMap.mpr ⟨field, hsub hmem, htext⟩
  cases hready with
  | agent participant template htype hget htrimmed hknown hfirst hrefers =>
    rcases hparticipants participant hknown with ⟨found, hfound⟩
    have hrenders := renderTemplate_ok hrefers (hinputs template (hlisted (by decide) hfirst)) houtputs
    rcases agentContent_ok hexecutor hid hidTrimmed hget htrimmed hfound hfirst hrenders with
      ⟨text, agents', hcontent⟩
    refine ⟨"agent_step", text, agents', htype, ?_⟩
    rw [executeStepContent, if_neg (by decide), if_pos rfl]
    exact hcontent
  | transform template htype hfirst hrefers =>
    rcases renderTemplate_ok hrefers (hinputs template (hlisted (by decide) hfirst)) houtputs with
      ⟨rendered, hrendered⟩
    refine ⟨"transform_step", rendered, agents, htype, ?_⟩
    have hcontent : transformContent render step inputData stepOutputs = .ok (.str rendered) := by
      rw [transformContent, stepTemplate, hfirst, except_bind_eq_ok]
      refine ⟨template, rfl, ?_⟩
      rw [hrendered]
      rfl
    rw [executeStepContent, if_pos rfl, hcontent]
  | report htype hbody htitle =>
    rcases reportContent_ok hbody htitle hinputs houtputs with ⟨text, htext⟩
    refine ⟨"report_step", text, agents, htype, ?_⟩
    rw [executeStepContent, if_neg (by decide), if_neg (by decide), if_pos rfl, htext]

theorem spelled_of_get? {data : Fields} {key default value : String}
    (hget : Fields.get? data key = some (.str value)) : spelled render data key default = value := by
  rw [spelled, hget]

/-- The loop runs through steps that are ready, and goes on to what follows the last. -/
theorem executeSteps_ok {host : Host κ σ} {executor : Executor σ} {table : List (String × Fields)}
    {participantIds stepIds allIds : List String} {steps : List Fields} {spec inputData : Fields}
    (hexecutor : ReturnsStrings executor) (hready : ReadySteps participantIds stepIds steps allIds)
    (hparticipants : ∀ id ∈ participantIds, ∃ participant, table.lookup id = some participant)
    (hinputs : ∀ step ∈ steps, ∀ template ∈ templates step, InputsResolve inputData template)
    {before : List StepResult} (hbefore : before.map (·.stepId) = stepIds) (clock : κ) (agents : σ) :
    ∃ results clock' agents',
      RunsInOrder (executeStepContent host.render (some executor) table inputData) before steps agents results agents' ∧
      (before ++ results).map (·.stepId) = allIds ∧
      executeSteps host (executeStepContent host.render (some executor) table inputData) spec inputData before
          (outputsOf before) steps clock agents =
        (completedExecution host spec inputData (before ++ results) (outputsOf (before ++ results)), clock', agents') := by
  induction hready generalizing before clock agents with
  | nil =>
    refine ⟨[], clock, agents, .done, ?_, ?_⟩
    · rw [List.append_nil, hbefore]
    · rw [List.append_nil]
      rfl
  | @cons stepIds allIds step steps stepId hget htrimmed hnew hstep hrest ih =>
    have hvisible : stepIds ⊆ (outputsOf before).map (·.1) := by
      rw [map_fst_outputsOf, hbefore]
      exact fun id hid => hid
    rcases @executeStepContent_ok σ host.render executor table _ _ step inputData (outputsOf before) stepId hexecutor
      hstep hget htrimmed hparticipants (hinputs step List.mem_cons_self) hvisible agents with
      ⟨type, text, agents', htype, hcontent⟩
    have hexecuted : ∃ result clock', result.stepId = stepId ∧ result.stepType = type ∧ result.status = "completed" ∧
        result.error = none ∧ result.content = .str text ∧
        executeWorkflowStep host (executeStepContent host.render (some executor) table inputData) step
          (outputsOf before) clock agents = (.ok result, clock', agents') := by
      refine ⟨{ stepId, stepType := type, status := "completed", content := .str text,
                startedAt := (host.utcNow clock).1, completedAt := (host.utcNow (host.utcNow clock).2).1 },
        (host.utcNow (host.utcNow clock).2).2, rfl, rfl, rfl, rfl, rfl, ?_⟩
      unfold executeWorkflowStep
      rw [requiredText_trimmed hget htrimmed]
      dsimp only
      rw [spelled_of_get? htype, hcontent]
    rcases hexecuted with ⟨result, clock', hresultId, hresultType, hstatus, herror, hresultContent, hexecuted⟩
    have hbefore' : (before ++ [result]).map (·.stepId) = stepIds ++ [stepId] := by
      rw [List.map_append, hbefore, List.map_singleton, hresultId]
    rcases ih (fun step hmem => hinputs step (List.mem_cons_of_mem _ hmem)) hbefore' clock' agents' with
      ⟨results, clock'', agents'', hruns, hids, hloop⟩
    have houtputs : Fields.set (outputsOf before) result.stepId result.content = outputsOf (before ++ [result]) := by
      rw [set_of_not_mem, outputsOf, outputsOf, List.map_append, List.map_singleton]
      rw [map_fst_outputsOf, hbefore, hresultId]
      exact hnew
    rw [List.append_assoc, List.singleton_append] at hids hloop
    refine ⟨result :: results, clock'', agents'', ?_, hids, ?_⟩
    · refine .step ?_ ?_ hstatus herror ?_ hruns
      · rw [hresultId]
        exact hget
      · rw [hresultType]
        exact htype
      · rw [hresultType, hresultContent]
        exact hcontent
    · rw [executeSteps, hexecuted]
      dsimp only
      rw [houtputs]
      exact hloop

/-! ## The end of a run -/

/-- An entry of the outputs is what a declared output asks for: under its id, the content of the step that it
names. -/
def Declares (results : List StepResult) (output : Fields) (entry : String × Value) : Prop :=
  Fields.get? output "id" = some (.str entry.1) ∧
    ∃ result ∈ results, Fields.get? output "from_step" = some (.str result.stepId) ∧ entry.2 = result.content

/-- The outputs that the validator accepts are collected, each from the step that it names. -/
theorem outputsFrom_ok {rawOutputs : List Value} {index : Nat} {stepIds outputIds : List String}
    {declared : List Fields} {results : List StepResult} (hids : results.map (·.stepId) = stepIds)
    (h : validateOutputList stepIds index outputIds rawOutputs = .ok declared) {outputs : Fields}
    (houtputs : outputs.map (·.1) = outputIds) :
    ∃ entries, outputsFrom (outputsOf results) outputs (declared.map .dict) = .ok (outputs ++ entries) ∧
      List.Forall₂ (Declares results) declared entries := by
  induction rawOutputs generalizing index outputIds declared outputs with
  | nil =>
    cases h
    refine ⟨[], ?_, .nil⟩
    rw [List.append_nil]
    rfl
  | cons rawOutput rawOutputs ih =>
    cases rawOutput with
    | dict output =>
      rw [validateOutputList] at h
      rcases except_bind_eq_ok.mp h with ⟨⟨output', outputId⟩, hvalidated, h⟩
      rcases except_bind_eq_ok.mp h with ⟨rest, hrest, h⟩
      cases h
      rcases outputReady_of_validate hvalidated with ⟨hnew, source, hid, hidTrimmed, hsource, htrimmed, hknown⟩
      rcases Fields.mem_keys.mp (show source ∈ (outputsOf results).map (·.1) by
        rw [map_fst_outputsOf, hids]
        exact hknown) with ⟨content, hcontent⟩
      have hset : Fields.set outputs outputId content = outputs ++ [(outputId, content)] := by
        apply set_of_not_mem
        rw [houtputs]
        exact hnew
      have houtputs' : (outputs ++ [(outputId, content)]).map (·.1) = outputIds ++ [outputId] := by
        rw [List.map_append, houtputs]
        rfl
      rcases ih hrest houtputs' with ⟨entries, hentries, hdeclared⟩
      refine ⟨(outputId, content) :: entries, ?_, .cons ?_ hdeclared⟩
      · rw [List.map_cons, outputsFrom, requiredText_trimmed hid hidTrimmed, except_bind_eq_ok]
        refine ⟨outputId, rfl, ?_⟩
        rw [hsource]
        dsimp only
        rw [if_neg htrimmed.nonempty, htrimmed.fixed, resolveStepReference, hcontent, except_bind_eq_ok]
        refine ⟨content, rfl, ?_⟩
        rw [hset, hentries, List.append_assoc]
        rfl
      · rcases List.mem_map.mp (mem_of_get? hcontent) with ⟨result, hresult, hentry⟩
        rw [Prod.mk.injEq] at hentry
        refine ⟨hid, result, hresult, ?_, hentry.2.symm⟩
        rw [hentry.1]
        exact hsource
    | _ => cases h

theorem firstHtmlReport_ok {declared : List Fields}
    {rawOutputs : List Value} {index : Nat} {stepIds outputIds : List String}
    (h : validateOutputList stepIds index outputIds rawOutputs = .ok declared) :
    ∃ outputId?, firstHtmlReport (declared.map .dict) = .ok outputId? := by
  induction rawOutputs generalizing index outputIds declared with
  | nil =>
    cases h
    exact ⟨none, rfl⟩
  | cons rawOutput rawOutputs ih =>
    cases rawOutput with
    | dict output =>
      rw [validateOutputList] at h
      rcases except_bind_eq_ok.mp h with ⟨⟨output', outputId⟩, hvalidated, h⟩
      rcases except_bind_eq_ok.mp h with ⟨rest, hrest, h⟩
      cases h
      rcases outputReady_of_validate hvalidated with ⟨_, source, hid, hidTrimmed, _⟩
      rw [List.map_cons, firstHtmlReport]
      split
      · refine ⟨some outputId, ?_⟩
        rw [requiredText_trimmed hid hidTrimmed]
        rfl
      · exact ih hrest
    | _ => cases h

theorem reportMarkdown_ok {spec inputData : Fields} {steps : List StepResult}
    {outputs : Fields} {name : Value} (hname : Fields.get? spec "name" = some name)
    (hhtml : ∃ outputId?, firstHtmlReportOutput spec = .ok outputId?) :
    ∃ report, reportMarkdown render spec inputData steps outputs = .ok report := by
  rcases hhtml with ⟨outputId?, hhtml⟩
  have hsteps : ∃ report, stepsReport render spec inputData steps = .ok report := by
    unfold stepsReport
    split
    · exact ⟨_, rfl⟩
    · rw [specTitle, hname]
      exact ⟨_, rfl⟩
  unfold reportMarkdown
  simp only [except_bind_eq_ok]
  cases hfound : outputId?.bind (Fields.get? outputs) with
  | none =>
    rcases hsteps with ⟨report, hreport⟩
    refine ⟨report, outputId?, hhtml, ?_⟩
    rw [hfound]
    exact hreport
  | some content =>
    refine ⟨withInputSection (stringifyTemplateValue content) inputData, outputId?, hhtml, ?_⟩
    rw [hfound]
    rfl

/-- A run over an accepted spec ends with the outputs that it declares. -/
theorem completedExecution_ok {host : Host κ σ} {spec inputData : Fields} {results : List StepResult}
    {stepIds : List String} {declared : List Fields} {name : Value} (hname : Fields.get? spec "name" = some name)
    (hdeclared : Fields.get? spec "outputs" = some (.list (declared.map .dict)))
    (hvalid : validateOutputList stepIds 0 [] (declared.map .dict) = .ok declared)
    (hids : results.map (·.stepId) = stepIds) :
    ∃ execution, completedExecution host spec inputData results (outputsOf results) = .ok execution ∧
      execution.status = "completed" ∧ execution.error = none ∧ execution.steps = results ∧
      List.Forall₂ (Declares results) declared execution.outputs := by
  rcases @outputsFrom_ok _ _ _ [] _ _ hids hvalid [] rfl with ⟨outputs, houtputs, hall⟩
  have hraw : rawOutputs spec = declared.map .dict := by
    rw [rawOutputs, hdeclared]
  have hhtml : ∃ outputId?, firstHtmlReportOutput spec = .ok outputId? := by
    rw [firstHtmlReportOutput, hraw]
    exact firstHtmlReport_ok hvalid
  rcases @reportMarkdown_ok host.render _ inputData results outputs _ hname hhtml with ⟨report, hreport⟩
  refine ⟨{ status := "completed", steps := results, outputs, reportMarkdown := report }, ?_, rfl, rfl, rfl, hall⟩
  unfold completedExecution
  rw [collectOutputs, hraw, houtputs, except_bind_eq_ok]
  refine ⟨outputs, rfl, ?_⟩
  rw [hreport]
  rfl

end

/-! ## The two runners -/

/-- A result without the times it notes. -/
def StepResult.untimed (result : StepResult) : StepResult := { result with startedAt := "", completedAt := "" }

def Execution.untimed (execution : Execution) : Execution :=
  { execution with steps := execution.steps.map StepResult.untimed }

section

variable {κ κ' σ : Type}

variable {render : Value → String}

/-- What the other runner computes for a step is the same. -/
theorem aexecuteStepContent_eq {executor? : Option (Executor σ)} {table : List (String × Fields)} {inputData : Fields} :
    aexecuteStepContent render executor? table inputData = executeStepContent render executor? table inputData := by
  funext step stepType stepOutputs agents
  unfold aexecuteStepContent
  by_cases hagent : stepType = "agent_step"
  · rw [if_neg (not_not.mpr hagent), executeStepContent, hagent, if_neg (by decide), if_pos rfl]
  · rw [if_pos hagent, executeStepContent, executeStepContent, if_neg hagent, if_neg hagent]

theorem stepsReport_untimed {spec inputData : Fields} {steps : List StepResult} :
    stepsReport render spec inputData (steps.map StepResult.untimed) = stepsReport render spec inputData steps := by
  unfold stepsReport
  rw [← List.map_reverse, List.find?_map, List.map_map]
  have hfind : ((fun step : StepResult => decide (step.stepType = "report_step")) ∘ StepResult.untimed) =
      fun step => decide (step.stepType = "report_step") := rfl
  rw [hfind]
  cases steps.reverse.find? fun step => decide (step.stepType = "report_step") with
  | none => rfl
  | some step => rfl

theorem reportMarkdown_untimed {spec inputData outputs : Fields} {steps : List StepResult} :
    reportMarkdown render spec inputData (steps.map StepResult.untimed) outputs =
      reportMarkdown render spec inputData steps outputs := by
  unfold reportMarkdown
  rw [stepsReport_untimed]

theorem failedReportMarkdown_untimed {spec inputData : Fields} {steps : List StepResult} {error : String} :
    failedReportMarkdown render spec inputData (steps.map StepResult.untimed) error =
      failedReportMarkdown render spec inputData steps error := by
  unfold failedReportMarkdown
  rw [List.map_map]
  rfl

structure SameAgents (host : Host κ σ) (host' : Host κ' σ) : Prop where
  executor : host.executor? = host'.executor?
  render : host.render = host'.render

variable {host : Host κ σ} {host' : Host κ' σ}

theorem completedExecution_untimed (hsame : SameAgents host host') {spec inputData stepOutputs : Fields}
    {steps steps' : List StepResult} (hsteps : steps.map StepResult.untimed = steps'.map StepResult.untimed) :
    (completedExecution host spec inputData steps stepOutputs).map Execution.untimed =
      (completedExecution host' spec inputData steps' stepOutputs).map Execution.untimed := by
  have hreport : ∀ outputs, reportMarkdown host.render spec inputData steps outputs =
      reportMarkdown host'.render spec inputData steps' outputs := by
    intro outputs
    rw [hsame.render, ← reportMarkdown_untimed, hsteps, reportMarkdown_untimed]
  unfold completedExecution
  cases collectOutputs spec stepOutputs with
  | error err => rfl
  | ok outputs =>
    dsimp only [bind, Except.bind]
    rw [hreport]
    cases reportMarkdown host'.render spec inputData steps' outputs with
    | error err => rfl
    | ok report =>
      dsimp only [pure, Except.pure, Except.map, Execution.untimed]
      rw [hsteps]

theorem failedExecution_untimed (hsame : SameAgents host host') {spec inputData : Fields}
    {steps steps' : List StepResult} {error : String}
    (hsteps : steps.map StepResult.untimed = steps'.map StepResult.untimed) :
    (failedExecution host spec inputData steps error).map Execution.untimed =
      (failedExecution host' spec inputData steps' error).map Execution.untimed := by
  have hreport : failedReportMarkdown host.render spec inputData steps error =
      failedReportMarkdown host'.render spec inputData steps' error := by
    rw [hsame.render, ← failedReportMarkdown_untimed, hsteps, failedReportMarkdown_untimed]
  unfold failedExecution
  rw [hreport]
  cases failedReportMarkdown host'.render spec inputData steps' error with
  | error err => rfl
  | ok report =>
    dsimp only [bind, Except.bind, pure, Except.pure, Except.map, Execution.untimed]
    rw [hsteps]

/-- One step gives the same result but for its times, and leaves the participants in the same state. -/
theorem executeWorkflowStep_untimed (hsame : SameAgents host host') {contents : Contents σ} {step stepOutputs : Fields}
    (clock : κ) (clock' : κ') (agents : σ) :
    (executeWorkflowStep host contents step stepOutputs clock agents).1.map StepResult.untimed =
        (executeWorkflowStep host' contents step stepOutputs clock' agents).1.map StepResult.untimed ∧
      (executeWorkflowStep host contents step stepOutputs clock agents).2.2 =
        (executeWorkflowStep host' contents step stepOutputs clock' agents).2.2 := by
  unfold executeWorkflowStep
  cases Runner.requiredText step "id" with
  | error err => exact ⟨rfl, rfl⟩
  | ok stepId =>
    dsimp only
    rw [hsame.render]
    rcases contents step (spelled host'.render step "type" "agent_step") stepOutputs agents with ⟨content, agents'⟩
    cases content with
    | error err => exact ⟨rfl, rfl⟩
    | ok content => exact ⟨rfl, rfl⟩

/-- The loops of two runs with different clocks do the same but for the times. -/
theorem executeSteps_untimed (hsame : SameAgents host host') {contents : Contents σ} {spec inputData : Fields}
    {rest : List Fields} {steps steps' : List StepResult} {stepOutputs : Fields}
    (hsteps : steps.map StepResult.untimed = steps'.map StepResult.untimed) (clock : κ) (clock' : κ') (agents : σ) :
    (executeSteps host contents spec inputData steps stepOutputs rest clock agents).1.map Execution.untimed =
        (executeSteps host' contents spec inputData steps' stepOutputs rest clock' agents).1.map Execution.untimed ∧
      (executeSteps host contents spec inputData steps stepOutputs rest clock agents).2.2 =
        (executeSteps host' contents spec inputData steps' stepOutputs rest clock' agents).2.2 := by
  induction rest generalizing steps steps' stepOutputs clock clock' agents with
  | nil => exact ⟨completedExecution_untimed hsame hsteps, rfl⟩
  | cons step rest ih =>
    have hexecuted := @executeWorkflowStep_untimed _ _ _ _ _ hsame contents step stepOutputs clock clock' agents
    rw [executeSteps, executeSteps]
    generalize executeWorkflowStep host contents step stepOutputs clock agents = executed at hexecuted ⊢
    generalize executeWorkflowStep host' contents step stepOutputs clock' agents = executed' at hexecuted ⊢
    rcases executed with ⟨result, clockAfter, agentsAfter⟩
    rcases executed' with ⟨result', clockAfter', agentsAfter'⟩
    rcases hexecuted with ⟨hresults, hagents⟩
    obtain rfl : agentsAfter = agentsAfter' := hagents
    cases result with
    | ok result =>
      cases result' with
      | error err => cases hresults
      | ok result' =>
        have huntimed : result.untimed = result'.untimed := Except.ok.inj hresults
        have hid : result.stepId = result'.stepId := congrArg (·.stepId) huntimed
        have hcontent : result.content = result'.content := congrArg (·.content) huntimed
        dsimp only
        rw [hid, hcontent]
        apply ih
        rw [List.map_append, List.map_append, hsteps, List.map_singleton, List.map_singleton, huntimed]
    | error err =>
      cases result' with
      | ok result' => cases hresults
      | error err' =>
        obtain rfl : err = err' := Except.error.inj hresults
        cases err with
        | execution msg =>
          refine ⟨failedExecution_untimed hsame ?_, rfl⟩
          rw [List.map_append, List.map_append, hsteps, List.map_singleton, List.map_singleton, failedStep,
            failedStep, hsame.render]
          rfl
        | key name => exact ⟨rfl, rfl⟩
        | base text => exact ⟨rfl, rfl⟩

/-- The async runner returns for every spec what the other returns, but for the times. -/
theorem asyncExecuteWorkflowSpec_untimed (hsame : SameAgents host host') {spec inputData : Fields} (clock : κ)
    (clock' : κ') (agents : σ) : (executeWorkflowSpec host spec inputData clock agents).1.map Execution.untimed =
        (asyncExecuteWorkflowSpec host' spec inputData clock' agents).1.map Execution.untimed ∧
      (executeWorkflowSpec host spec inputData clock agents).2.2 =
        (asyncExecuteWorkflowSpec host' spec inputData clock' agents).2.2 := by
  unfold executeWorkflowSpec asyncExecuteWorkflowSpec executeWith
  cases participantsById spec with
  | error err => exact ⟨rfl, rfl⟩
  | ok participants =>
    dsimp only
    cases workflowSteps spec with
    | error err => exact ⟨rfl, rfl⟩
    | ok steps =>
      dsimp only
      rw [aexecuteStepContent_eq, hsame.executor, hsame.render]
      exact executeSteps_untimed hsame rfl clock clock' agents

/-! ## Accepted workflows -/

def mappingsAt (spec : Fields) (key : String) : List Fields :=
  match Fields.get? spec key with
  | some (.list items) => items.filterMap fun
      | .dict item => some item
      | _ => none
  | _ => []

theorem mappingsAt_of_get? {spec : Fields} {key : String} {items : List Fields}
    (h : Fields.get? spec key = some (.list (items.map .dict))) : mappingsAt spec key = items := by
  rw [mappingsAt, h]
  dsimp only
  rw [List.filterMap_map]
  exact List.filterMap_some

/-- Every input that a template of the spec refers to is there. -/
def InputsGiven (spec inputData : Fields) : Prop :=
  ∀ step ∈ mappingsAt spec "workflow", ∀ template ∈ templates step, InputsResolve inputData template

theorem nodup_of_ready {participantIds stepIds allIds : List String} {steps : List Fields}
    (h : ReadySteps participantIds stepIds steps allIds) (hnodup : stepIds.Nodup) : allIds.Nodup := by
  induction h with
  | nil => exact hnodup
  | cons stepId hget htrimmed hnew hready hrest ih =>
    apply ih
    rw [List.nodup_append]
    refine ⟨hnodup, List.nodup_singleton stepId, ?_⟩
    intro a ha b hb
    rw [List.mem_singleton.mp hb]
    rintro rfl
    exact hnew ha

/-- What a run over an accepted spec finds in it. -/
theorem exists_ready {normalized : Fields} (h : validateWorkflowSpec (.dict normalized) = .ok normalized) :
    ∃ participantIds table allIds steps declared name, participantsById normalized = .ok table ∧
      (∀ id ∈ participantIds, ∃ participant, table.lookup id = some participant) ∧
      Fields.get? normalized "workflow" = some (.list (steps.map .dict)) ∧
      ReadySteps participantIds [] steps allIds ∧ Fields.get? normalized "name" = some name ∧
      Fields.get? normalized "outputs" = some (.list (declared.map .dict)) ∧
      validateOutputList allIds 0 [] (declared.map .dict) = .ok declared := by
  rcases validateWorkflowSpec_eq_ok.mp h with ⟨accepted⟩
  rcases accepted.get?_entries with ⟨hgetParticipants, hgetSteps⟩
  have hparticipants : (validateParticipants 0 [] accepted.rawParticipants).errors = [] := by
    rw [accepted.participants_eq]
    exact accepted.participants_errors
  rcases participantTable_of_validate hparticipants with ⟨table, htable, hfound⟩
  rw [accepted.participants_eq] at htable hfound
  have hsteps : (validateWorkflowSteps accepted.participants.ids 0 [] accepted.rawSteps).errors = [] := by
    rw [accepted.steps_eq]
    exact accepted.steps_errors
  have hready := readySteps_of_validate hsteps
  rw [accepted.steps_eq] at hready
  rcases validateOutputs_ok accepted.outputs with ⟨declared, hset, hdeclared, _⟩
  have hname : ∃ name, Fields.get? normalized "name" = some name := by
    have hfields := accepted.fields
    simp only [fieldChecks, List.foldlM_cons, List.foldlM_nil, except_bind_eq_ok] at hfields
    rcases hfields with ⟨versioned, hversion, identified, hid, named, hname, _⟩
    unfold validateWorkflowNameField at hname
    rcases except_bind_eq_ok.mp hname with ⟨name, htext, _⟩
    rcases requiredText_eq_ok.mp htext with ⟨raw, hraw, _⟩
    rw [(validateWorkflowIdField_settles hid).beside "name" (by decide),
      (validateSchemaVersion_settles hversion).beside "name" (by decide)] at hraw
    exact ⟨.str raw, hraw⟩
  rcases hname with ⟨name, hname⟩
  refine ⟨accepted.participants.ids, table, accepted.steps.ids, accepted.steps.entries, declared, name, ?_, ?_, hgetSteps,
    hready, hname, ?_, hdeclared⟩
  · rw [participantsById, hgetParticipants]
    exact htable
  · intro id hid
    rcases hfound id hid with hnil | hfound
    · cases hnil
    · exact hfound
  · rw [hset]
    simp

/-- A run over an accepted spec whose inputs are there executes every step once and in order and returns the
declared outputs; the async runner returns the same; and the normalised spec is accepted as it is. -/
theorem accepted_runs {executor : Executor σ} {spec : Value} {normalized inputData : Fields}
    (hhost : host.executor? = some executor) (hsame : SameAgents host host') (hexecutor : ReturnsStrings executor)
    (haccepted : validateWorkflowSpec spec = .ok normalized) (hinputs : InputsGiven normalized inputData)
    (clock : κ) (clock' : κ') (agents : σ) : ∃ table execution execution', participantsById normalized = .ok table ∧
      (executeWorkflowSpec host normalized inputData clock agents).1 = .ok execution ∧
      execution.status = "completed" ∧ execution.error = none ∧
      RunsInOrder (executeStepContent host.render host.executor? table inputData) []
        (mappingsAt normalized "workflow") agents execution.steps
        (executeWorkflowSpec host normalized inputData clock agents).2.2 ∧
      (execution.steps.map (·.stepId)).Nodup ∧
      List.Forall₂ (Declares execution.steps) (mappingsAt normalized "outputs") execution.outputs ∧
      (asyncExecuteWorkflowSpec host' normalized inputData clock' agents).1 = .ok execution' ∧
      execution'.untimed = execution.untimed ∧
      validateWorkflowSpec (.dict normalized) = .ok normalized := by
  have hagain := validateWorkflowSpec_again haccepted
  rcases exists_ready hagain with ⟨participantIds, table, allIds, steps, declared, name, htable, hfound, hgetSteps, hready,
    hname, hgetOutputs, hdeclared⟩
  have hsteps : workflowSteps normalized = .ok steps := by
    rw [workflowSteps, hgetSteps]
    exact distinctSteps_of_ready hready fun id => Iff.rfl
  have hgiven : ∀ step ∈ steps, ∀ template ∈ templates step, InputsResolve inputData template := by
    intro step hmem
    apply hinputs
    rw [mappingsAt_of_get? hgetSteps]
    exact hmem
  rcases @executeSteps_ok _ _ host executor table _ _ _ _ normalized inputData hexecutor hready hfound hgiven [] rfl clock
    agents with ⟨results, clock'', agents', hruns, hids, hloop⟩
  rcases @completedExecution_ok _ _ host _ inputData _ _ _ _ hname hgetOutputs hdeclared hids with
    ⟨execution, hexecution, hstatus, herror, hresults, houtputs⟩
  have hrun : executeWorkflowSpec host normalized inputData clock agents = (.ok execution, clock'', agents') := by
    rw [executeWorkflowSpec, executeWith, htable]
    dsimp only
    rw [hsteps, hhost]
    dsimp only
    rw [← hexecution]
    exact hloop
  have hasync := (@asyncExecuteWorkflowSpec_untimed _ _ _ _ _ hsame normalized inputData clock clock' agents).1
  rw [hrun] at hasync
  rcases hasyncRun : (asyncExecuteWorkflowSpec host' normalized inputData clock' agents).1 with err | execution'
  · rw [hasyncRun] at hasync
    cases hasync
  rw [hasyncRun] at hasync
  refine ⟨table, execution, execution', htable, ?_, hstatus, herror, ?_, ?_, ?_, rfl, (Except.ok.inj hasync).symm, hagain⟩
  · rw [hrun]
  · rw [hrun, mappingsAt_of_get? hgetSteps, hresults, hhost]
    exact hruns
  · rw [hresults, hids]
    exact nodup_of_ready hready List.nodup_nil
  · rw [mappingsAt_of_get? hgetOutputs, hresults]
    exact houtputs

end

instance {spec inputData : Fields} : Decidable (InputsGiven spec inputData) :=
  inferInstanceAs (Decidable (∀ step ∈ mappingsAt spec "workflow", ∀ template ∈ templates step,
    ∀ reference ∈ references template, startswith reference "input." →
      (valueAt ((splitDots reference).drop 1) (.dict inputData)).isSome))

/-- A draft by a participant and a report on it. -/
def reviewSpec : Value :=
  .dict [("schema_version", .int 1), ("id", .str "review "), ("name", .str " Review"), ("kind", .str "workflow"),
    ("participants", .list [.dict [("id", .str "writer")]]),
    ("workflow", .list [
      .dict [("id", .str "draft"), ("participant", .str " writer"), ("prompt", .str "On {input.topic} ")],
      .dict [("id", .str "report"), ("type", .str "report_step"), ("body_template", .str "{steps.draft.content}")]]),
    ("outputs", .list [.dict [("id", .str "result"), ("type", .str "markdown"), ("from_step", .str "report")]])]

def reviewInput : Fields := [("topic", .str "tides")]

/-- Participants that answer with their prompt and count their calls. -/
def echo : Executor Nat := fun calls call => (.ok (.str call.prompt), calls + 1)

def echoHost : Host Nat Nat where
  utcNow clock := ("", clock + 1)
  executor? := some echo
  render _ := ""

theorem returnsStrings_echo : ReturnsStrings echo := fun calls call => ⟨call.prompt, calls + 1, rfl⟩

theorem accepted_runs_review : ∃ normalized execution, validateWorkflowSpec reviewSpec = .ok normalized ∧
    (executeWorkflowSpec echoHost normalized reviewInput 0 0).1 = .ok execution ∧ execution.status = "completed" := by
  have haccepted : ((validateWorkflowSpec reviewSpec).toOption.any fun normalized =>
      InputsGiven normalized reviewInput) = true := by decide +kernel
  rcases hspec : validateWorkflowSpec reviewSpec with err | normalized
  · rw [hspec] at haccepted
    cases haccepted
  rw [hspec] at haccepted
  have hinputs : InputsGiven normalized reviewInput := of_decide_eq_true haccepted
  have hsame : SameAgents echoHost echoHost := ⟨rfl, rfl⟩
  rcases accepted_runs rfl hsame returnsStrings_echo hspec hinputs 0 0 0 with
    ⟨_, execution, _, _, hexecution, hstatus, _⟩
  exact ⟨normalized, execution, rfl, hexecution, hstatus⟩

end MindRoom.DynamicWorkflow
