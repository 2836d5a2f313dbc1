import MindRoom.WorkflowNormal

/-! # What the runner finds in an accepted spec

`Ready` says what the runner needs of a step: that its participant is there and that its templates refer
to inputs and earlier steps only. The validator accepts no step that is not ready.
-/

namespace MindRoom.DynamicWorkflow

open Transaction (except_bind_eq_ok)

/-! ## Templates that render -/

/-- A template that refers to inputs and to some steps only. -/
def RefersTo (stepIds : List String) (template : String) : Prop :=
  ∀ reference ∈ references template, ¬ startswith reference "input." →
    startswith reference "steps." ∧ ∃ stepId ∈ stepIds, referencedStep reference = some stepId

theorem refersTo_of_forM {stepIds names : List String} {context : String} {u : Unit}
    (h : names.forM (validateTemplateReference stepIds context) = .ok u) :
    ∀ reference ∈ names, ¬ startswith reference "input." →
      startswith reference "steps." ∧ ∃ stepId ∈ stepIds, referencedStep reference = some stepId := by
  induction names with
  | nil =>
    intro reference hmem
    cases hmem
  | cons name names ih =>
    rcases except_bind_eq_ok.mp h with ⟨_, hname, hrest⟩
    intro reference hmem hinput
    rcases List.mem_cons.mp hmem with rfl | hmem
    · unfold validateTemplateReference at hname
      rw [if_neg hinput] at hname
      split at hname
      · next hsteps =>
        refine ⟨hsteps, ?_⟩
        split at hname
        · cases hname
        next stepId hstep =>
        split at hname
        · next hknown => exact ⟨stepId, hknown, hstep⟩
        · cases hname
      · cases hname
    · exact ih hrest reference hmem hinput

variable {step : Fields} {stepIds : List String}

theorem refersTo_of_validate {template context : String} {u : Unit}
    (h : validateTemplateReferences template stepIds context = .ok u) : RefersTo stepIds template :=
  refersTo_of_forM h

/-- Every reference to an input in a template has something there. -/
def InputsResolve (inputData : Fields) (template : String) : Prop :=
  ∀ reference ∈ references template, startswith reference "input." →
    (valueAt ((splitDots reference).drop 1) (.dict inputData)).isSome

theorem resolvePath_ok {reference : String} {inputData : Fields}
    (h : (valueAt ((splitDots reference).drop 1) (.dict inputData)).isSome) :
    ∃ value, resolvePath reference inputData = .ok value := by
  rcases Option.isSome_iff_exists.mp h with ⟨value, hvalue⟩
  refine ⟨value, ?_⟩
  rw [resolvePath, hvalue]
  rfl

theorem resolveStepReference_ok {stepId : String} {stepOutputs : Fields} (h : stepId ∈ stepOutputs.map (·.1)) :
    ∃ value, resolveStepReference stepId stepOutputs = .ok value := by
  rcases Fields.mem_keys.mp h with ⟨value, hvalue⟩
  refine ⟨value, ?_⟩
  rw [resolveStepReference, hvalue]
  rfl

theorem referencedStep_eq_some {reference stepId : String} (h : referencedStep reference = some stepId) :
    ∃ head, splitDots reference = [head, stepId] ∨ splitDots reference = [head, stepId, "content"] := by
  unfold referencedStep at h
  split at h
  · next head found hparts =>
    cases h
    exact ⟨head, .inl hparts⟩
  · next head found hparts =>
    cases h
    exact ⟨head, .inr hparts⟩
  · cases h

theorem resolveTemplateReference_ok {reference : String} {inputData stepOutputs : Fields}
    (hinput : startswith reference "input." → ∃ value, resolvePath reference inputData = .ok value)
    (hstep : ¬ startswith reference "input." → startswith reference "steps." ∧
      ∃ stepId ∈ stepOutputs.map (·.1), referencedStep reference = some stepId) :
    ∃ value, resolveTemplateReference inputData stepOutputs reference = .ok value := by
  unfold resolveTemplateReference
  by_cases hkind : startswith reference "input."
  · rw [if_pos hkind]
    exact hinput hkind
  rw [if_neg hkind]
  rcases hstep hkind with ⟨hsteps, stepId, hmem, hreferenced⟩
  rw [if_pos hsteps]
  rcases referencedStep_eq_some hreferenced with ⟨head, hparts | hparts⟩
  · rw [hparts]
    exact resolveStepReference_ok hmem
  · rw [hparts]
    exact resolveStepReference_ok hmem

theorem renderPieces_ok {inputData stepOutputs : Fields} {parts : List Piece}
    (h : ∀ name, Piece.reference name ∈ parts →
      ∃ value, resolveTemplateReference inputData stepOutputs name = .ok value) :
    ∃ rendered, renderPieces inputData stepOutputs parts = .ok rendered := by
  induction parts with
  | nil => exact ⟨[], rfl⟩
  | cons part parts ih =>
    rcases ih fun name hname => h name (List.mem_cons_of_mem part hname) with ⟨rendered, hrendered⟩
    cases part with
    | text chars =>
      refine ⟨chars ++ rendered, ?_⟩
      rw [renderPieces, hrendered]
      rfl
    | reference name =>
      rcases h name List.mem_cons_self with ⟨value, hvalue⟩
      refine ⟨(stringifyTemplateValue value).toList ++ rendered, ?_⟩
      rw [renderPieces, hvalue, hrendered]
      rfl

/-- A template renders where its inputs resolve and the steps it refers to have outputs. -/
theorem renderTemplate_ok {template : String} {inputData stepOutputs : Fields}
    (hrefers : RefersTo stepIds template) (hinputs : InputsResolve inputData template)
    (houtputs : stepIds ⊆ stepOutputs.map (·.1)) :
    ∃ rendered, renderTemplate template inputData stepOutputs = .ok rendered := by
  have hpieces : ∃ rendered, renderPieces inputData stepOutputs (pieces template) = .ok rendered := by
    apply renderPieces_ok
    intro name hname
    have hreference : name ∈ references template := by
      unfold references
      rw [List.mem_filterMap]
      exact ⟨Piece.reference name, hname, rfl⟩
    apply resolveTemplateReference_ok fun hinput => resolvePath_ok (hinputs name hreference hinput)
    intro hinput
    rcases hrefers name hreference hinput with ⟨hsteps, stepId, hmem, hreferenced⟩
    exact ⟨hsteps, stepId, houtputs hmem, hreferenced⟩
  rcases hpieces with ⟨rendered, hrendered⟩
  refine ⟨String.ofList rendered, ?_⟩
  rw [renderTemplate, hrendered]
  rfl

/-! ## Steps that are ready -/

def templates (step : Fields) : List String :=
  (agentStepTemplateFields ++ ["text", "body_template", "title"]).filterMap (textAt step)

theorem textAt_of_get? {key value : String} (h : Fields.get? step key = some (.str value)) :
    textAt step key = some value := by
  rw [textAt, h]

theorem mem_templates {key value : String} (hkey : key ∈ agentStepTemplateFields ++ ["text", "body_template", "title"])
    (h : Fields.get? step key = some (.str value)) : value ∈ templates step := by
  unfold templates
  rw [List.mem_filterMap]
  exact ⟨key, hkey, textAt_of_get? h⟩

/-- Where the body of a report comes from, for the runner. -/
inductive BodyReady (stepIds : List String) (step : Fields) : Prop
  | template (body : String) (get : Fields.get? step "body_template" = some (.str body))
      (refers : RefersTo stepIds body)
  | from_step (source : String) (absent : Fields.get? step "body_template" = none)
      (get : Fields.get? step "from_step" = some (.str source)) (trimmed : Trimmed source) (known : source ∈ stepIds)

/-- What the runner needs of a step with some participants and earlier steps. -/
inductive Ready (participantIds stepIds : List String) (step : Fields) : Prop
  | agent (participant template : String) (type : Fields.get? step "type" = some (.str "agent_step"))
      (get : Fields.get? step "participant" = some (.str participant)) (trimmed : Trimmed participant)
      (known : participant ∈ participantIds) (first : agentStepTemplateFields.findSome? (textAt step) = some template)
      (refers : RefersTo stepIds template)
  | transform (template : String) (type : Fields.get? step "type" = some (.str "transform_step"))
      (first : ["template", "text"].findSome? (textAt step) = some template) (refers : RefersTo stepIds template)
  | report (type : Fields.get? step "type" = some (.str "report_step")) (body : BodyReady stepIds step)
      (title : ∀ title, Fields.get? step "title" = some (.str title) → RefersTo stepIds title)

/-- A template field of an accepted step refers to earlier steps. -/
theorem refersTo_of_field {fieldName context : String}
    (h : validateTemplateField step fieldName context stepIds = .ok step) :
    ∃ template, Fields.get? step fieldName = some (.str template) ∧ RefersTo stepIds template := by
  unfold validateTemplateField at h
  simp only [except_bind_eq_ok] at h
  rcases h with ⟨template, _, _, hreferences, h⟩
  refine ⟨template, ?_, refersTo_of_validate hreferences⟩
  have hset : Fields.set step fieldName (.str template) = step := Except.ok.inj h
  rw [← hset, Fields.get?_set, if_pos rfl]

/-- The only template field there is the one that is found first. -/
theorem findSome?_textAt {fieldName template : String} {fieldNames : List String}
    (honly : (fieldNames.filter fun fieldName => (Fields.get? step fieldName).isSome) = [fieldName])
    (hget : Fields.get? step fieldName = some (.str template)) :
    fieldNames.findSome? (textAt step) = some template := by
  induction fieldNames with
  | nil => cases honly
  | cons other fieldNames ih =>
    rw [List.findSome?_cons]
    by_cases hother : (Fields.get? step other).isSome
    · rw [List.filter_cons, if_pos hother] at honly
      obtain rfl : other = fieldName := (List.cons.inj honly).1
      rw [textAt_of_get? hget]
    · rw [List.filter_cons, if_neg hother] at honly
      have hnone : textAt step other = none := by
        rw [textAt, Option.not_isSome_iff_eq_none.mp hother]
      rw [hnone]
      exact ih honly

theorem refersTo_of_choice {context : String} {fieldNames stepIds : List String}
    (h : validateTemplateChoice step context fieldNames stepIds = .ok step) :
    ∃ template, fieldNames.findSome? (textAt step) = some template ∧ RefersTo stepIds template := by
  unfold validateTemplateChoice at h
  split at h
  · cases h
  · next fieldName honly =>
    rcases refersTo_of_field h with ⟨template, hget, hrefers⟩
    exact ⟨template, findSome?_textAt honly hget, hrefers⟩
  · cases h

theorem bodyReady_of_validate {context : String}
    (h : validateReportSource step context stepIds = .ok step) : BodyReady stepIds step := by
  unfold validateReportSource at h
  split at h
  · split at h
    · cases h
    · rcases refersTo_of_field h with ⟨body, hget, hrefers⟩
      exact .template body hget hrefers
  · next hbody =>
    rcases except_bind_eq_ok.mp h with ⟨source, hsource, h⟩
    split at h
    · next hknown =>
      have hset : Fields.set step "from_step" (.str source) = step := Except.ok.inj h
      have hget : Fields.get? step "from_step" = some (.str source) := by
        rw [← hset, Fields.get?_set, if_pos rfl]
      exact .from_step source (Option.not_isSome_iff_eq_none.mp hbody) hget (trimmed_of_requiredText hsource) hknown
    · cases h

theorem refersTo_of_title {context title : String}
    (h : validateReportTitle step context stepIds = .ok step) (hget : Fields.get? step "title" = some (.str title)) :
    RefersTo stepIds title := by
  unfold validateReportTitle at h
  rw [hget] at h
  rcases refersTo_of_field h with ⟨title', hget', hrefers⟩
  rw [hget] at hget'
  cases hget'
  exact hrefers

/-- The validator leaves a step as it is only where the runner has what it needs. -/
theorem ready_of_body {type context : String} {participantIds stepIds : List String}
    (htype : Fields.get? step "type" = some (.str type)) (hknown : type ∈ stepTypes)
    (h : validateStepBody step type context participantIds stepIds = .ok step) :
    Ready participantIds stepIds step := by
  unfold validateStepBody at h
  split at h
  · next hagent =>
    subst hagent
    rcases except_bind_eq_ok.mp h with ⟨_, _, h⟩
    unfold validateAgentStep at h
    rcases except_bind_eq_ok.mp h with ⟨participant, hparticipant, h⟩
    split at h
    · cases h
    next hmem =>
    have hget : Fields.get? step "participant" = some (.str participant) := by
      rw [(validateTemplateChoice_again h).1 "participant" (by decide)]
      simp
    rw [Fields.set_self hget] at h
    rcases refersTo_of_choice h with ⟨template, hfirst, hrefers⟩
    exact .agent participant template htype hget (trimmed_of_requiredText hparticipant) (not_not.mp hmem) hfirst hrefers
  next hagent =>
  split at h
  · next htransform =>
    subst htransform
    rcases except_bind_eq_ok.mp h with ⟨_, _, h⟩
    rcases refersTo_of_choice h with ⟨template, hfirst, hrefers⟩
    exact .transform template htype hfirst hrefers
  · next htransform =>
    have hreport : type = "report_step" := by
      rcases List.mem_cons.mp hknown with rfl | hknown
      · exact absurd rfl hagent
      rcases List.mem_cons.mp hknown with rfl | hknown
      · rfl
      · exact absurd (List.mem_singleton.mp hknown) htransform
    subst hreport
    rcases except_bind_eq_ok.mp h with ⟨_, _, h⟩
    unfold validateReportStep at h
    rcases except_bind_eq_ok.mp h with ⟨sourced, hsource, htitle⟩
    rcases validateReportTitle_again htitle with ⟨hsame, _, htitle⟩
    have hsource := (validateReportSource_again hsource).2.2 step (by
      intro key hkey
      apply hsame
      rintro rfl
      revert hkey
      decide)
    exact .report htype (bodyReady_of_validate hsource) fun title hget => refersTo_of_title htitle hget

/-- A list of steps that can run one after the other behind some that have run, and the ids of all of them. -/
inductive ReadySteps (participantIds : List String) : (stepIds : List String) → List Fields → List String → Prop
  | nil {stepIds : List String} : ReadySteps participantIds stepIds [] stepIds
  | cons {stepIds allIds : List String} {step : Fields} {steps : List Fields} (stepId : String)
      (get : Fields.get? step "id" = some (.str stepId)) (trimmed : Trimmed stepId) (new : stepId ∉ stepIds)
      (ready : Ready participantIds stepIds step) (rest : ReadySteps participantIds (stepIds ++ [stepId]) steps allIds) :
      ReadySteps participantIds stepIds (step :: steps) allIds

theorem ready_of_step {index : Nat} {participantIds stepIds stepIds' : List String}
    (h : validateWorkflowStep step index participantIds stepIds = (.ok (), step, stepIds')) :
    ∃ stepId, stepIds' = stepIds ++ [stepId] ∧ Fields.get? step "id" = some (.str stepId) ∧ Trimmed stepId ∧
      stepId ∉ stepIds ∧ Ready participantIds stepIds step := by
  unfold validateWorkflowStep at h
  dsimp only at h
  split at h
  · cases h
  next stepId hid =>
  split at h
  · cases h
  next type htype =>
  split at h
  · cases h
  next validated hbody =>
  have hvalidated : validated = step := congrArg (fun result => result.2.1) h
  have hids : stepIds ++ [stepId] = stepIds' := congrArg (fun result => result.2.2) h
  subst hvalidated
  rcases validateStepBody_again hbody with ⟨hsame, hagain⟩
  have hgetId : Fields.get? validated "id" = some (.str stepId) := by
    rw [hsame "id" (by decide)]
    simp
  have hgetType : Fields.get? validated "type" = some (.str type) := by
    rw [hsame "type" (by decide)]
    simp
  rw [validateEntryId_eq_ok] at hid
  exact ⟨stepId, hids.symm, hgetId, trimmed_of_requiredText hid.1, hid.2.2,
    ready_of_body hgetType (stepType_ok htype).1 hagain⟩

/-- The steps that the validator leaves behind are ready, and it knows their ids. -/
theorem readySteps_of_validate {participantIds : List String} {steps : List Fields} {index : Nat}
    (h : (validateWorkflowSteps participantIds index stepIds steps).errors = []) :
    ReadySteps participantIds stepIds (validateWorkflowSteps participantIds index stepIds steps).entries
      (validateWorkflowSteps participantIds index stepIds steps).ids := by
  induction steps generalizing index stepIds with
  | nil => exact .nil
  | cons step steps ih =>
    rw [validateWorkflowSteps] at h ⊢
    rcases hvalidated : validateWorkflowStep step index participantIds stepIds with ⟨result, step', stepIds'⟩
    rw [hvalidated] at h
    cases result with
    | error err => cases h
    | ok _ =>
      dsimp only at h ⊢
      rcases ready_of_step (validateWorkflowStep_again hvalidated) with
        ⟨stepId, rfl, hget, htrimmed, hnew, hready⟩
      exact .cons stepId hget htrimmed hnew hready (ih h)

/-! ## Participants, steps and outputs by their ids -/

theorem requiredText_trimmed {data : Fields} {key value : String} (hget : Fields.get? data key = some (.str value))
    (hvalue : Trimmed value) : Runner.requiredText data key = .ok value := by
  rw [Runner.requiredText, hget]
  dsimp only
  rw [if_neg hvalue.nonempty, hvalue.fixed]
  rfl

/-- The runner finds every participant that the validator knows. -/
theorem participantTable_of_validate {participants : List Fields} {index : Nat} {ids : List String}
    (h : (validateParticipants index ids participants).errors = []) :
    ∃ table, participantTable ((validateParticipants index ids participants).entries.map .dict) = .ok table ∧
      ∀ id ∈ (validateParticipants index ids participants).ids, id ∈ ids ∨ ∃ participant, table.lookup id = some participant := by
  induction participants generalizing index ids with
  | nil => exact ⟨[], rfl, fun id hid => .inl hid⟩
  | cons participant participants ih =>
    rw [validateParticipants] at h ⊢
    rcases hvalidated : validateParticipant participant index ids with ⟨result, ids'⟩
    rw [hvalidated] at h
    cases result with
    | error err => cases h
    | ok participant' =>
      dsimp only at h ⊢
      rcases (validateParticipant_again hvalidated).1 with ⟨id, rfl, _, htrimmed, hget⟩
      rcases ih h with ⟨table, htable, hfound⟩
      refine ⟨table ++ [(id, participant')], ?_, ?_⟩
      · rw [List.map_cons, participantTable, requiredText_trimmed hget htrimmed, htable]
        rfl
      · intro id' hid'
        rw [List.lookup_append]
        rcases hfound id' hid' with hid' | ⟨found, hfound⟩
        · rcases List.mem_append.mp hid' with hid' | hid'
          · exact .inl hid'
          · rw [List.mem_singleton.mp hid']
            right
            cases table.lookup id with
            | none => exact ⟨participant', by simp [List.lookup]⟩
            | some other => exact ⟨other, rfl⟩
        · right
          rw [hfound]
          exact ⟨found, rfl⟩

theorem distinctSteps_of_ready {participantIds stepIds allIds : List String} {steps : List Fields}
    (h : ReadySteps participantIds stepIds steps allIds) {seen : List String} (hseen : ∀ id, id ∈ seen ↔ id ∈ stepIds) :
    distinctSteps seen (steps.map .dict) = .ok steps := by
  induction h generalizing seen with
  | nil => rfl
  | @cons stepIds allIds step steps stepId hget htrimmed hnew hready hrest ih =>
    have hfresh : stepId ∉ seen := fun hmem => hnew ((hseen stepId).mp hmem)
    have hseen' : ∀ id, id ∈ stepId :: seen ↔ id ∈ stepIds ++ [stepId] := by
      intro id
      rw [List.mem_cons, List.mem_append, List.mem_singleton, hseen id, or_comm]
    rw [List.map_cons, distinctSteps, requiredText_trimmed hget htrimmed, except_bind_eq_ok]
    refine ⟨stepId, rfl, ?_⟩
    rw [if_neg hfresh, except_bind_eq_ok]
    exact ⟨steps, ih hseen', rfl⟩

def OutputReady (stepIds : List String) (output : Fields) (outputId source : String) : Prop :=
  Fields.get? output "id" = some (.str outputId) ∧ Trimmed outputId ∧
    Fields.get? output "from_step" = some (.str source) ∧ Trimmed source ∧ source ∈ stepIds

theorem outputReady_of_validate {output output' : Fields} {context outputId : String} {outputIds stepIds : List String}
    (h : validateOutput output context outputIds stepIds = .ok (output', outputId)) :
    outputId ∉ outputIds ∧ ∃ source, OutputReady stepIds output' outputId source := by
  unfold validateOutput at h
  rcases except_bind_eq_ok.mp h with ⟨found, hid, h⟩
  rcases except_bind_eq_ok.mp h with ⟨type, htype, h⟩
  split at h
  · cases h
  rcases except_bind_eq_ok.mp h with ⟨source, hsource, h⟩
  split at h
  · cases h
  next hknown =>
  rcases except_bind_eq_ok.mp h with ⟨_, _, h⟩
  cases h
  rw [validateEntryId_eq_ok] at hid
  refine ⟨hid.2.2, source, ?_, trimmed_of_requiredText hid.1, ?_, trimmed_of_requiredText hsource, not_not.mp hknown⟩
  · simp
  · simp

theorem mem_of_get? {fields : Fields} {key : String} {value : Value} (h : Fields.get? fields key = some value) :
    (key, value) ∈ fields := by
  induction fields with
  | nil => cases h
  | cons item fields ih =>
    rw [Fields.get?_cons] at h
    split at h
    · next hkey =>
      cases h
      rw [← hkey]
      exact List.mem_cons_self
    · exact List.mem_cons_of_mem item (ih h)

theorem set_of_not_mem {fields : Fields} {key : String} {value : Value} (h : key ∉ fields.map (·.1)) :
    Fields.set fields key value = fields ++ [(key, value)] := by
  induction fields with
  | nil => rfl
  | cons item fields ih =>
    rw [List.map_cons, List.mem_cons, not_or] at h
    rw [Fields.set, if_neg (Ne.symm h.1), ih h.2]
    rfl

end MindRoom.DynamicWorkflow
