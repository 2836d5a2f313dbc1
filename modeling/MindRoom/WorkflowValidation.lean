import MindRoom.WorkflowValue

/-! # Validation of workflow specs

The validator runs one check after the other on a copy of the spec, collects what each finds wrong
and writes the values it has normalised back. A check that fails leaves its error; where it has
written to the spec or registered an id before, later checks see that.
-/

namespace MindRoom.DynamicWorkflow

/-! ## Template references -/

/-- A character of `[a-zA-Z0-9_.-]`. -/
def isReferenceChar (c : Char) : Bool :=
  ('a' ≤ c && c ≤ 'z') || ('A' ≤ c && c ≤ 'Z') || ('0' ≤ c && c ≤ '9') || c = '_' || c = '.' || c = '-'

/-- A stretch of a template: text, or a reference in braces. -/
inductive Piece where
  | text (chars : List Char)
  | reference (name : String)
deriving DecidableEq

/-- The matches of the reference pattern and the text between them. What has been read of a match that
may be under way is `open?`, last character first. -/
def templatePieces : List Char → (open? : Option (List Char)) → List Piece
  | [], none => []
  | [], some read => [.text ('\x7b' :: read.reverse)]
  | c :: rest, none =>
    if c = '\x7b' then templatePieces rest (some []) else .text [c] :: templatePieces rest none
  | c :: rest, some read =>
    if isReferenceChar c then templatePieces rest (some (c :: read))
    else if c = '\x7d' ∧ read ≠ [] then .reference (String.ofList read.reverse) :: templatePieces rest none
    -- no match starts where the brace was, and none within what was read
    else if c = '\x7b' then .text ('\x7b' :: read.reverse) :: templatePieces rest (some [])
    else .text ('\x7b' :: read.reverse ++ [c]) :: templatePieces rest none

def pieces (template : String) : List Piece := templatePieces template.toList none

/-- `_TEMPLATE_REF_RE.finditer(template)`, as the references. -/
def references (template : String) : List String :=
  (pieces template).filterMap fun
    | .reference name => some name
    | .text _ => none

def referencedStep (reference : String) : Option String :=
  match splitDots reference with
  | [_, stepId] => some stepId
  | [_, stepId, "content"] => some stepId
  | _ => none

def validateTemplateReference (availableStepIds : List String) (context reference : String) : Except String Unit :=
  if startswith reference "input." then
    let parts := splitDots reference
    if parts.length < 2 ∨ ∃ part ∈ parts.drop 1, part = "" then
      throw s!"{context} contains invalid template reference '{reference}'."
    else return ()
  else if startswith reference "steps." then
    match referencedStep reference with
    | none => throw s!"{context} contains unsupported template reference '{reference}'."
    | some stepId =>
      if stepId ∈ availableStepIds then return ()
      else throw s!"{context} references unknown prior step '{stepId}'."
  else throw s!"{context} contains unknown template reference '{reference}'."

def validateTemplateReferences (template : String) (availableStepIds : List String) (context : String) :
    Except String Unit :=
  (references template).forM (validateTemplateReference availableStepIds context)

/-! ## Fields -/

/-- A character of `[a-z0-9]`. -/
def isIdStart (c : Char) : Bool := ('a' ≤ c && c ≤ 'z') || ('0' ≤ c && c ≤ '9')

/-- `ID_RE.fullmatch(value)`. -/
def idMatches (value : String) : Bool :=
  match value.toList with
  | [] => false
  | c :: rest => isIdStart c && rest.length ≤ 127 && rest.all fun c => isIdStart c || c = '_' || c = '-'

def validateId (value fieldName : String) : Except String Unit :=
  if idMatches value then return ()
  else throw (fieldName ++ " must match ^[a-z0-9][a-z0-9_-]\x7b0,127\x7d$.")

def requiredText (data : Fields) (key context : String) : Except String String :=
  match Fields.get? data key with
  | none => throw s!"{context} field '{key}' is missing."
  | some (.str value) =>
    if strip value = [] then throw s!"{context} field '{key}' cannot be empty." else return stripped value
  | some _ => throw s!"{context} field '{key}' must be a string."

def rejectUnsupportedFields (data : Fields) (allowedFields : List String) (context : String) : Except String Unit :=
  match Fields.unsupported data allowedFields with
  | [] => return ()
  | field :: _ => throw s!"{context} contains unsupported field '{field}'."

def requiredMappings (label : String) : Nat → List Value → Except String (List Fields)
  | _, [] => return []
  | index, .dict item :: items => do
      let rest ← requiredMappings label (index + 1) items
      return item :: rest
  | index, _ :: _ => throw s!"{label} at index {index} must be a mapping."

def requiredMappingList (data : Fields) (key itemLabel : String) : Except String (List Fields) :=
  match Fields.get? data key with
  | none | some .none => throw s!"Workflow spec field '{key}' is missing."
  | some (.list []) => throw s!"Workflow spec field '{key}' cannot be empty."
  | some (.list value) => requiredMappings itemLabel 0 value
  | some _ => throw s!"Workflow spec field '{key}' must be a list."

/-! ## The spec's own fields -/

def specKeys : List String :=
  ["schema_version", "id", "name", "description", "kind", "inputs", "participants", "workflow", "outputs",
    "permissions"]

def validateSchemaVersion (spec : Fields) : Except String Fields :=
  match Fields.get? spec "schema_version" with
  | some (.int 1) => return spec
  | _ => throw "Workflow spec field 'schema_version' must be 1."

def validateWorkflowIdField (spec : Fields) : Except String Fields := do
  let workflowId ← requiredText spec "id" "Workflow spec"
  validateId workflowId "id"
  return Fields.set spec "id" (.str workflowId)

def validateWorkflowNameField (spec : Fields) : Except String Fields := do
  let name ← requiredText spec "name" "Workflow spec"
  return Fields.set spec "name" (.str name)

def validateWorkflowKindField (spec : Fields) : Except String Fields := do
  let kind ← requiredText spec "kind" "Workflow spec"
  if kind ≠ "workflow" then throw "Workflow spec kind must be 'workflow'."
  return Fields.set spec "kind" (.str kind)

/-! ## The input schema -/

def inputSchemaKeys : List String := ["type", "required", "properties"]

def inputPropertySchemaKeys : List String := ["type", "description", "enum"]

def inputSchema (spec : Fields) : Except String (Option Fields) :=
  match Fields.get? spec "inputs" with
  | none | some .none => return none
  | some (.dict inputs) => do
      rejectUnsupportedFields inputs inputSchemaKeys "Workflow input schema"
      match Fields.get? inputs "type" with
      | none | some (.str "object") => return some inputs
      | some _ => throw "Workflow input schema type must be 'object'."
  | some _ => throw "Workflow spec field 'inputs' must be a mapping."

/-- The entries of a list that must be texts with something in them. -/
def textEntries (msg : String) : List Value → Except String (List String)
  | [] => return []
  | .str entry :: entries => do
      if strip entry = [] then throw msg
      let rest ← textEntries msg entries
      return entry :: rest
  | _ :: _ => throw msg

def inputRequiredFields (inputs : Fields) : Except String (List String) :=
  match Fields.get? inputs "required" with
  | none | some .none => return []
  | some (.list required) => textEntries "Workflow input schema required entries must be strings." required
  | some _ => throw "Workflow input schema field 'required' must be a list."

def inputProperties (inputs : Fields) : Except String Fields :=
  match Fields.get? inputs "properties" with
  | none | some .none => return []
  | some (.dict properties) => return properties
  | some _ => throw "Workflow input schema field 'properties' must be a mapping."

def allowedInputTypes (fieldSchema : Fields) : Except String (List String) :=
  match Fields.get? fieldSchema "type" with
  | none | some .none => return []
  | some (.list []) => throw "Workflow input schema type list must be non-empty."
  | some (.list items) => do
      let types ← textEntries "Workflow input schema type list entries must be non-empty strings." items
      return types.map stripped
  | some (.str expected) =>
    if strip expected = [] then
      throw "Workflow input schema type must be a non-empty string or list of strings."
    else return [expected]
  | some _ => throw "Workflow input schema type must be a non-empty string or list of strings."

/-- `_INPUT_TYPE_CHECKS`. -/
def inputTypeCheck : String → Option (Value → Bool)
  | "string" => some fun | .str _ => true | _ => false
  | "integer" => some fun | .int _ => true | _ => false
  | "number" => some fun | .int _ => true | .float _ => true | _ => false
  | "boolean" => some fun | .bool _ => true | _ => false
  | "object" => some fun | .dict _ => true | _ => false
  | "array" => some fun | .list _ => true | _ => false
  | "null" => some fun | .none => true | _ => false
  | _ => none

def inputValueMatchesType (value : Value) (expected : String) : Except String Bool :=
  match inputTypeCheck expected with
  | some checker => return checker value
  | none => throw s!"Unsupported workflow input schema type '{expected}'."

/-- `any(_input_value_matches_type(value, allowed) for allowed in allowed_types)`. -/
def matchesSomeType (value : Value) : List String → Except String Bool
  | [] => return false
  | allowed :: types => do
      if ← inputValueMatchesType value allowed then return true
      matchesSomeType value types

def validateInputEnum (fieldName : String) (fieldSchema : Fields) (allowedTypes : List String) : Except String Unit :=
  match Fields.get? fieldSchema "enum" with
  | none | some .none => return ()
  | some (.list (value :: values)) =>
    if allowedTypes = [] then return ()
    else (value :: values).forM fun enumValue => do
      if ← matchesSomeType enumValue allowedTypes then return ()
      throw s!"Workflow input schema property '{fieldName}' enum values must match its declared type."
  | some _ => throw s!"Workflow input schema property '{fieldName}' enum must be a non-empty list."

def validateInputProperty (property : String × Value) : Except String Unit :=
  let fieldName := property.1
  match property.2 with
  | .dict fieldSchema => do
      rejectUnsupportedFields fieldSchema inputPropertySchemaKeys s!"Workflow input schema property '{fieldName}'"
      let allowedTypes ← allowedInputTypes fieldSchema
      validateInputEnum fieldName fieldSchema allowedTypes
      allowedTypes.forM fun inputType =>
        if (inputTypeCheck inputType).isSome then return ()
        else throw s!"Unsupported workflow input schema type '{inputType}'."
  | _ => throw s!"Workflow input schema property '{fieldName}' must be a mapping."

def validateInputSchema (spec : Fields) : Except String Fields := do
  match ← inputSchema spec with
  | none => return spec
  | some inputs =>
    let required ← inputRequiredFields inputs
    if ¬ required.Nodup then throw "Workflow input schema required entries must be unique."
    let properties ← inputProperties inputs
    properties.forM validateInputProperty
    return spec

/-! ## Participants -/

def participantKinds : List String := ["ephemeral_agent", "room_agent"]

def roomAgentParticipantKeys : List String := ["id", "kind", "agent", "model", "tools"]

def ephemeralParticipantKeys : List String :=
  ["id", "kind", "name", "role", "description", "model", "tools", "instructions"]

def rejectRoomAgentModel (participant : Fields) (context : String) : Except String Unit :=
  match Fields.get? participant "model" with
  | none | some .none | some (.str "") => return ()
  | some _ => throw s!"{context} room_agent participants cannot override model."

def rejectRoomAgentTools (participant : Fields) (context : String) : Except String Unit :=
  match Fields.get? participant "tools" with
  | none | some .none | some (.list []) => return ()
  | some _ =>
    throw s!"{context} room_agent participants cannot declare tools; tool grants are only available to ephemeral participants."

def validateRoomAgentParticipant (participant : Fields) (context : String) : Except String Fields := do
  rejectUnsupportedFields participant roomAgentParticipantKeys context
  let agentName ← requiredText participant "agent" context
  rejectRoomAgentModel participant context
  rejectRoomAgentTools participant context
  return Fields.set participant "agent" (.str agentName)

/-- Names without repetitions, in the order of their first mention. -/
def firstMentions (names : List String) : List String :=
  names.foldl (fun toolNames name => if name ∈ toolNames then toolNames else toolNames ++ [name]) []

def normalizedToolNames (rawTools : Option Value) (context : String) : Except String (List String) :=
  match rawTools with
  | none | some .none => return []
  | some (.list tools) => do
      let names ← textEntries s!"{context} must be a list of non-empty strings." tools
      return firstMentions (names.map stripped)
  | some _ => throw s!"{context} must be a list of non-empty strings."

def textList (names : List String) : Value := .list (names.map .str)

def validateParticipantInstructions (value : Option Value) (context : String) : Except String Unit :=
  match value with
  | none | some .none | some (.str _) => return ()
  | some (.list instructions) =>
    if instructions.all (fun | .str _ => true | _ => false) then return ()
    else throw s!"{context} field 'instructions' must be a string or list of strings."
  | some _ => throw s!"{context} field 'instructions' must be a string or list of strings."

/-- The model of an ephemeral participant, written back stripped where there is one. -/
def normalizeParticipantModel (participant : Fields) (context : String) : Except String Fields :=
  match Fields.get? participant "model" with
  | none | some .none => return participant
  | some _ => do
      let model ← requiredText participant "model" context
      return Fields.set participant "model" (.str model)

def validateEphemeralAgentParticipant (participant : Fields) (context : String) : Except String Fields := do
  rejectUnsupportedFields participant ephemeralParticipantKeys context
  let toolNames ← normalizedToolNames (Fields.get? participant "tools") s!"{context} field 'tools'"
  let participant ← normalizeParticipantModel (Fields.set participant "tools" (textList toolNames)) context
  validateParticipantInstructions (Fields.get? participant "instructions") context
  return participant

/-- The id of an entry that has none of the ids before it. -/
def validateEntryId (entry : Fields) (context label : String) (ids : List String) : Except String String := do
  let entryId ← requiredText entry "id" context
  validateId entryId s!"{context} id"
  if entryId ∈ ids then throw s!"Duplicate {label} id '{entryId}'."
  return entryId

def statedKind (participant : Fields) (context : String) : Except String String :=
  if (Fields.get? participant "kind").isSome then requiredText participant "kind" context
  else return "ephemeral_agent"

def participantKind (participant : Fields) (context : String) : Except String String := do
  let kind ← statedKind participant context
  if kind ∈ participantKinds then return kind
  else throw s!"{context} has unsupported kind '{kind}'."

/-- What follows the id of a participant. -/
def validateParticipantKind (participant : Fields) (context : String) : Except String Fields := do
  let kind ← participantKind participant context
  let participant := Fields.set participant "kind" (.str kind)
  if kind = "room_agent" then validateRoomAgentParticipant participant context
  else validateEphemeralAgentParticipant participant context

/-- Validate one participant entry. Its id is registered even where something else is wrong with it. -/
def validateParticipant (participant : Fields) (index : Nat) (participantIds : List String) :
    Except String Fields × List String :=
  let context := s!"Participant at index {index}"
  match validateEntryId participant context "participant" participantIds with
  | .error err => (.error err, participantIds)
  | .ok participantId =>
    (validateParticipantKind (Fields.set participant "id" (.str participantId)) context,
      participantIds ++ [participantId])

/-- What a list of entries is validated to: the entries as they are left, those that are valid, the
registered ids and the errors. -/
structure Entries where
  entries : List Fields := []
  valid : List Fields := []
  ids : List String := []
  errors : List String := []

def validateParticipants (index : Nat) (participantIds : List String) : List Fields → Entries
  | [] => { ids := participantIds }
  | participant :: participants =>
    let validated := validateParticipant participant index participantIds
    let rest := validateParticipants (index + 1) validated.2 participants
    match validated.1 with
    | .ok participant =>
      { rest with entries := participant :: rest.entries, valid := participant :: rest.valid }
    | .error err => { rest with entries := participant :: rest.entries, errors := err :: rest.errors }

/-! ## Steps -/

def stepTypes : List String := ["agent_step", "report_step", "transform_step"]

def agentStepTemplateFields : List String := ["prompt", "response_template", "output_template", "template"]

def agentStepKeys : List String := ["id", "type", "participant"] ++ agentStepTemplateFields

def transformStepKeys : List String := ["id", "type", "template", "text"]

def reportStepKeys : List String := ["id", "type", "body_template", "from_step", "title"]

def stepType (step : Fields) (context : String) : Except String String :=
  match Fields.get? step "type" with
  | none => return "agent_step"
  | some (.str rawStepType) =>
    if strip rawStepType = [] then throw s!"{context} field 'type' must be a non-empty string."
    else if stripped rawStepType ∈ stepTypes then return stripped rawStepType
    else throw ("Unsupported workflow step type '" ++ stripped rawStepType ++ "'.")
  | some _ => throw s!"{context} field 'type' must be a non-empty string."

def validateTemplateField (step : Fields) (fieldName context : String) (availableStepIds : List String) :
    Except String Fields := do
  let template ← requiredText step fieldName context
  validateTemplateReferences template availableStepIds s!"{context} field '{fieldName}'"
  return Fields.set step fieldName (.str template)

def validateTemplateChoice (step : Fields) (context : String) (fieldNames availableStepIds : List String) :
    Except String Fields :=
  match fieldNames.filter fun fieldName => (Fields.get? step fieldName).isSome with
  | [] => throw (context ++ " must include one of: " ++ ", ".intercalate fieldNames ++ ".")
  | [fieldName] => validateTemplateField step fieldName context availableStepIds
  | fields => throw (context ++ " must include only one template field; found: " ++ ", ".intercalate fields ++ ".")

def validateAgentStep (step : Fields) (context : String) (participantIds availableStepIds : List String) :
    Except String Fields := do
  let participant ← requiredText step "participant" context
  if participant ∉ participantIds then throw s!"{context} references unknown participant '{participant}'."
  validateTemplateChoice (Fields.set step "participant" (.str participant)) context agentStepTemplateFields
    availableStepIds

/-- Where the body of a report comes from. -/
def validateReportSource (step : Fields) (context : String) (availableStepIds : List String) :
    Except String Fields :=
  if (Fields.get? step "body_template").isSome then
    if (Fields.get? step "from_step").isSome then
      throw s!"{context} must include only one report source field; found: body_template, from_step."
    else validateTemplateField step "body_template" context availableStepIds
  else do
    let fromStep ← requiredText step "from_step" context
    if fromStep ∈ availableStepIds then return Fields.set step "from_step" (.str fromStep)
    else throw s!"{context} references unknown prior step '{fromStep}'."

def validateReportTitle (step : Fields) (context : String) (availableStepIds : List String) : Except String Fields :=
  if (Fields.get? step "title").isSome then validateTemplateField step "title" context availableStepIds
  else return step

def validateReportStep (step : Fields) (context : String) (availableStepIds : List String) : Except String Fields := do
  let step ← validateReportSource step context availableStepIds
  validateReportTitle step context availableStepIds

def validateStepBody (step : Fields) (stepType context : String) (participantIds availableStepIds : List String) :
    Except String Fields := do
  if stepType = "agent_step" then
    rejectUnsupportedFields step agentStepKeys context
    validateAgentStep step context participantIds availableStepIds
  else if stepType = "transform_step" then
    rejectUnsupportedFields step transformStepKeys context
    validateTemplateChoice step context ["template", "text"] availableStepIds
  else
    rejectUnsupportedFields step reportStepKeys context
    validateReportStep step context availableStepIds

/-- Validate one workflow step: what is wrong with it, the step as it is left, and the ids that later
steps may refer to. The id counts even where something else is wrong with the step. -/
def validateWorkflowStep (step : Fields) (index : Nat) (participantIds stepIds : List String) :
    Except String Unit × Fields × List String :=
  let context := s!"Workflow step at index {index}"
  match validateEntryId step context "workflow step" stepIds with
  | .error err => (.error err, step, stepIds)
  | .ok stepId =>
    let step := Fields.set step "id" (.str stepId)
    match stepType step context with
    | .error err => (.error err, step, stepIds ++ [stepId])
    | .ok type =>
      let step := Fields.set step "type" (.str type)
      match validateStepBody step type context participantIds stepIds with
      | .error err => (.error err, step, stepIds ++ [stepId])
      | .ok step => (.ok (), step, stepIds ++ [stepId])

def validateWorkflowSteps (participantIds : List String) (index : Nat) (stepIds : List String) : List Fields → Entries
  | [] => { ids := stepIds }
  | step :: steps =>
    let validated := validateWorkflowStep step index participantIds stepIds
    let rest := validateWorkflowSteps participantIds (index + 1) validated.2.2 steps
    match validated.1 with
    | .ok () => { rest with entries := validated.2.1 :: rest.entries }
    | .error err => { rest with entries := validated.2.1 :: rest.entries, errors := err :: rest.errors }

/-! ## Limits and permissions -/

def maxWorkflowParticipants : Nat := 8

def maxWorkflowSteps : Nat := 64

def maxWorkflowAgentSteps : Int := 16

def maxWorkflowRuntimeSeconds : Int := 3600

def maxWorkflowConcurrentAgents : Int := 8

def permissionKeys : List String :=
  ["max_runtime_seconds", "max_concurrent_agents", "max_total_agents", "models", "tools", "data"]

def validateWorkflowSizeLimits (participants workflowSteps : List Fields) (spec : Fields) : Except String Fields :=
  if maxWorkflowParticipants < participants.length then
    throw s!"Workflow participants cannot exceed {maxWorkflowParticipants}."
  else if maxWorkflowSteps < workflowSteps.length then
    throw s!"Workflow steps cannot exceed {maxWorkflowSteps}."
  else return spec

def permissionsMapping (spec : Fields) : Except String Fields :=
  match Fields.get? spec "permissions" with
  | none | some .none => return []
  | some (.dict permissions) => return permissions
  | some _ => throw "Workflow spec field 'permissions' must be a mapping."

def positiveIntPermission (value : Value) (fieldName : String) (maximum : Int) : Except String Int :=
  match value with
  | .int n =>
    if n < 1 ∨ maximum < n then throw s!"Workflow permission '{fieldName}' must be between 1 and {maximum}."
    else return n
  | _ => throw s!"Workflow permission '{fieldName}' must be an integer."

/-- An optional cap, written back as it is. -/
def validatePermissionCap (permissions : Fields) (fieldName : String) (maximum : Int) : Except String Fields :=
  match Fields.get? permissions fieldName with
  | none | some .none => return permissions
  | some value => do
      let cap ← positiveIntPermission value fieldName maximum
      return Fields.set permissions fieldName (.int cap)

def agentStepCount (workflowSteps : List Fields) : Nat :=
  workflowSteps.countP fun step =>
    match Fields.get? step "type" with
    | some (.str "agent_step") => true
    | _ => false

/-- The cap on agent steps, or the most there may be. -/
def maxTotalAgents (permissions : Fields) : Except String Int :=
  match Fields.get? permissions "max_total_agents" with
  | none | some .none => positiveIntPermission (.int maxWorkflowAgentSteps) "max_total_agents" maxWorkflowAgentSteps
  | some value => positiveIntPermission value "max_total_agents" maxWorkflowAgentSteps

def validatePermissionTotal (permissions : Fields) (workflowSteps : List Fields) : Except String Fields := do
  let total ← maxTotalAgents permissions
  if total < agentStepCount workflowSteps then
    throw s!"Workflow agent steps cannot exceed permissions.max_total_agents ({total})."
  else return Fields.set permissions "max_total_agents" (.int total)

def validatePermissionModels (permissions : Fields) : Except String Fields :=
  match Fields.get? permissions "models" with
  | none | some .none => return permissions
  | some (.list models) => do
      let names ← textEntries "Workflow permission 'models' must be a list of non-empty strings." models
      return Fields.set permissions "models" (textList (names.map stripped))
  | some _ => throw "Workflow permission 'models' must be a list of non-empty strings."

def validatePermissionTools (permissions : Fields) : Except String Fields := do
  let toolNames ← normalizedToolNames (Fields.get? permissions "tools") "Workflow permission 'tools'"
  return Fields.set permissions "tools" (textList toolNames)

def validateDataGrant (data : Fields) (fieldName : String) : Except String Unit :=
  match Fields.get? data fieldName with
  | none | some .none | some (.str "none") => return ()
  | some _ =>
    throw s!"Workflow permission data.{fieldName} must be 'none' until workflow data grants are supported."

def validateKnowledgeBases (data : Fields) : Except String Unit :=
  match Fields.get? data "knowledge_bases" with
  | none | some (.list []) => return ()
  | some (.list knowledgeBases) =>
    if knowledgeBases.all (fun | .str _ => true | _ => false) then
      throw "Workflow permission data.knowledge_bases must be empty until workflow data grants are supported."
    else throw "Workflow permission data.knowledge_bases must be a list of strings."
  | some _ => throw "Workflow permission data.knowledge_bases must be a list of strings."

def rejectUnsupportedData (data : Fields) : Except String Unit :=
  match Fields.unsupported data ["matrix_history", "attachments", "knowledge_bases"] with
  | [] => return ()
  | field :: _ => throw s!"Workflow permission data.{field} is not supported."

/-- The data permissions of a mapping under `data`. -/
def validateDataFields (data : Fields) : Except String Unit := do
  rejectUnsupportedData data
  validateDataGrant data "matrix_history"
  validateDataGrant data "attachments"
  validateKnowledgeBases data

def validatePermissionData (permissions : Fields) : Except String Fields :=
  match Fields.get? permissions "data" with
  | none | some .none => return Fields.set permissions "data" (.dict [])
  | some (.dict data) => do
      validateDataFields data
      return Fields.set permissions "data" (.dict data)
  | some _ => throw "Workflow permission 'data' must be a mapping."

def rejectUnknownPermissions (permissions : Fields) : Except String Unit :=
  match Fields.unsupported permissions permissionKeys with
  | [] => return ()
  | unknown => throw ("Workflow permissions contain unsupported keys: " ++ ", ".intercalate unknown ++ ".")

def validateWorkflowPermissions (workflowSteps : List Fields) (spec : Fields) : Except String Fields := do
  let permissions ← permissionsMapping spec
  rejectUnknownPermissions permissions
  let permissions ← validatePermissionCap permissions "max_runtime_seconds" maxWorkflowRuntimeSeconds
  let permissions ← validatePermissionCap permissions "max_concurrent_agents" maxWorkflowConcurrentAgents
  let permissions ← validatePermissionTotal permissions workflowSteps
  let permissions ← validatePermissionModels permissions
  let permissions ← validatePermissionTools permissions
  let permissions ← validatePermissionData permissions
  return Fields.set spec "permissions" (.dict permissions)

def listedNames : Option Value → List String
  | some (.list items) => items.filterMap fun | .str name => some name | _ => none
  | _ => []

def validateToolGrant (granted : List String) (participant : Fields) : Except String Unit :=
  (listedNames (Fields.get? participant "tools")).forM fun toolName =>
    if toolName ∈ granted then return ()
    else
      match Fields.get? participant "id" with
      | some (.str participantId) =>
        throw s!"Participant '{participantId}' tool '{toolName}' is not granted by permissions.tools."
      | _ => throw s!"Participant tool '{toolName}' is not granted by permissions.tools."

def validateParticipantToolGrants (participants : List Fields) (spec : Fields) : Except String Fields := do
  let permissions ← permissionsMapping spec
  participants.forM (validateToolGrant (listedNames (Fields.get? permissions "tools")))
  return spec

/-! ## Outputs -/

def outputKeys : List String := ["id", "type", "from_step"]

def outputTypes : List String := ["text", "markdown", "json", "html_report"]

def validateOutput (output : Fields) (context : String) (outputIds stepIds : List String) :
    Except String (Fields × String) := do
  let outputId ← validateEntryId output context "workflow output" outputIds
  let output := Fields.set output "id" (.str outputId)
  let outputType ← requiredText output "type" context
  if outputType ∉ outputTypes then throw s!"{context} has unsupported type '{outputType}'."
  let output := Fields.set output "type" (.str outputType)
  let fromStep ← requiredText output "from_step" context
  if fromStep ∉ stepIds then throw s!"{context} references unknown step '{fromStep}'."
  let output := Fields.set output "from_step" (.str fromStep)
  rejectUnsupportedFields output outputKeys context
  return (output, outputId)

def validateOutputList (stepIds : List String) (index : Nat) (outputIds : List String) :
    List Value → Except String (List Fields)
  | [] => return []
  | .dict output :: outputs => do
      let validated ← validateOutput output s!"Workflow output at index {index}" outputIds stepIds
      let rest ← validateOutputList stepIds (index + 1) (outputIds ++ [validated.2]) outputs
      return validated.1 :: rest
  | _ :: _ => throw s!"Workflow output at index {index} must be a mapping."

def validateOutputs (stepIds : List String) (spec : Fields) : Except String Fields :=
  match Fields.get? spec "outputs" with
  | none | some .none => return Fields.set spec "outputs" (.list [])
  | some (.list rawOutputs) => do
      let outputs ← validateOutputList stepIds 0 [] rawOutputs
      return Fields.set spec "outputs" (.list (outputs.map .dict))
  | some _ => throw "Workflow spec field 'outputs' must be a list."

/-! ## The pipeline -/

/-- A spec under validation, with the errors so far. -/
abbrev Checked := Fields × List String

/-- `_collect_error`, for a check that may write to the spec. -/
def collectError (checked : Checked) (check : Fields → Except String Fields) : Checked :=
  match check checked.1 with
  | .ok spec => (spec, checked.2)
  | .error err => (checked.1, checked.2 ++ [err])

def fieldChecks : List (Fields → Except String Fields) :=
  [validateSchemaVersion, validateWorkflowIdField, validateWorkflowNameField, validateWorkflowKindField,
    validateInputSchema]

def collectEntries (checked : Checked) (key label : String) (validate : List Fields → Entries) :
    Checked × Option Entries :=
  match requiredMappingList checked.1 key label with
  | .error err => ((checked.1, checked.2 ++ [err]), none)
  | .ok items =>
    let validated := validate items
    ((Fields.set checked.1 key (.list (validated.entries.map .dict)), checked.2 ++ validated.errors), some validated)

/-- The permissions and, where they are valid, the grants of the participants that are. -/
def collectPermissions (checked : Checked) (validatedParticipants workflowSteps : List Fields) : Checked :=
  match validateWorkflowPermissions workflowSteps checked.1 with
  | .error err => (checked.1, checked.2 ++ [err])
  | .ok spec =>
    if validatedParticipants = [] then (spec, checked.2)
    else collectError (spec, checked.2) (validateParticipantToolGrants validatedParticipants)

/-- The checks of what the entries have to do with each other. -/
def collectLimits (checked : Checked) (participants workflowSteps : Option Entries) : Checked :=
  let allSteps := workflowSteps.elim [] Entries.entries
  let checked := collectError checked (validateWorkflowSizeLimits (participants.elim [] Entries.entries) allSteps)
  let checked := collectPermissions checked (participants.elim [] Entries.valid) allSteps
  match workflowSteps with
  | none => checked
  | some steps => collectError checked (validateOutputs steps.ids)

def validateAndNormalizeWorkflowSpec (spec : Value) : Option Fields × List String :=
  match spec with
  | .dict spec =>
    let unsupported := (Fields.unsupported spec specKeys).map fun fieldName =>
      s!"Workflow spec contains unsupported field '{fieldName}'."
    let checked := fieldChecks.foldl collectError (spec, unsupported)
    let participants := collectEntries checked "participants" "Participant" (validateParticipants 0 [])
    let participantIds := participants.2.elim [] Entries.ids
    let workflowSteps := collectEntries participants.1 "workflow" "Workflow step"
      (validateWorkflowSteps participantIds 0 [])
    let checked := collectLimits workflowSteps.1 participants.2 workflowSteps.2
    (some checked.1, checked.2)
  | _ => (none, ["Workflow spec must be a mapping."])

def validateWorkflowSpec (spec : Value) : Except String Fields :=
  match validateAndNormalizeWorkflowSpec spec with
  | (_, err :: _) => throw err
  | (none, []) => throw ""
  | (some normalized, []) => return normalized

def collectWorkflowSpecErrors (spec : Value) : List String := (validateAndNormalizeWorkflowSpec spec).2

end MindRoom.DynamicWorkflow
