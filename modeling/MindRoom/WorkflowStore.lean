import MindRoom.WorkflowRunner

/-! # The workflow store

A workflow has a directory with its revision files and a summary file. Creating or updating it reads that
directory under its lock, decides what to write, and writes file by file; each file is replaced as a whole.
What a YAML file holds is the mapping that was dumped; what reading it back gives is a parameter.
-/

namespace MindRoom.DynamicWorkflow

/-- What the store does not compute itself: a mapping as it comes back from a YAML file, the shortened
digest of an owner, and what `str` makes of a value that is no text. -/
structure Surroundings where
  reread : Fields → Fields
  digest : String → String
  render : Value → String

inductive StoreError where
  | workflow (msg : String)
  | key (name : String)

/-- Where a workflow is kept: the parts of its directory's path. -/
structure Place where
  scope : String
  ownerDir : String
  workflowId : String
deriving DecidableEq

/-- The YAML files of a workflow: its revisions by their stems, and its summary. -/
structure WorkflowDir where
  revisions : List (String × Fields) := []
  summary : Option Fields := none

abbrev Disk := Place → Option WorkflowDir

/-- User-facing summary for one saved Dynamic Workflow. -/
structure Summary where
  workflowId : String
  scope : String
  ownerId : String
  activeRevision : String
  name : String
  description : String
  createdBy : String
  createdAt : String
  updatedAt : String
  archived : Bool := false

/-! ## Revision numbers -/

/-- `f"{n:06d}"`. -/
def revisionStem (n : Nat) : String :=
  let digits := Nat.toDigits 10 n
  String.ofList (List.replicate (6 - digits.length) '0' ++ digits)

/-- The code points `str.isdecimal` accepts, in blocks of ten. -/
def decimalRanges : List (Nat × Nat) :=
  [(48, 57), (1632, 1641), (1776, 1785), (1984, 1993), (2406, 2415), (2534, 2543), (2662, 2671),
   (2790, 2799), (2918, 2927), (3046, 3055), (3174, 3183), (3302, 3311), (3430, 3439),
   (3558, 3567), (3664, 3673), (3792, 3801), (3872, 3881), (4160, 4169), (4240, 4249),
   (6112, 6121), (6160, 6169), (6470, 6479), (6608, 6617), (6784, 6793), (6800, 6809),
   (6992, 7001), (7088, 7097), (7232, 7241), (7248, 7257), (42528, 42537), (43216, 43225),
   (43264, 43273), (43472, 43481), (43504, 43513), (43600, 43609), (44016, 44025), (65296, 65305),
   (66720, 66729), (68912, 68921), (69734, 69743), (69872, 69881), (69942, 69951), (70096, 70105),
   (70384, 70393), (70736, 70745), (70864, 70873), (71248, 71257), (71360, 71369), (71472, 71481),
   (71904, 71913), (72016, 72025), (72784, 72793), (73040, 73049), (73120, 73129), (92768, 92777),
   (92864, 92873), (93008, 93017), (120782, 120831), (123200, 123209), (123632, 123641),
   (125264, 125273), (130032, 130041)]

/-- The value of a decimal character: where it stands in its block of ten. -/
def decimalValue (c : Char) : Nat :=
  match decimalRanges.find? fun range => range.1 ≤ c.toNat ∧ c.toNat ≤ range.2 with
  | some range => (c.toNat - range.1) % 10
  | none => 0

/-- `int(stem)` where `stem.isdecimal()`. -/
def revisionNumber? (stem : String) : Option Nat :=
  let chars := stem.toList
  if chars ≠ [] ∧ chars.all (inRanges decimalRanges) then
    some (chars.foldl (fun n c => 10 * n + decimalValue c) 0)
  else none

/-- `_REVISION_RE.fullmatch(value)`. -/
def revisionMatches (value : String) : Bool :=
  value.toList.length = 6 && value.toList.all fun c => '0' ≤ c && c ≤ '9'

def validateRevision (value : String) : Except StoreError Unit :=
  if revisionMatches value then return ()
  else throw (.workflow "revision must match ^[0-9]\x7b6\x7d$.")

/-- The number behind the highest of the revision files. -/
def nextNumber (dir : WorkflowDir) : Nat := (dir.revisions.filterMap fun file => revisionNumber? file.1).foldl max 0 + 1

def nextRevision (dir : WorkflowDir) : String := revisionStem (nextNumber dir)

/-! ## Places -/

def scopes : List String := ["agent", "room", "tenant"]

def validateScope (scope : String) : Except StoreError Unit :=
  if scope ∈ scopes then return ()
  else throw (.workflow s!"Unsupported Dynamic Workflow scope '{scope}'.")

section

variable (env : Surroundings)

def ownerDirName (scope ownerId : String) : String :=
  if scope = "tenant" then "tenant"
  else if idMatches ownerId then ownerId
  else "hash_" ++ env.digest ownerId

def checked {α : Type} (check : Except String α) : Except StoreError α :=
  match check with
  | .ok a => return a
  | .error msg => throw (.workflow msg)

def workflowPlace (scope ownerId workflowId : String) : Except StoreError Place := do
  checked (validateId workflowId "workflow_id")
  validateScope scope
  return { scope, ownerDir := ownerDirName env scope ownerId, workflowId }

/-! ## Files -/

/-- `yaml_io.safe_load` of a file that may be missing. -/
def loadYamlMapping (file : Option Fields) : Except StoreError Fields :=
  match file with
  | some data => return env.reread data
  | none => throw (.workflow "YAML mapping was not found.")

def summaryToYaml (summary : Summary) : Fields :=
  [("id", .str summary.workflowId), ("scope", .str summary.scope), ("owner_id", .str summary.ownerId),
    ("active_revision", .str summary.activeRevision), ("name", .str summary.name),
    ("description", .str summary.description), ("created_by", .str summary.createdBy),
    ("created_at", .str summary.createdAt), ("updated_at", .str summary.updatedAt),
    ("archived", .bool summary.archived)]

/-- `str(data[key])`. -/
def fieldText (data : Fields) (key : String) : Except StoreError String :=
  match Fields.get? data key with
  | none => throw (.key key)
  | some _ => return spelled env.render data key ""

/-- `bool(value)`. -/
def truthy : Option Value → Bool
  | none | some .none => false
  | some (.bool b) => b
  | some (.int n) => n ≠ 0
  | some (.float repr) => repr ≠ "0.0" && repr ≠ "-0.0"
  | some (.str s) => s ≠ ""
  | some (.list items) => !items.isEmpty
  | some (.dict fields) => !fields.isEmpty

def summaryFromYaml (data : Fields) : Except StoreError Summary := do
  let workflowId ← fieldText env data "id"
  let scope ← fieldText env data "scope"
  let ownerId ← fieldText env data "owner_id"
  let activeRevision ← fieldText env data "active_revision"
  let name ← fieldText env data "name"
  let createdBy ← fieldText env data "created_by"
  let createdAt ← fieldText env data "created_at"
  let updatedAt ← fieldText env data "updated_at"
  return { workflowId, scope, ownerId, activeRevision, name, createdBy, createdAt, updatedAt,
           description := spelled env.render data "description" "", archived := truthy (Fields.get? data "archived") }

def loadSummary (dir : Option WorkflowDir) : Except StoreError Summary := do
  let data ← loadYamlMapping env (dir.bind (·.summary))
  summaryFromYaml env data

def getWorkflow (disk : Disk) (workflowId scope ownerId : String) : Except StoreError Summary := do
  let place ← workflowPlace env scope ownerId workflowId
  loadSummary env (disk place)

def loadRevision (dir : Option WorkflowDir) (revision : String) : Except StoreError Fields := do
  validateRevision revision
  loadYamlMapping env (dir.bind (·.revisions.lookup revision))

def revisionMetadataKeys : List String := ["revision", "revision_reason", "updated_by", "updated_at"]

def workflowSpecPayload (revisionSpec : Fields) : Fields := revisionSpec.filter (·.1 ∉ revisionMetadataKeys)

def loadWorkflowRevision (disk : Disk) (workflowId scope ownerId revision : String) : Except StoreError Fields := do
  validateRevision revision
  let place ← workflowPlace env scope ownerId workflowId
  let data ← loadRevision env (disk place) revision
  return workflowSpecPayload data

/-! ## What an operation writes -/

/-- `None` or a text. -/
def optionalText : Option String → Value
  | none => .none
  | some text => .str text

def revisionSpec (spec : Fields) (revision : String) (reason : Option String) (updatedBy now : String) : Fields :=
  Fields.set (Fields.set (Fields.set (Fields.set spec "revision" (.str revision)) "revision_reason"
    (optionalText reason)) "updated_by" (.str updatedBy)) "updated_at" (.str now)

mutual

def recursiveMerge (base : Fields) : Fields → Fields
  | [] => base
  | (key, value) :: patch => recursiveMerge (Fields.set base key (mergedValue (Fields.get? base key) value)) patch

/-- What a patched key is set to: two mappings are merged, any other value is replaced. -/
def mergedValue (baseValue : Option Value) : Value → Value
  | .dict patch =>
    match baseValue with
    | some (.dict base) => .dict (recursiveMerge base patch)
    | _ => .dict patch
  | value => value

end

inductive Write where
  | mkdir
  | revision (stem : String) (data : Fields)
  | summary (data : Fields)

/-- What an operation is going to do: where it writes, the writes in their order, and what it returns. -/
structure Plan where
  place : Place
  writes : List Write
  summary : Summary

inductive Call where
  | create (spec : Value) (scope ownerId createdBy : String) (reason : Option String)
      (specValidator : Fields → Option String) (now : String)
  | update (workflowId scope ownerId : String) (patch : Fields) (updatedBy reason : String)
      (specValidator : Fields → Option String) (now : String)

/-- `spec_validator(spec)`. -/
def runSpecValidator (specValidator : Fields → Option String) (spec : Fields) : Except StoreError Unit :=
  match specValidator spec with
  | none => return ()
  | some msg => throw (.workflow msg)

def createPlan (disk : Disk) (spec : Value) (scope ownerId createdBy : String) (reason : Option String)
    (specValidator : Fields → Option String) (now : String) : Except StoreError Plan := do
  let validatedSpec ← checked (validateWorkflowSpec spec)
  runSpecValidator specValidator validatedSpec
  let workflowId ← fieldText env validatedSpec "id"
  let place ← workflowPlace env scope ownerId workflowId
  if (disk place).isSome then
    throw (.workflow s!"Dynamic Workflow '{workflowId}' already exists in {scope} scope.")
  else do
    let revision := "000001"
    let name ← fieldText env validatedSpec "name"
    let summary : Summary :=
      { workflowId, scope, ownerId, activeRevision := revision, name,
        description := spelled env.render validatedSpec "description" "", createdBy, createdAt := now, updatedAt := now }
    return { place, summary,
             writes := [.mkdir, .revision revision (revisionSpec validatedSpec revision reason createdBy now),
               .summary (summaryToYaml summary)] }

def updatePlan (disk : Disk) (workflowId scope ownerId : String) (patch : Fields) (updatedBy reason : String)
    (specValidator : Fields → Option String) (now : String) : Except StoreError Plan := do
  let place ← workflowPlace env scope ownerId workflowId
  let summary ← loadSummary env (disk place)
  let currentSpec ← loadRevision env (disk place) summary.activeRevision
  let validatedPatchedSpec ← checked (validateWorkflowSpec (.dict (recursiveMerge (workflowSpecPayload currentSpec) patch)))
  runSpecValidator specValidator validatedPatchedSpec
  let patchedId ← fieldText env validatedPatchedSpec "id"
  if patchedId ≠ workflowId then
    throw (.workflow "Workflow ID is immutable and cannot be changed by update_workflow.")
  else do
    let revision := nextRevision ((disk place).getD {})
    let spec := revisionSpec validatedPatchedSpec revision (some reason) updatedBy now
    let name ← fieldText env spec "name"
    let updatedSummary : Summary :=
      { summary with workflowId, scope, ownerId, activeRevision := revision, name,
                     description := spelled env.render spec "description" "", updatedAt := now }
    return { place, summary := updatedSummary,
             writes := [.mkdir, .revision revision spec, .summary (summaryToYaml updatedSummary)] }

def Call.plan (disk : Disk) : Call → Except StoreError Plan
  | .create spec scope ownerId createdBy reason specValidator now =>
    createPlan env disk spec scope ownerId createdBy reason specValidator now
  | .update workflowId scope ownerId patch updatedBy reason specValidator now =>
    updatePlan env disk workflowId scope ownerId patch updatedBy reason specValidator now

end

/-! ## Writing -/

def putFile (files : List (String × Fields)) (stem : String) (data : Fields) : List (String × Fields) :=
  (stem, data) :: files.filter (·.1 ≠ stem)

def Write.apply (dir : WorkflowDir) : Write → WorkflowDir
  | .mkdir => dir
  | .revision stem data => { dir with revisions := putFile dir.revisions stem data }
  | .summary data => { dir with summary := some data }

/-- The directory of a workflow after some writes, the first of which makes it if need be. -/
def writeAll (dir : Option WorkflowDir) (writes : List Write) : Option WorkflowDir :=
  writes.foldl (fun dir write => some (write.apply (dir.getD {}))) dir

/-- A call that stops after some of its writes, or goes through all of them. -/
structure Attempt where
  call : Call
  writes : Nat

def Attempt.run (env : Surroundings) (disk : Disk) (attempt : Attempt) : Disk :=
  match attempt.call.plan env disk with
  | .error _ => disk
  | .ok plan => Function.update disk plan.place (writeAll (disk plan.place) (plan.writes.take attempt.writes))

end MindRoom.DynamicWorkflow
