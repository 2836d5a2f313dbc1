import MindRoom.Table
import MindRoom.Json
import MindRoom.Transaction

/-! # Script runs

`script_runs/store.py`: the durable state of background scripts and of the tool calls they make.
Every operation is one write transaction; one that raises leaves the database as it was. The
encoder of receipts and the digest of capabilities are parameters, and the times an operation
reads from the host clock are its arguments.
-/

namespace MindRoom

inductive ScriptRunState where
  | starting
  | running
  | exited
  | failed
  | cancelled
  | interrupted
deriving DecidableEq

/-- Durable lifecycle states for one logical governed tool call. -/
inductive ScriptCallState where
  | pending
  | completed
  | failed
  | indeterminate
deriving DecidableEq

def ScriptRunState.value : ScriptRunState → String
  | .starting => "starting"
  | .running => "running"
  | .exited => "exited"
  | .failed => "failed"
  | .cancelled => "cancelled"
  | .interrupted => "interrupted"

/-- `_TERMINAL_RUN_STATES`. -/
def ScriptRunState.Terminal (state : ScriptRunState) : Prop :=
  state = .exited ∨ state = .failed ∨ state = .cancelled ∨ state = .interrupted

/-- `_TERMINAL_CALL_STATES`. -/
def ScriptCallState.Terminal (state : ScriptCallState) : Prop :=
  state = .completed ∨ state = .failed ∨ state = .indeterminate

instance : DecidablePred ScriptRunState.Terminal := fun _ => by
  unfold ScriptRunState.Terminal
  infer_instance

instance : DecidablePred ScriptCallState.Terminal := fun _ => by
  unfold ScriptCallState.Terminal
  infer_instance

def runTransitions : ScriptRunState → List ScriptRunState
  | .starting => [.running, .exited, .failed, .cancelled, .interrupted]
  | .running => [.exited, .failed, .cancelled, .interrupted]
  | .exited => []
  | .failed => []
  | .cancelled => []
  | .interrupted => []

/-- One permitted toolkit/function pair captured at script launch. -/
structure ScriptToolGrant where
  toolkitName : String
  functionName : String
deriving DecidableEq

/-- The durable state of one background script run that its transitions read or write. -/
structure ScriptRunRecord where
  runId : String
  grants : List ScriptToolGrant
  tokenHash : String
  workerKey : Option String := none
  workerId : Option String := none
  workerBackendLocator : Option String := none
  snapshotLocator : Option String := none
  maxToolCallsPerMinute : Int := 30
  maxRuntimeSeconds : Int := 24 * 60 * 60
  state : ScriptRunState := .starting
  createdAt : String
  startedAt : Option String := none
  finishedAt : Option String := none
  exitCode : Option Int := none
  error : Option String := none
  output : String := ""
  cancelRequestedAt : Option String := none
  cancellationReason : Option String := none
deriving DecidableEq

instance : Keyed ScriptRunRecord String := ⟨ScriptRunRecord.runId⟩

/-- `script_calls`: the receipt is its encoded text. -/
structure ScriptCallRow where
  runId : String
  callId : String
  grant : ScriptToolGrant
  argumentsDigest : String
  state : ScriptCallState
  receiptJson : Option String
  createdAt : String
deriving DecidableEq

instance : Keyed ScriptCallRow (String × String) := ⟨fun r => (r.runId, r.callId)⟩

structure ScriptCallRecord where
  runId : String
  callId : String
  grant : ScriptToolGrant
  argumentsDigest : String
  state : ScriptCallState
  createdAt : String
  result : Json := .null
  error : Json := .null
deriving DecidableEq

structure ScriptCallClaim where
  call : ScriptCallRecord
  created : Bool
deriving DecidableEq

/-- The two tables. -/
structure ScriptRunDB where
  runs : Table ScriptRunRecord
  calls : Table ScriptCallRow

inductive ScriptRunStoreError where
  | store (msg : String)
  | runNotFound (runId : String)
  | callNotFound (callId : String)
  | callConflict (msg : String)
  | callRateLimit (msg : String)
  | receiptTooLarge (msg : String)
  | capability (msg : String)
deriving DecidableEq

/-- The host's digest of a capability, and its encoder of receipts. -/
structure ScriptHost where
  capabilityHash : String → String
  /-- The canonical text of the value, unless it is not serializable. -/
  dumps : Json → Option String
  loads : String → Json

abbrev ScriptTx := Transaction ScriptRunDB ScriptRunStoreError

namespace ScriptRunStore

variable (host : ScriptHost)

/-- `_MAX_RECEIPT_BYTES`, `_MAX_RUN_ERROR_BYTES` and `_MAX_RUN_OUTPUT_BYTES`. -/
def maxBytes : Nat := 64 * 1024

def serializeReceipt (result error : Json) : Except ScriptRunStoreError String :=
  match host.dumps (.obj [("result", result), ("error", error)]) with
  | none => .error (.store "Script call receipt must be JSON serializable.")
  | some serialized =>
    if serialized.utf8ByteSize > maxBytes then
      .error (.receiptTooLarge "Script call receipt exceeds the 65536-byte limit.")
    else .ok serialized

def receiptValues (receiptJson : String) : Json × Json :=
  match host.loads receiptJson with
  | .obj fields => ((fields.lookup "result").getD .null, (fields.lookup "error").getD .null)
  | _ => (.null, .null)

def callFromRow (row : ScriptCallRow) : ScriptCallRecord :=
  let values := (row.receiptJson.map (receiptValues host)).getD (.null, .null)
  ⟨row.runId, row.callId, row.grant, row.argumentsDigest, row.state, row.createdAt, values.1, values.2⟩

/-- `_validate_run_error` and `_validate_run_output`. -/
def validateRunText (what text : String) : Except ScriptRunStoreError Unit :=
  if text.utf8ByteSize > maxBytes then
    .error (.store ("Script run " ++ what ++ " exceeds the 65536-byte limit."))
  else .ok ()

def Accepting (run : ScriptRunRecord) : Prop :=
  run.cancelRequestedAt = none ∧ (run.state = .starting ∨ run.state = .running)

instance : DecidablePred Accepting := fun _ => by
  unfold Accepting
  infer_instance

/-- Atomically store a new starting run before any worker action. -/
def createRun (run : ScriptRunRecord) : ScriptTx ScriptRunRecord := fun db =>
  if run.state ≠ .starting then
    .error (.store "A new script run must begin in the starting state.")
  else if run.maxToolCallsPerMinute ≤ 0 ∨ run.maxRuntimeSeconds ≤ 0 then
    .error (.store "Background script limits must be positive.")
  else match db.runs.insert? run with
    | none => .error (.store ("Script run '" ++ run.runId ++ "' already exists."))
    | some runs => .ok (run, { db with runs := runs })

/-- Recheck durable run authority immediately before an accepted call dispatches. -/
def requireCallDispatchAllowed (runId : String) (db : ScriptRunDB) :
    Except ScriptRunStoreError ScriptRunRecord :=
  match db.runs.get? runId with
  | none => .error (.runNotFound runId)
  | some run =>
    if Accepting run then .ok run
    else .error (.capability "Background script capability has been revoked.")

/-- Authenticate a token and reject runs that may no longer start calls. -/
def requireActiveCapability (runId token : String) (db : ScriptRunDB) :
    Except ScriptRunStoreError ScriptRunRecord :=
  match db.runs.get? runId with
  | none => .error (.runNotFound runId)
  | some run =>
    if run.tokenHash ≠ host.capabilityHash token then
      .error (.capability "Background script capability is invalid.")
    else requireCallDispatchAllowed runId db

def recentCallCount (runId windowStart : String) (db : ScriptRunDB) : Nat :=
  (db.calls.select fun c => c.runId = runId ∧ windowStart ≤ c.createdAt).length

/-- Create one call claim or return its stable duplicate receipt. -/
def claimCall (runId callId : String) (grant : ScriptToolGrant) (argumentsDigest now windowStart : String) :
    ScriptTx ScriptCallClaim := fun db =>
  match db.calls.get? (runId, callId) with
  | some row =>
    if row.grant ≠ grant ∨ row.argumentsDigest ≠ argumentsDigest then
      .error (.callConflict ("Script call '" ++ callId ++ "' does not match its original claim."))
    else .ok (⟨callFromRow host row, false⟩, db)
  | none =>
    match db.runs.get? runId with
    | none => .error (.runNotFound runId)
    | some run =>
      if ¬ Accepting run then
        .error (.capability "Background script run cannot accept new calls.")
      else if grant ∉ run.grants then
        .error (.capability "Requested script tool grant was not granted at launch.")
      else if (recentCallCount runId windowStart db : Int) ≥ run.maxToolCallsPerMinute then
        .error (.callRateLimit "Background script tool-call rate limit exceeded.")
      else
        .ok (⟨⟨runId, callId, grant, argumentsDigest, .pending, now, .null, .null⟩, true⟩, { db with
            calls := db.calls.insertOrIgnore
              ⟨runId, callId, grant, argumentsDigest, .pending, none, now⟩ })

def setReceipt (runId callId : String) (state : ScriptCallState) (receiptJson : String)
    (db : ScriptRunDB) : ScriptRunDB :=
  { db with
    calls := db.calls.update (fun c => c.runId = runId ∧ c.callId = callId)
      (fun c => { c with state := state, receiptJson := some receiptJson }) }

/-- Publish indeterminate only if no terminal execution receipt already won. -/
def settleOrphanedCall (runId callId : String) (error : Json) : ScriptTx ScriptCallRecord := fun db => do
  let receiptJson ← serializeReceipt host .null error
  match db.calls.get? (runId, callId) with
  | none => .error (.callNotFound callId)
  | some row =>
    if row.state.Terminal then .ok (callFromRow host row, db)
    else
      .ok ({ callFromRow host row with
          state := .indeterminate, error := (receiptValues host receiptJson).2 },
        setReceipt runId callId .indeterminate receiptJson db)

/-- Atomically publish one bounded terminal receipt for a claimed call. -/
def publishCallResult (runId callId : String) (state : ScriptCallState) (result error : Json) :
    ScriptTx ScriptCallRecord := fun db =>
  if ¬ state.Terminal then .error (.store "A script call result must use a terminal state.")
  else do
    let receiptJson ← serializeReceipt host result error
    match db.calls.get? (runId, callId) with
    | none => .error (.callNotFound callId)
    | some row =>
      if row.state.Terminal then
        if row.state = state ∧ row.receiptJson = some receiptJson then .ok (callFromRow host row, db)
        else .error (.callConflict ("Script call '" ++ callId ++ "' already has a terminal receipt."))
      else
        let values := receiptValues host receiptJson
        .ok ({ callFromRow host row with state := state, result := values.1, error := values.2 },
          setReceipt runId callId state receiptJson db)

def setRun (run : ScriptRunRecord) (db : ScriptRunDB) : ScriptRunDB :=
  { db with
    runs := db.runs.update (fun r => r.runId = run.runId) (fun r => { run with runId := r.runId }) }

def requestCancel (runId : String) (reason : Option String) (now : String) :
    ScriptTx ScriptRunRecord := fun db =>
  match db.runs.get? runId with
  | none => .error (.runNotFound runId)
  | some run =>
    if run.cancelRequestedAt ≠ none ∨ run.state.Terminal then .ok (run, db)
    else
      let updated := { run with cancelRequestedAt := some now, cancellationReason := reason }
      .ok (updated, setRun updated db)

/-- Durably revoke a run and retain one observed process outcome before cleanup. -/
def recordProcessExit (runId : String) (exitCode : Option Int) (error : Option String)
    (output cancellationReason now : String) : ScriptTx ScriptRunRecord := fun db => do
  (error.elim (.ok ()) (validateRunText "error") : Except ScriptRunStoreError Unit)
  validateRunText "output" output
  match db.runs.get? runId with
  | none => .error (.runNotFound runId)
  | some run =>
    if run.state.Terminal ∨ run.finishedAt ≠ none then .ok (run, db)
    else
      let updated := { run with
        finishedAt := some now
        exitCode := exitCode
        error := error
        output := output
        cancelRequestedAt := some (run.cancelRequestedAt.getD now)
        cancellationReason := some (run.cancellationReason.getD cancellationReason) }
      .ok (updated, setRun updated db)

/-- The error of a transition the run cannot make. -/
def cannotTransition (run : ScriptRunRecord) (state : ScriptRunState) : ScriptRunStoreError :=
  .store ("Script run '" ++ run.runId ++ "' cannot transition from " ++ run.state.value ++ " to " ++
    state.value ++ ".")

/-- Atomically publish terminal state and clear externally cleaned ownership. -/
def finalizeCleanedRun (runId : String) (state : ScriptRunState) (error : Option String)
    (now : String) : ScriptTx ScriptRunRecord := fun db =>
  if ¬ state.Terminal then
    .error (.store ("Script run '" ++ runId ++ "' cleanup can finalize only to a terminal state."))
  else match db.runs.get? runId with
    | none => .error (.runNotFound runId)
    | some run =>
      if run.state.Terminal then .ok (run, db)
      else if state ∉ runTransitions run.state then .error (cannotTransition run state)
      else
        let updated := { run with
          state := state
          finishedAt := some (run.finishedAt.getD now)
          error := error.or run.error
          workerKey := none
          workerId := none
          workerBackendLocator := none
          snapshotLocator := none }
        .ok (updated, setRun updated db)

def transitioned (run : ScriptRunRecord) (state : ScriptRunState) (workerId : Option String)
    (exitCode : Option Int) (error : Option String) (now : String) : ScriptRunRecord :=
  { run with
    state := state
    workerId := workerId.or run.workerId
    startedAt := if state = .running ∧ run.startedAt = none then some now else run.startedAt
    finishedAt := if state.Terminal ∧ run.finishedAt = none then some now else run.finishedAt
    exitCode := exitCode.or run.exitCode
    error := error.or run.error }

def transitionRun (runId : String) (state : ScriptRunState) (workerId : Option String)
    (exitCode : Option Int) (error : Option String) (now : String) :
    ScriptTx ScriptRunRecord := fun db => do
  (error.elim (.ok ()) (validateRunText "error") : Except ScriptRunStoreError Unit)
  match db.runs.get? runId with
  | none => .error (.runNotFound runId)
  | some run =>
    if state = .running ∧ run.cancelRequestedAt ≠ none then
      .error (.store ("Script run '" ++ run.runId ++
        "' cannot enter running after cancellation was requested."))
    else if state ≠ run.state ∧ state ∉ runTransitions run.state then
      .error (cannotTransition run state)
    else
      let updated := transitioned run state workerId exitCode error now
      if run.state.Terminal then
        if updated = run then .ok (run, db)
        else .error (.store ("Terminal script run '" ++ run.runId ++ "' cannot be mutated."))
      else .ok (updated, setRun updated db)

end ScriptRunStore

end MindRoom
