import MindRoom.DesktopBridge
import MindRoom.DesktopProtocol

/-! # From an execution to its response

`_policy_error`, `_execute_safely` and the calls that follow it in `desktop/bridge.py`, with
`upload_encrypted_screenshot` of `desktop/media.py`: the response a command gets, from what the
local policy says and what the local providers and the media repository answer or raise.
-/

namespace MindRoom.DesktopBridge

/-! ## The local policy -/

def desktopAppActions : List DesktopAction :=
  [.getAppState, .screenshot, .launchApp, .clickElement, .setValue, .scrollElement, .performAction,
    .click, .typeText, .scroll, .keypress]

/-- `DesktopBridgePolicy`, as far as it decides on a command. -/
structure DesktopBridgePolicy where
  allowedRequesterIds : List String
  allowedAgentNames : List String
  allowedAppIds : List String
  allowControl : Bool := false
  browserEnabled : Bool := false

/-- What the bridge reads besides: its clock, its browser provider, its latch and its lease. -/
structure DesktopConditions where
  nowMs : Int
  browserProvider : Bool := false
  controlRevoked : Bool := false
  controlAvailable : Bool := false
deriving DecidableEq

def maxFutureSkewMs : Int := 30000

def maxParameterIdentifierLength : Nat := 256

def rejectUnexpectedParameters (parameters : Dict) (allowed : List String) : Except String Unit :=
  let unexpected := ((parameters.map (·.1)).dedup.filter (· ∉ allowed)).insertionSort (· ≤ ·)
  if unexpected ≠ [] then
    .error ("Unexpected desktop parameters: " ++ ", ".intercalate unexpected ++ ".")
  else .ok ()

/-- `_required_str_parameter`, of an identifier. -/
def requiredStrParameter (parameters : Dict) (key : String) : Except String String :=
  match parameters.nonempty? key with
  | none => .error ("Desktop parameter " ++ key ++ " must be a non-empty string.")
  | some value =>
    if value.length > maxParameterIdentifierLength then
      .error ("Desktop parameter " ++ key ++ " must not exceed " ++
        toString maxParameterIdentifierLength ++ " characters.")
    else .ok value

def requiredObjectParameter (parameters : Dict) (key : String) : Except String Dict :=
  match parameters.obj? key with
  | some value => .ok value
  | none => .error ("Desktop parameter " ++ key ++ " must be an object with string keys.")

def browserCommandParameters (parameters : Dict) : Except String (String × Dict) := do
  rejectUnexpectedParameters parameters ["browser_action", "browser_parameters"]
  let action ← requiredStrParameter parameters "browser_action"
  let browserParameters ← requiredObjectParameter parameters "browser_parameters"
  .ok (action, browserParameters)

/-- `_OBSERVE_ACTIONS` of the browser. -/
def browserObserveActions : List String :=
  ["status", "profiles", "tabs", "snapshot", "screenshot", "console"]

/-- `_CONTROL_ACTIONS` of the browser. -/
def browserControlActions : List String :=
  ["start", "stop", "open", "focus", "close", "navigate", "pdf", "upload", "dialog", "act"]

def browserActionRequiresControl (action : String) : Except String Bool :=
  if action ∉ browserObserveActions ++ browserControlActions then
    .error ("Unsupported Playwright browser action: " ++ action ++ ".")
  else .ok (action ∈ browserControlActions)

variable (policy : DesktopBridgePolicy) (conditions : DesktopConditions) (command : DesktopCommand)

/-- The part of the policy that a control command has to pass. -/
def controlError : Option String :=
  if ¬ policy.allowControl then some "Desktop control is disabled; this bridge is observe-only."
  else if conditions.controlRevoked then
    some "Desktop emergency stop is latched; restart the bridge locally before granting control again."
  else if ¬ conditions.controlAvailable then some "Local desktop control lease has expired."
  else none

def browserPolicyError : Option String :=
  if ¬ policy.browserEnabled ∨ ¬ conditions.browserProvider then
    some "Playwright browser extension support is disabled on this desktop bridge."
  else
    let judged := do
      let (action, _) ← browserCommandParameters command.parameters
      browserActionRequiresControl action
    match judged with
    | .error text => some text
    | .ok requiresControl =>
      let expected := if requiresControl then DesktopAction.browserControl else .browserObserve
      if command.action ≠ expected then
        some "Desktop browser command used the wrong observe/control classification."
      else if ¬ requiresControl then none
      else controlError policy conditions

def policyError : Option String :=
  if command.issuedAtMs > conditions.nowMs + maxFutureSkewMs then
    some "Desktop command was issued too far in the future."
  else if command.expiresAtMs ≤ conditions.nowMs then
    some "Desktop command expired before local execution."
  else if command.requesterId ∉ policy.allowedRequesterIds ∨ command.agentName ∉ policy.allowedAgentNames then
    some "Desktop command requester or agent is not allowed by local policy."
  else if command.action ∈ desktopBrowserActions then browserPolicyError policy conditions command
  else if command.action ∈ desktopAppActions ∧
      ∀ app, Dict.str? command.parameters "app" = some app → app ∉ policy.allowedAppIds then
    some "Desktop command must target an application in the local allowlist."
  else if command.action ∉ desktopControlActions then none
  else controlError policy conditions

/-! ## What executes -/

/-- How the execution of a command failed. -/
inductive ExecutionFailure where
  /-- `DesktopEmergencyStopError`. -/
  | emergencyStop (text : String)
  /-- `AccessibilityActionOutcomeUnknownError` or `PlaywrightActionOutcomeUnknownError`. -/
  | outcomeUnknown
  /-- `AccessibilityError`, `DesktopProviderError`, `DesktopProtocolError` or
  `PlaywrightBrowserError`. -/
  | reported (text : String)
  | other
deriving DecidableEq

/-- How a screenshot failed. -/
inductive CaptureFailure where
  /-- `AccessibilityError`, `DesktopProviderError` or `DesktopMediaError`. -/
  | reported (text : String)
  | other
deriving DecidableEq

structure BrowserImage where
  content : List UInt8
  mimeType : String
deriving DecidableEq

structure Execution where
  result : Dict
  captureApp : Option String := none
  captureStateId : Option String := none
  followUpApp : Option String := none
  browserImage : Option BrowserImage := none
deriving DecidableEq

/-- `AccessibilityState`, with its `to_result`. -/
structure AccessibilityState where
  stateId : String
  appId : String
  toResult : Dict
deriving DecidableEq

structure ScreenCapture where
  content : List UInt8
  mimeType : String
  screenWidth : Int
  screenHeight : Int
  imageWidth : Int
  imageHeight : Int
  captureX : Int
  captureY : Int
  captureWidth : Int
  captureHeight : Int
deriving DecidableEq

structure MediaUpload where
  encryption : Dict
  contentUri : Option String
  /-- The upload response, as a message shows it. -/
  shown : String
deriving DecidableEq

/-- What the local providers and the media repository answer while a command executes. -/
structure DesktopRun where
  execution : Except ExecutionFailure Execution
  /-- The state read after a control action; reading it may raise anything. -/
  followUp : Option AccessibilityState := none
  capture : Except CaptureFailure ScreenCapture := .error .other
  /-- The encryption and the upload, unless one of them raises. -/
  upload : Option MediaUpload := none
deriving DecidableEq

def pngSignature : List UInt8 := [0x89, 0x50, 0x4e, 0x47, 0x0d, 0x0a, 0x1a, 0x0a]

def jpegSignature : List UInt8 := [0xff, 0xd8, 0xff]

def validateImagePayload (image : List UInt8) (mimeType : String) : Except CaptureFailure Unit :=
  if image = [] ∨ image.length > maxScreenshotBytes then
    .error (.reported ("Screenshot must contain between 1 and " ++ toString maxScreenshotBytes ++ " bytes."))
  else if mimeType = "image/png" ∧ pngSignature <+: image then .ok ()
  else if mimeType = "image/jpeg" ∧ jpegSignature <+: image then .ok ()
  else .error (.reported "Screenshot bytes do not match their declared PNG or JPEG MIME type.")

def uploadEncryptedScreenshot (image : List UInt8) (mimeType : String) (upload : Option MediaUpload) :
    Except CaptureFailure EncryptedDesktopMedia := do
  validateImagePayload image mimeType
  match upload with
  | none => .error .other
  | some upload =>
    match upload.contentUri with
    | none => .error (.reported ("Matrix screenshot upload failed: " ++ upload.shown))
    | some url =>
      match Dict.obj? upload.encryption "key", Dict.obj? upload.encryption "hashes" with
      | some key, some hashes =>
        match Dict.nonempty? key "k", Dict.nonempty? upload.encryption "iv", Dict.nonempty? hashes "sha256" with
        | some k, some iv, some sha256 => .ok ⟨url, k, iv, sha256, mimeType, image.length⟩
        | _, _, _ =>
          .error (.reported "Matrix attachment encryption returned incomplete key metadata.")
      | _, _ => .error (.reported "Matrix attachment encryption returned malformed key metadata.")

/-! ## The response -/

def successResponse (result : Dict) (screenshot : Option EncryptedDesktopMedia := none) :
    DesktopResponse where
  requestId := command.requestId
  sessionId := command.sessionId
  ok := true
  result := result
  screenshot := screenshot

def captureErrorResponse (result : Dict) (error : String) : DesktopResponse :=
  if command.action = .getAppState then
    let warning := "Accessibility state was read, but its app-window screenshot failed: " ++ error ++
      " The state may now be stale; request get_app_state again before acting."
    successResponse command
      (Dict.set (Dict.set result "warning" (.str warning)) "follow_up_screenshot" (.str "failed"))
  else if command.action ∉ desktopControlActions then errorResponse command error
  else
    let warning := "The desktop action completed and fresh app state was read, but its follow-up " ++
      "screenshot failed: " ++ error ++ " do not repeat the action automatically. Request " ++
      "get_app_state before the next action."
    successResponse command
      (Dict.set (Dict.set result "warning" (.str warning)) "follow_up_screenshot" (.str "failed"))

/-- `_browser_image_response`, for an image. -/
def browserImageResponse (result : Dict) (image : BrowserImage) (upload : Option MediaUpload) :
    DesktopResponse :=
  match uploadEncryptedScreenshot image.content image.mimeType upload with
  | .error (.reported text) => captureErrorResponse command result text
  | .error .other => captureErrorResponse command result "Browser image upload failed."
  | .ok screenshot => successResponse command result (some screenshot)

def captureResponse (result : Dict) (run : DesktopRun) : DesktopResponse :=
  let captured := do
    let capture ← run.capture
    let screenshot ← uploadEncryptedScreenshot capture.content capture.mimeType run.upload
    .ok (capture, screenshot)
  match captured with
  | .error (.reported text) => captureErrorResponse command result text
  | .error .other => captureErrorResponse command result "Local screenshot operation failed."
  | .ok (capture, screenshot) =>
    let screen : Dict := [("width", .num capture.screenWidth), ("height", .num capture.screenHeight)]
    let region : Dict := [("x", .num capture.captureX), ("y", .num capture.captureY),
      ("width", .num capture.captureWidth), ("height", .num capture.captureHeight)]
    let image : Dict := [("width", .num capture.imageWidth), ("height", .num capture.imageHeight)]
    successResponse command
      (Dict.set (Dict.set (Dict.set result "screen" (.obj screen)) "capture" (.obj region)) "image"
        (.obj image))
      (some screenshot)

/-- `_execute_safely`, from what `_execute` came to. -/
def executeSafely (execution : Except ExecutionFailure Execution) : Except DesktopResponse Execution :=
  match execution with
  | .ok execution => .ok execution
  | .error (.emergencyStop text) => .error (errorResponse command text)
  | .error .outcomeUnknown => .error (unknownControlResponse command)
  | .error (.reported text) => .error (errorResponse command text)
  | .error .other =>
    if command.action ∈ desktopControlActions then .error (unknownControlResponse command)
    else .error (errorResponse command "Local desktop operation failed.")

/-- `_attach_follow_up_state`: an execution that names no app to follow up stays as it is. -/
def attachFollowUpState (execution : Execution) (state : Option AccessibilityState) :
    Except DesktopResponse Execution :=
  match execution.followUpApp, state with
  | none, _ => .ok execution
  | some _, none =>
    let warning := "The desktop action completed, but fresh app state could not be read; do not " ++
      "repeat the action automatically. Request get_app_state before deciding the next step."
    .error (successResponse command
      (Dict.set (Dict.set execution.result "warning" (.str warning)) "follow_up_state" (.str "failed")))
  | some _, some state => .ok
      { result := Dict.set execution.result "state" (.obj state.toResult)
        captureApp := some state.appId
        captureStateId := some state.stateId }

/-- `_process` after the command was started: its response. -/
def executed (run : DesktopRun) : DesktopResponse :=
  let finished := do
    let execution ← executeSafely command run.execution
    let execution ← attachFollowUpState command execution run.followUp
    match execution.browserImage with
    | some image => .error (browserImageResponse command execution.result image run.upload)
    | none =>
      if execution.captureApp = none ∨ execution.captureStateId = none then
        .error (successResponse command execution.result)
      else .ok execution
  match finished with
  | .error response => response
  | .ok execution => captureResponse command execution.result run

end MindRoom.DesktopBridge
