import MindRoom.CompactJson
import MindRoom.WorkflowValue

/-! # Large messages

An event that is too large is replaced by a preview: its whole content is uploaded, and the preview points to
the upload. Metadata and relations stay on the event, and the preview takes what they leave. A preview without
any text is measured before the upload; when the upload fails, a text preview stands alone.
-/

namespace MindRoom.LargeMessages

open JsonText (compactLength)

def normalMessageLimit : Nat := 55000

def editMessageLimit : Nat := 27000

def previewOverheadBytes : Nat := 5000

def nonterminalStreamPreviewBytes : Nat := 12000

def matrixEventHardLimit : Nat := 64000

def streamStatusKey : String := "io.mindroom.stream_status"

def longTextKey : String := "io.mindroom.long_text"

def durableFinalOutcomeKey : String := "io.mindroom.final_delivery"

def continuationIndicator : String := "\n\n[Message continues in attached file]"

def streamingPreviewTruncationIndicator : String := "\n\n[Streaming preview truncated]"

def sidecarUploadFallbackIndicator : String := "\n\n[Message truncated because the attachment upload failed.]"

inductive PrepareError
  | tooLarge
  /-- A content that is not of the shape of a message. -/
  | malformed
deriving DecidableEq

/-! ## Metadata -/

def passthroughContentKeys : List String :=
  ["m.mentions", "com.mindroom.hook_source", "com.mindroom.skip_mentions", "com.mindroom.source_kind",
    "com.mindroom.attachment_ids", "com.mindroom.message_received_depth", "com.mindroom.original_sender",
    "com.mindroom.per_fire_thread_root_event_id", "com.mindroom.per_fire_thread_root", "io.mindroom.ai_run",
    streamStatusKey, "io.mindroom.warmup_suffix", "com.mindroom.voice_raw_audio_fallback",
    "com.mindroom.voice_transcript"]

def sidecarOnlyKeys : List String := [longTextKey, "io.mindroom.tool_trace", "io.mindroom.visible_body"]

def fileFallbackKeys : List String := ["url", "file", "filename", "info"]

/-- `key.startswith("io.mindroom.")`. -/
def isMindroomKey (key : String) : Bool := "io.mindroom.".toList.isPrefixOf key.toList

def isPassthroughPreviewKey (key : String) : Bool :=
  passthroughContentKeys.contains key || (isMindroomKey key && !sidecarOnlyKeys.contains key)

/-- Whether one source key should be mirrored onto the edit wrapper. -/
def isPassthroughEditWrapperKey (key : String) : Bool :=
  isMindroomKey key && !sidecarOnlyKeys.contains key && key ≠ durableFinalOutcomeKey

def copyPreviewMetadata (source target : Dict) : Dict :=
  Dict.update target (source.filter fun entry => isPassthroughPreviewKey entry.1)

def copyEditWrapperMetadata (source target : Dict) : Dict :=
  Dict.update target (source.filter fun entry => isPassthroughEditWrapperKey entry.1)

/-- Keep the outer fallback independently valid when an edit replaces a file. -/
def copyFileEditFallbackFields (source target : Dict) : Dict :=
  Dict.update target (fileFallbackKeys.filterMap fun key => (Dict.get? source key).map fun value => (key, value))

/-- `content["body"]` of a content built here. -/
def bodyOf (content : Dict) : String := (Dict.str? content "body").getD ""

/-- A compact edit wrapper whose fallback is valid on its own. -/
def wrapLargeEdit (content source replacement : Dict) : Dict :=
  let sourceMsgtype := (Dict.get? source "msgtype").getD (.str "m.text")
  let isFile := sourceMsgtype = .str "m.file"
  let wrapperMsgtype := if isFile then (Dict.get? replacement "msgtype").getD sourceMsgtype else sourceMsgtype
  let wrapper : Dict :=
    [("msgtype", wrapperMsgtype), ("body", .str ("* " ++ bodyOf replacement)), ("m.new_content", .obj replacement),
      ("m.relates_to", (Dict.get? content "m.relates_to").getD (.obj []))]
  copyEditWrapperMetadata source (if isFile then copyFileEditFallbackFields replacement wrapper else wrapper)

/-! ## Sizes -/

/-- The size of an event, with its overhead. The order of its members does not count. -/
def calculateEventSize (content : Dict) : Nat := compactLength (.obj content) + 2000

/-- What a delivery is bound to, and what comes from outside: the size of `nio.Api.to_json` texts and the
formatting of previews. -/
structure Delivery where
  roomId : String
  /-- Encryption is on, or the payload is prepared for it. -/
  encrypted : Bool
  deviceId : Option String
  toJsonBytes : Json → Nat
  markdownToHtml : String → String

def encryptionVisibleMetadata (content : Dict) : Dict :=
  let voiceEchoKey := "com.mindroom.visible_router_voice_echo"
  let reactionKey := "com.mindroom.config_confirmation_reaction"
  (match Dict.str? content streamStatusKey with
    | some status => [(streamStatusKey, .str status)]
    | none => []) ++
  (if Dict.get? content voiceEchoKey = some (.bool true) then [(voiceEchoKey, .bool true)] else []) ++
  (match Dict.str? content reactionKey with
    | some reaction => [(reactionKey, .str reaction)]
    | none => [])

/-- The length of a Megolm ciphertext, in base 64. -/
def ciphertextBytes (plaintextBytes : Nat) : Nat :=
  let paddedBytes := (plaintextBytes / 16 + 1) * 16
  let ciphertextLengthVarintBytes := max 1 ((Nat.size paddedBytes + 6) / 7)
  let signedMessageBytes := paddedBytes + 1 + 1 + 5 + 1 + ciphertextLengthVarintBytes + 8 + 64
  (signedMessageBytes + 2) / 3 * 4

def repeated (c : Char) (n : Nat) : String := String.ofList (List.replicate n c)

/-- The encrypted envelope. Its keys are distinct. -/
def estimatedContent (delivery : Delivery) (content : Dict) (ciphertext : Nat) : Dict :=
  [("algorithm", .str "m.megolm.v1.aes-sha2"), ("sender_key", .str (repeated 's' 43)),
    ("ciphertext", .str (repeated 'c' ciphertext)), ("session_id", .str (repeated 'i' 43)),
    ("device_id", match delivery.deviceId with | some deviceId => .str deviceId | none => .null)] ++
  (match Dict.obj? content "m.relates_to" with
    | some relation => [("m.relates_to", .obj relation)]
    | none => []) ++ encryptionVisibleMetadata content

def plaintext (delivery : Delivery) (content : Dict) : Json :=
  .obj [("content", .obj content), ("type", .str "m.room.message"), ("room_id", .str delivery.roomId)]

def calculateDeliveryEventSize (delivery : Delivery) (content : Dict) : Nat :=
  if delivery.encrypted then
    calculateEventSize (estimatedContent delivery content
      (ciphertextBytes (delivery.toJsonBytes (plaintext delivery content))))
  else calculateEventSize content

def fitsEvent (delivery : Delivery) (content : Dict) : Bool :=
  calculateDeliveryEventSize delivery content ≤ matrixEventHardLimit

/-! ## Previews -/

/-- The search of `_prefix_by_bytes`, with `upper` one past `hi`. -/
def prefixSearch (text : List Char) (maxBytes lo upper best : Nat) : Nat :=
  if _h : lo < upper then
    let mid := (lo + upper - 1) / 2
    if (String.ofList (text.take mid)).utf8ByteSize ≤ maxBytes then prefixSearch text maxBytes (mid + 1) upper mid
    else prefixSearch text maxBytes lo mid best
  else best
termination_by upper - lo
decreasing_by all_goals omega

def prefixByBytes (text : String) (maxBytes : Nat) : String :=
  if text.utf8ByteSize ≤ maxBytes then text
  else
    String.ofList (text.toList.take
      (prefixSearch text.toList maxBytes 0 (min text.toList.length maxBytes + 1) 0))

/-- `text.lstrip()`. -/
def lstripped (text : String) : String := String.ofList (text.toList.dropWhile (inRanges spaceRanges))

/-- A preview that fits within the byte limit. -/
def createPreview (text : String) (maxBytes : Nat) (indicator : String) : String :=
  if text.utf8ByteSize ≤ maxBytes then text
  else if maxBytes ≤ indicator.utf8ByteSize then lstripped indicator
  else prefixByBytes text (maxBytes - indicator.utf8ByteSize) ++ indicator

def limitedPreview (text : String) (limit : Nat) (indicator : String) : String :=
  if 0 < limit then createPreview text limit indicator else ""

/-- The loop of `_largest_fitting_limit`. -/
def largestFittingFrom (fits : Nat → Bool) (lower upper : Nat) : Nat :=
  if _h : lower < upper then
    let candidate := (lower + upper + 1) / 2
    if fits candidate then largestFittingFrom fits candidate upper else largestFittingFrom fits lower (candidate - 1)
  else lower
termination_by upper - lower
decreasing_by all_goals omega

def largestFittingLimit (maximum : Nat) (fits : Nat → Bool) : Nat := largestFittingFrom fits 0 maximum

/-- A preview content with another body, and its size noted where there is a sidecar. -/
def withBody (content : Dict) (body : String) : Dict :=
  let content := Dict.set content "body" (.str body)
  match Dict.obj? content longTextKey with
  | none => content
  | some metadata => Dict.set content longTextKey (.obj (Dict.set metadata "preview_size" (.num body.toList.length)))

/-- The limit that fits: the largest one, or what the search finds. -/
def fittedLimit (maximum : Nat) (fits : Nat → Bool) : Nat :=
  if fits maximum then maximum else largestFittingLimit maximum fits

/-- Fit a non-edit preview after all metadata and relations are present. -/
def fitRegularPreview (delivery : Delivery) (preview : Dict) (text indicator : String) : Except PrepareError Dict :=
  match Dict.str? preview "body" with
  | none => .error .malformed
  | some previewBody =>
    let buildEvent (limit : Nat) := withBody preview (limitedPreview text limit indicator)
    if fitsEvent delivery (buildEvent 0) then
      .ok (buildEvent (fittedLimit previewBody.utf8ByteSize fun limit => fitsEvent delivery (buildEvent limit)))
    else .error .tooLarge

/-- The event of one replacement, with a fallback body of its own. -/
def editEvent (content source inner : Dict) (text indicator : String) (outerLimit : Nat) : Dict :=
  Dict.set (wrapLargeEdit content source inner) "body"
    (.str (if 0 < outerLimit then "* " ++ createPreview text outerLimit indicator else ""))

/-- Fit a terminal edit after all replacement and wrapper metadata is present. -/
def buildTerminalEditPreview (delivery : Delivery) (content source preview : Dict) (text indicator : String) :
    Except PrepareError Dict :=
  match Dict.str? preview "body" with
  | none => .error .malformed
  | some previewBody =>
    let buildInner (limit : Nat) := withBody preview (limitedPreview text limit indicator)
    let fits (inner : Dict) (outerLimit : Nat) :=
      fitsEvent delivery (editEvent content source inner text indicator outerLimit)
    if fits (buildInner 0) 0 then
      let inner := buildInner (fittedLimit previewBody.utf8ByteSize fun limit => fits (buildInner limit) 0)
      let outerLimit := largestFittingLimit (bodyOf inner).utf8ByteSize (fits inner)
      .ok (editEvent content source inner text indicator outerLimit)
    else .error .tooLarge

/-- Attach relations and fit one regular or replacement preview. -/
def fitLargeMessagePreview (delivery : Delivery) (content source preview : Dict) (text indicator : String)
    (isEdit : Bool) : Except PrepareError Dict :=
  let preview :=
    match Dict.get? content "m.relates_to" with
    | none => preview
    | some relation => Dict.set preview "m.relates_to" relation
  if isEdit && (Dict.get? content "m.new_content").isSome then
    buildTerminalEditPreview delivery content source preview text indicator
  else fitRegularPreview delivery preview text indicator

/-! ## Sidecars -/

/-- What an upload gives. -/
structure Sidecar where
  mxcUri : Option String
  fileInfo : Option Dict

def hasCommonMetadata (fileInfo : Dict) : Bool :=
  (Dict.num? fileInfo "size").any (0 ≤ ·) && (Dict.nonempty? fileInfo "mimetype").isSome

def hasEncryptedMetadata (mxcUri : String) (fileInfo : Dict) : Bool :=
  Dict.get? fileInfo "url" = some (.str mxcUri) && (Dict.obj? fileInfo "key").any (· ≠ []) &&
    (Dict.nonempty? fileInfo "iv").isSome &&
    ((Dict.obj? fileInfo "hashes").bind fun hashes => Dict.nonempty? hashes "sha256").isSome &&
    Dict.get? fileInfo "v" = some (.str "v2")

/-- Whether one uploaded sidecar carries the metadata clients need to fetch it. -/
def sidecarUploadIsUsable (encrypted : Bool) (sidecar : Sidecar) : Bool :=
  match sidecar.mxcUri, sidecar.fileInfo with
  | some mxcUri, some fileInfo =>
    mxcUri ≠ "" && hasCommonMetadata fileInfo && (!encrypted || hasEncryptedMetadata mxcUri fileInfo)
  | _, _ => false

def addSidecarMetadata (target : Dict) (encrypted : Bool) (sidecar : Sidecar) (originalSize : Nat) : Dict :=
  match sidecar.mxcUri, sidecar.fileInfo with
  | some mxcUri, some fileInfo =>
    let target := if encrypted then Dict.set target "file" (.obj fileInfo) else Dict.set target "url" (.str mxcUri)
    Dict.set target longTextKey (.obj [("version", .num 2), ("encoding", .str "matrix_event_content_json"),
      ("original_event_size", .num originalSize), ("preview_size", .num (bodyOf target).toList.length),
      ("is_complete_content", .bool true)])
  | _, _ => target

/-! ## Preview events -/

def streamingEditEvent (delivery : Delivery) (content source : Dict) (text : String) (sidecar : Sidecar)
    (originalSize limit : Nat) : Dict :=
  let preview := createPreview text limit streamingPreviewTruncationIndicator
  let formattedPreview := delivery.markdownToHtml preview
  let msgtype := (Dict.get? source "msgtype").getD (.str "m.text")
  let previewContent := addSidecarMetadata
    (copyPreviewMetadata source [("msgtype", msgtype), ("body", .str preview),
      ("format", .str "org.matrix.custom.html"), ("formatted_body", .str formattedPreview)])
    delivery.encrypted sidecar originalSize
  copyEditWrapperMetadata source [("msgtype", msgtype), ("body", .str ("* " ++ preview)),
    ("format", .str "org.matrix.custom.html"), ("formatted_body", .str formattedPreview),
    ("m.new_content", .obj previewContent), ("m.relates_to", (Dict.get? content "m.relates_to").getD (.obj []))]

/-- The first event of ever shorter previews that fits. -/
def buildNonterminalStreamingEditPreview (delivery : Delivery) (content source : Dict) (text : String)
    (sidecar : Sidecar) (originalSize limit : Nat) : Option Dict :=
  let event := streamingEditEvent delivery content source text sidecar originalSize limit
  if fitsEvent delivery event then some event
  else if _h : limit = 0 then none
  else buildNonterminalStreamingEditPreview delivery content source text sidecar originalSize (limit / 2)
termination_by limit
decreasing_by omega

def fallbackMsgtype (source : Dict) : String :=
  if Dict.get? source "msgtype" = some (.str "m.notice") then "m.notice" else "m.text"

def textPreview (source : Dict) (body : String) : Dict :=
  copyPreviewMetadata source [("msgtype", .str (fallbackMsgtype source)), ("body", .str body)]

/-- The loop over ever shorter text previews. -/
def textFallbackFrom (source : Dict) (text : String) (sizeLimit limit : Nat) : Dict :=
  let preview := textPreview source (createPreview text limit sidecarUploadFallbackIndicator)
  if calculateEventSize preview ≤ sizeLimit then preview
  else if _h : limit = 0 then preview
  else textFallbackFrom source text sizeLimit (limit / 2)
termination_by limit
decreasing_by omega

/-- Build a text preview when the full-content sidecar is unavailable. -/
def buildTextFallbackContent (source : Dict) (text : String) (sizeLimit : Nat) : Dict :=
  textFallbackFrom source text sizeLimit (sizeLimit - previewOverheadBytes)

/-- The preview of `_build_file_content`. -/
def fileContent (sidecar : Sidecar) (text : String) (sizeLimit : Nat) : Dict :=
  [("msgtype", .str "m.file"), ("body", .str (createPreview text (sizeLimit - previewOverheadBytes) continuationIndicator)),
    ("filename", .str "message-content.json")] ++
  (sidecar.fileInfo.toList.map fun fileInfo => ("info", .obj fileInfo))

/-- The event with an empty text that `_ensure_minimum_preview_can_fit` measures. -/
def minimumEvent (content source : Dict) (isEdit : Bool) : Dict :=
  let minimumPreview := textPreview source ""
  if isEdit then Dict.set (wrapLargeEdit content source minimumPreview) "body" (.str "")
  else
    match Dict.get? content "m.relates_to" with
    | none => minimumPreview
    | some relation => Dict.set minimumPreview "m.relates_to" relation

/-! ## Preparing a message -/

def isEditMessage (content : Dict) : Except PrepareError Bool :=
  if (Dict.get? content "m.new_content").isSome then .ok true
  else
    match Dict.get? content "m.relates_to" with
    | none => .ok false
    | some (.obj relation) => .ok (Dict.get? relation "rel_type" = some (.str "m.replace"))
    | some _ => .error .malformed

def isNonterminalStreamContent (content : Dict) : Except PrepareError Bool :=
  match Dict.get? content streamStatusKey with
  | some (.str status) => .ok (status = "pending" || status = "streaming")
  | some (.arr _) | some (.obj _) => .error .malformed
  | _ => .ok false

/-- Remove substantive old inline outcomes while retaining the bounded marker. -/
def withoutInlineFinalResult (content : Dict) : Dict :=
  let marker : Json := .obj [("version", .num 2)]
  let hasResult (d : Dict) := (Dict.get? d durableFinalOutcomeKey).any (· ≠ marker)
  let outer := if hasResult content then Dict.pop content durableFinalOutcomeKey else content
  match Dict.obj? content "m.new_content" with
  | none => outer
  | some replacement =>
    if hasResult replacement then
      Dict.set outer "m.new_content" (.obj (Dict.pop replacement durableFinalOutcomeKey))
    else outer

/-- The content a preview stands for, and its text. -/
def sourceOf (content : Dict) : Except PrepareError (Dict × String) :=
  let source :=
    match Dict.get? content "m.new_content" with
    | none => some content
    | some (.obj replacement) => some replacement
    | some _ => none
  match source.bind fun source => (Dict.str? source "body").map fun text => (source, text) with
  | none => .error .malformed
  | some sourceText => .ok sourceText

/-- Upload the whole content, and fit a preview that points to it or stands alone. -/
def uploadAndFit (delivery : Delivery) (content source : Dict) (text : String) (isEdit : Bool)
    (sizeLimit currentSize : Nat) (sidecar : Sidecar) : Except PrepareError Dict :=
  let fallback := fitLargeMessagePreview delivery content source (buildTextFallbackContent source text sizeLimit)
    text sidecarUploadFallbackIndicator isEdit
  let fitted :=
    if sidecarUploadIsUsable delivery.encrypted sidecar then
      let preview := addSidecarMetadata (copyPreviewMetadata source (fileContent sidecar text sizeLimit))
        delivery.encrypted sidecar currentSize
      match fitLargeMessagePreview delivery content source preview text continuationIndicator isEdit with
      -- the sidecar envelope is too large, and the empty text envelope was measured before
      | .error .tooLarge => fallback
      | fitted => fitted
    else fallback
  match fitted with
  | .error error => .error error
  | .ok event => if fitsEvent delivery event then .ok event else .error .tooLarge

/-- The event to send, or why there is none, and how many uploads were attempted. -/
structure Prepared where
  result : Except PrepareError Dict
  uploads : Nat

/-- The first preview of a streaming edit, if one fits. -/
def streamingPreview (delivery : Delivery) (content source : Dict) (text : String) (currentSize : Nat)
    (sidecar : Sidecar) : Option Dict :=
  buildNonterminalStreamingEditPreview delivery content source text
    (if sidecarUploadIsUsable delivery.encrypted sidecar then sidecar else ⟨none, none⟩) currentSize
    nonterminalStreamPreviewBytes

/-- What follows once the empty preview is known to fit. -/
def prepareOversized (delivery : Delivery) (content source : Dict) (text : String) (isEdit : Bool)
    (sizeLimit : Nat) (sidecars : Nat → Sidecar) : Prepared :=
  let currentSize := calculateEventSize content
  let rest (uploads : Nat) : Prepared :=
    ⟨uploadAndFit delivery content source text isEdit sizeLimit currentSize (sidecars uploads), uploads + 1⟩
  match if isEdit then isNonterminalStreamContent source else .ok false with
  | .error error => ⟨.error error, 0⟩
  | .ok false => rest 0
  | .ok true =>
    match streamingPreview delivery content source text currentSize (sidecars 0) with
    | some event => ⟨.ok event, 1⟩
    | none => rest 1

def sizeLimitOf (isEdit : Bool) : Nat := if isEdit then editMessageLimit else normalMessageLimit

def prepareLargeMessage (delivery : Delivery) (content : Dict) (sidecars : Nat → Sidecar) : Prepared :=
  let content := withoutInlineFinalResult content
  match isEditMessage content with
  | .error error => ⟨.error error, 0⟩
  | .ok isEdit =>
    if calculateEventSize content ≤ sizeLimitOf isEdit ∧ fitsEvent delivery content = true then ⟨.ok content, 0⟩
    else
      match sourceOf content with
      | .error error => ⟨.error error, 0⟩
      | .ok (source, text) =>
        if fitsEvent delivery (minimumEvent content source isEdit) then
          prepareOversized delivery content source text isEdit (sizeLimitOf isEdit) sidecars
        else ⟨.error .tooLarge, 0⟩

end MindRoom.LargeMessages
