import MindRoom.WhileLoop
import MindRoom.Binary64
import MindRoom.WorkflowValue

/-! # Long messages in segments

A response that is too large for one event is cut into several complete events. A cut goes to the largest
end whose event fits, back to the end of a paragraph or a line where one is near, and back to the start of
a fenced code block that would be cut. Positions count characters from the start of the text.
-/

namespace MindRoom.SegmentedMessages

open DynamicWorkflow (Value Fields)

def segmentTargetPlaintextBytes : Int := 46000

def segmentTargetEditBytes : Int := 22000

def segmentTargetEncryptedPlaintextBytes : Int := 30000

def segmentTargetEncryptedEditBytes : Int := 16000

/-- `0.9` in double precision. -/
def segmentShrinkMargin : ℚ := 8106479329266893 / 2 ^ 53

def internalStreamKeys : List String := ["io.mindroom.tool_trace", "io.mindroom.visible_body"]

def segmentDroppedKeys : List String :=
  internalStreamKeys ++ ["body", "format", "formatted_body", "m.new_content", "m.relates_to", "m.mentions"]

/-! ## Positions in a text -/

/-- `text[start:stop]`. -/
def slice (text : List Char) (start stop : Nat) : List Char := (text.drop start).take (stop - start)

/-- `text.rfind(sub, start, stop)`, with nothing for `-1`. -/
def rfind (text sub : List Char) (start stop : Nat) : Option Nat :=
  (List.range (stop + 1)).reverse.find? fun i =>
    start ≤ i && i + sub.length ≤ stop && slice text i (i + sub.length) = sub

/-- Prefer a paragraph or line boundary without making chunks too small. -/
def preferredBoundary (text : List Char) (start stop : Nat) : Nat :=
  let minimum := start + max 1 ((stop - start) / 3)
  let paragraph := (rfind text ['\n', '\n'] (start + 1) stop).filter fun p => minimum ≤ p ∧ p + 2 ≤ stop
  let line := (rfind text ['\n'] (start + 1) stop).filter fun p => minimum ≤ p ∧ p + 1 ≤ stop
  ((paragraph.map (· + 2)).or (line.map (· + 1))).getD stop

/-! ## Fences -/

/-- A line that starts with a fence marker, behind quote marks. -/
structure FenceLine where
  quoteDepth : Nat
  marker : Char
  length : Nat
  info : List Char
deriving DecidableEq

def isBlank (c : Char) : Bool := c = ' ' || c = '\t'

/-- `(?:>[ \t]{0,3})*`: the number of quote marks, and what follows them. The first argument is how many
more blanks belong to the mark before. -/
def quoteMarks : Nat → List Char → Nat × List Char
  | blanks, c :: rest =>
    if c = '>' then
      let marks := quoteMarks 3 rest
      (marks.1 + 1, marks.2)
    else if isBlank c ∧ blanks ≠ 0 then quoteMarks (blanks - 1) rest
    else (0, c :: rest)
  | _, [] => (0, [])

/-- `_FENCE_LINE_PATTERN.match(line)`. -/
def fenceLine? (line : List Char) : Option FenceLine :=
  let marks := quoteMarks 0 (line.dropWhile isBlank)
  match marks.2 with
  | [] => none
  | marker :: rest =>
    let length := (marker :: rest).takeWhile (· = marker) |>.length
    if (marker = '\x60' ∨ marker = '~') ∧ 3 ≤ length then
      some { quoteDepth := marks.1, marker, length, info := (marker :: rest).drop length }
    else none

/-- The line of an open fence, and where it starts. -/
structure Opener where
  fence : FenceLine
  position : Nat
deriving DecidableEq

/-- `value.strip()` is empty. -/
def isSpace (text : List Char) : Bool := text.all (inRanges spaceRanges)

def FenceLine.closes (line opener : FenceLine) : Bool :=
  line.quoteDepth = opener.quoteDepth && line.marker = opener.marker && opener.length ≤ line.length &&
    isSpace line.info

/-- What a line does to the open fence. -/
def fenceAfter (position : Nat) (opener : Option Opener) (line : List Char) : Option Opener :=
  match fenceLine? line with
  | none => opener
  | some fence =>
    match opener with
    | none => some { fence, position }
    | some opener => if fence.closes opener.fence then none else some opener

/-- One round of the loop over the lines: the position of the next line and the open fence. -/
def scanLine (state : Nat × Option Opener) (line : List Char) : Nat × Option Opener :=
  (state.1 + line.length + 1, fenceAfter state.1 state.2 line)

/-- Where an unclosed fenced code block opens inside `text[start:stop]`. -/
def unclosedFenceStart (text : List Char) (start stop : Nat) : Option Nat :=
  (((slice text start stop).splitOn '\n').foldl scanLine (start, none)).2.map (·.position)

/-! ## Splitting -/

section

variable {γ : Type*} (calculateEventSize : γ → Int) (text : List Char)

/-- `int(n * budget / used * _SEGMENT_SHRINK_MARGIN)`. -/
def shrunk (n : Nat) (budget used : Int) : Nat :=
  ⌊Binary64.nearest (Binary64.nearest (n * budget / used) * segmentShrinkMargin)⌋.toNat

/-- One measurement of the event of `text[start:stop]`. -/
def fittingRound (build : List Char → γ) (start : Nat) (overhead budget : Int) (stop : Nat) :
    Option (WhileLoop.Round Nat (Option Nat)) :=
  let used := calculateEventSize (build (slice text start stop)) - overhead
  if used ≤ budget then some (.leave (some stop))
  else if stop = start + 1 then some (.leave none)
  else some (.again (start + max 1 (shrunk (stop - start) budget used)))

/-- A large end whose built event fits, or nothing when one character does not. -/
def fittingEnd (fuel start : Nat) (build : List Char → γ) (targetBytes : Int) : Option (Option Nat) :=
  let overhead := calculateEventSize (build [])
  let budget := targetBytes - overhead
  if budget ≤ 0 then some none
  else
    WhileLoop.run (fittingRound calculateEventSize text build start overhead budget) fuel
      (min text.length (start + budget.toNat))

/-- The chunks so far, and where the next one starts. -/
structure Splitting where
  chunks : List (List Char) := []
  offset : Nat := 0

/-- The end of the chunk at `start` before fences are looked at. -/
def cut (start stop : Nat) : Nat := if stop < text.length then preferredBoundary text start stop else stop

/-- Where the chunk at an offset may end before its boundary is moved. -/
def fittingEndAt (fuel : Nat) (firstBuild continuationBuild : List Char → γ) (firstTarget continuationTarget : Int)
    (offset : Nat) : Option (Option Nat) :=
  if offset = 0 then fittingEnd calculateEventSize text fuel offset firstBuild firstTarget
  else fittingEnd calculateEventSize text fuel offset continuationBuild continuationTarget

/-- One more chunk. -/
def splitRound (fuel : Nat) (firstBuild continuationBuild : List Char → γ) (firstTarget continuationTarget : Int)
    (s : Splitting) : Option (WhileLoop.Round Splitting (Option (List (List Char)))) :=
  if s.offset < text.length then
    match fittingEndAt calculateEventSize text fuel firstBuild continuationBuild firstTarget continuationTarget
        s.offset with
    | none => none
    | some none => some (.leave none)
    | some (some stop) =>
      let stop := cut text s.offset stop
      match unclosedFenceStart text s.offset stop with
      | none => some (.again { chunks := s.chunks ++ [slice text s.offset stop], offset := stop })
      | some fenceStart =>
        if fenceStart = s.offset then some (.leave none)
        else some (.again { chunks := s.chunks ++ [slice text s.offset fenceStart], offset := fenceStart })
  else some (.leave (if s.chunks = [] then none else some s.chunks))

/-- Split text at fitting Markdown boundaries while retaining every character. -/
def splitBody (fuel : Nat) (firstBuild continuationBuild : List Char → γ) (firstTarget continuationTarget : Int) :
    Option (Option (List (List Char))) :=
  WhileLoop.run
    (splitRound calculateEventSize text fuel firstBuild continuationBuild firstTarget continuationTarget) fuel {}

end

/-! ## Events -/

/-- The first event payload and the continuation event payloads. -/
structure SegmentedMatrixContent where
  first : Fields
  continuations : List Fields

/-- Why a call returns nothing. -/
inductive Interrupted
  | attributeError
  | outOfFuel
deriving DecidableEq

/-- What is made of a content elsewhere: its size, the HTML of a chunk, and the matches of user IDs in a
chunk (`_user_id_boundary_pattern(user_ids).findall(body)`). -/
structure Rendering where
  calculateEventSize : Fields → Int
  renderSegmentHtml : Fields → String → String
  findUserIds : List String → String → List String

/-- Check if this is an edit message. The relation of a message without new content has to be a mapping. -/
def isEditMessage (content : Fields) : Except Interrupted Bool :=
  match Fields.get? content "m.new_content", Fields.get? content "m.relates_to" with
  | some _, _ => .ok true
  | none, none => .ok false
  | none, some (.dict relation) =>
    match Fields.get? relation "rel_type" with
    | some (.str relType) => .ok (relType = "m.replace")
    | _ => .ok false
  | none, some _ => .error .attributeError

def sourceContent (content : Fields) (isEdit : Bool) : Option Fields :=
  if isEdit then
    match Fields.get? content "m.new_content" with
    | some (.dict replacement) => some replacement
    | _ => none
  else some content

section

variable (rendering : Rendering)

def chunkUserIds (mentions : Fields) (body : String) : Option Value :=
  match Fields.get? mentions "user_ids" with
  | some (.list userIds) =>
    let candidates := userIds.filterMap fun userId => match userId with
      | .str userId => some userId
      | _ => none
    let present := rendering.findUserIds candidates body
    if candidates = [] ∨ present = [] then none
    else some (.list ((candidates.filter (· ∈ present)).map .str))
  | _ => none

/-- `"@room" in body`. -/
def namesRoom (body : String) : Bool := body.toList.tails.any ("@room".toList.isPrefixOf ·)

/-- The mention metadata for just the mentions one chunk carries. -/
def chunkMentions (source : Fields) (body : String) : Option Fields :=
  match Fields.get? source "m.mentions" with
  | some (.dict mentions) =>
    let userIds := ((chunkUserIds rendering mentions body).toList.map fun userIds => ("user_ids", userIds))
    let room := match Fields.get? mentions "room" with
      | some (.bool true) => if namesRoom body then [("room", Value.bool true)] else []
      | _ => []
    if userIds ++ room = [] then none else some (userIds ++ room)
  | _ => none

def richTextContent (source : Fields) (body : String) (relation : Option Fields) : Fields :=
  let content := source.filter (·.1 ∉ segmentDroppedKeys)
  let content := if (Fields.get? content "msgtype").isSome then content
    else Fields.set content "msgtype" (.str "m.text")
  let content := Fields.set content "body" (.str body)
  let content := Fields.set content "format" (.str "org.matrix.custom.html")
  let content := Fields.set content "formatted_body" (.str (rendering.renderSegmentHtml source body))
  let content := match chunkMentions rendering source body with
    | some mentions => Fields.set content "m.mentions" (.dict mentions)
    | none => content
  match relation with
  | some relation => Fields.set content "m.relates_to" (.dict relation)
  | none => content

/-- The first edit event with one complete rich-text chunk. -/
def editContentChunk (content source : Fields) (body : String) : Fields :=
  let replacement := richTextContent rendering source body none
  let edit := content.filter (·.1 ∉ internalStreamKeys)
  let edit := Fields.set edit "body" (.str ("* " ++ body))
  let edit := Fields.set edit "format" (.str "org.matrix.custom.html")
  let edit := Fields.set edit "formatted_body" (.str (rendering.renderSegmentHtml source body))
  Fields.set edit "m.new_content" (.dict replacement)

/-- A continuation that recovery cannot mistake for a fresh answer. -/
def continuationContent (source : Fields) (threadId replyToEventId : Option String) (body : String) : Fields :=
  let relation := match threadId with
    | none | some "" => none
    | some threadId => some [("rel_type", .str "m.thread"), ("event_id", .str threadId),
        ("is_falling_back", .bool true),
        ("m.in_reply_to", .dict [("event_id", .str (match replyToEventId with
          | none | some "" => threadId
          | some replyToEventId => replyToEventId))])]
  richTextContent rendering source body relation

/-- A conservative per-event budget for one response segment. -/
def segmentTargetBytes (roomEncrypted isEdit : Bool) : Int :=
  match roomEncrypted, isEdit with
  | false, false => segmentTargetPlaintextBytes
  | false, true => segmentTargetEditBytes
  | true, false => segmentTargetEncryptedPlaintextBytes
  | true, true => segmentTargetEncryptedEditBytes

def firstBuild (content source : Fields) (isEdit : Bool) (chunk : List Char) : Fields :=
  if isEdit then editContentChunk rendering content source (String.ofList chunk)
  else richTextContent rendering source (String.ofList chunk) (match Fields.get? source "m.relates_to" with
    | some (.dict relation) => some relation
    | _ => none)

def continuationBuild (source : Fields) (threadId replyToEventId : Option String) (chunk : List Char) : Fields :=
  continuationContent rendering source threadId replyToEventId (String.ofList chunk)

def segmentChunks (firstBuild continuationBuild : List Char → Fields) (firstTarget continuationTarget : Int) :
    List (List Char) → Option SegmentedMatrixContent
  | [] => none
  | chunk :: chunks =>
    let first := firstBuild chunk
    let continuations := chunks.map continuationBuild
    if firstTarget < rendering.calculateEventSize first ∨
        ∃ candidate ∈ continuations, continuationTarget < rendering.calculateEventSize candidate then none
    else some { first, continuations }

/-- Lossless rich-text payloads when one event is too large. -/
def segmentMatrixContent (fuel : Nat) (content : Fields) (roomEncrypted : Bool)
    (continuationThreadId continuationReplyToEventId : Option String) :
    Except Interrupted (Option SegmentedMatrixContent) := do
  let isEdit ← isEditMessage content
  match sourceContent content isEdit with
  | none => return none
  | some source =>
    match Fields.get? source "body" with
    | some (.str body) =>
      let firstTarget := segmentTargetBytes roomEncrypted isEdit
      if rendering.calculateEventSize content ≤ firstTarget then return none
      else
        let continuationTarget := segmentTargetBytes roomEncrypted false
        let first := firstBuild rendering content source isEdit
        let continuation := continuationBuild rendering source continuationThreadId continuationReplyToEventId
        match splitBody rendering.calculateEventSize body.toList fuel first continuation firstTarget
            continuationTarget with
        | none => throw .outOfFuel
        | some none => return none
        | some (some chunks) =>
          return segmentChunks rendering first continuation firstTarget continuationTarget chunks
    | _ => return none

end

end MindRoom.SegmentedMessages
