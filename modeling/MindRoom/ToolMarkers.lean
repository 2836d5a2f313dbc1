import MindRoom.CandidateCheckpoint
import MindRoom.WorkflowStore

/-! # Visible tool markers

A tool call shows in a message as a line of its own, and a message that is sent gets a blank line under
each such line.
-/

namespace MindRoom.ToolMarkers

def toolPendingMarker : String := " ⏳"

def isSpace : Char → Bool := inRanges spaceRanges

def isDecimal : Char → Bool := inRanges DynamicWorkflow.decimalRanges

/-- What follows the longest run of these characters, if there is one. -/
def afterRun (p : Char → Bool) (text : List Char) : Option (List Char) :=
  if text.takeWhile p = [] then none else some (text.dropWhile p)

/-- Whether one plain-text line is a Matrix-visible tool marker: the icon, a quoted name and an index. -/
def isVisibleToolMarkerLine (line : List Char) : Bool :=
  let suffix := do
    let name ← (line.dropWhile isSpace).dropPrefix? "🔧 `".toList
    let index ← (← afterRun (· ≠ '\x60') name).dropPrefix? "` [".toList
    (← afterRun isDecimal index).dropPrefix? [']']
  match suffix with
  | none => false
  | some suffix => ((suffix.dropPrefix? toolPendingMarker.toList).getD suffix).all isSpace

/-- `text.splitlines(keepends=True)`, with the line under way. -/
def linesKeepingEndsFrom (line : List Char) : List Char → List (List Char)
  | [] => if line = [] then [] else [line]
  | '\r' :: '\n' :: rest => (line ++ ['\r', '\n']) :: linesKeepingEndsFrom [] rest
  | c :: rest =>
    if isLineBreak c then (line ++ [c]) :: linesKeepingEndsFrom [] rest
    else linesKeepingEndsFrom (line ++ [c]) rest

def isLineEnd (c : Char) : Bool := c = '\n' || c = '\r'

/-- `line.rstrip("\r\n")`. -/
def withoutLineEnd (line : List Char) : List Char := (line.reverse.dropWhile isLineEnd).reverse

def lineEnding (line : List Char) : List Char := if ['\r', '\n'].isSuffixOf line then ['\r', '\n'] else ['\n']

/-- What is put under a line: a marker is kept apart from a next line that is not blank. -/
def spacingAfter (line : List Char) (next : Option (List Char)) : List Char :=
  if !isVisibleToolMarkerLine (withoutLineEnd line) then []
  else
    match next with
    | none => []
    | some next =>
      if next.all isSpace then []
      else if line.getLast?.any isLineEnd then lineEnding line
      else ['\n', '\n']

def spacedLines : List (List Char) → List Char
  | [] => []
  | line :: rest => line ++ spacingAfter line rest.head? ++ spacedLines rest

def ensureVisibleToolMarkerSpacing (text : String) : String :=
  String.ofList (spacedLines (linesKeepingEndsFrom [] text.toList))

/-! ## Writing markers -/

/-- `tool_name.replace("@", ...)` and the quoting of its quotes. -/
def safeToolName (toolName : String) : String :=
  String.ofList (toolName.toList.flatMap fun c =>
    if c = '@' then ['@', '\u200b'] else if c = '\x60' then ['\x5c', '\x60'] else [c])

def toolMarkerLine (toolName : String) (toolIndex : Nat) (pending : Bool) : String :=
  "🔧 `" ++ safeToolName toolName ++ "` [" ++ toString toolIndex ++ "]" ++ if pending then toolPendingMarker else ""

def replaceLast (old new : List Char) : List Char → Option (List Char)
  | [] => if old = [] then some new else none
  | c :: text =>
    match replaceLast old new text with
    | some text => some (c :: text)
    | none => if old.isPrefixOf (c :: text) then some (new ++ (c :: text).drop old.length) else none

/-- The text after a tool call completed: its pending marker loses the hourglass. -/
def completePendingToolBlock (text toolName : String) (toolIndex : Nat) : String :=
  match replaceLast (toolMarkerLine toolName toolIndex true).toList (toolMarkerLine toolName toolIndex false).toList
      text.toList with
  | none => text
  | some updated => String.ofList updated

end MindRoom.ToolMarkers
