import MindRoom.ToolMarkerLines

/-! # The presentation of a collected stream

`CollectedStreamPresentation` of `tool_system/events.py`: the text of a response under way, with a marker for
each tool call, and the trace of the calls. A call that completes loses the hourglass of its marker. Its marker
is looked up in the whole text, so that what the provider wrote behind it may be changed in its place.
-/

namespace MindRoom

open ToolMarkers

namespace StreamPresentation

/-! ## Calls and their trace -/

inductive ToolEventType where
  | toolCallStarted
  | toolCallCompleted
deriving DecidableEq

/-- Normalized representation of a tool event for message metadata. -/
structure ToolTraceEntry where
  type : ToolEventType
  toolName : String
  argsPreview : Option String
  resultPreview : Option String
  truncated : Bool
  toolCallId : Option String
  scopeKey : Option String
deriving DecidableEq

/-- One call of the provider. -/
structure ToolExecution (α ρ : Type) where
  toolCallId : Option String
  toolName : Option String
  toolArgs : α
  result : ρ

/-- How arguments and results are shown, and whether they are cut: nothing for no arguments and for no result. -/
structure Previews (α ρ : Type) where
  args : α → Option (String × Bool)
  result : ρ → Option (String × Bool)

structure PendingStreamingTool where
  scopeKey : String
  toolName : String
  toolCallId : Option String
  visibleToolIndex : Option Nat
deriving DecidableEq

/-- Track pending and completed tool traces for one streaming response. -/
structure StreamingToolTracker where
  pendingTools : List PendingStreamingTool
  completedTools : List ToolTraceEntry
deriving DecidableEq

section

variable {α ρ : Type} (previews : Previews α ρ)

/-- `tool.tool_name or "tool"`. -/
def ToolExecution.name (tool : ToolExecution α ρ) : String :=
  (tool.toolName.filter (· ≠ "")).getD "tool"

def ToolExecution.callId (tool : ToolExecution α ρ) : Option String :=
  (tool.toolCallId.map fun id => String.ofList (strip id)).filter (· ≠ "")

/-- `format_tool_started_event`, without its marker. -/
def startedTrace (tool : ToolExecution α ρ) : ToolTraceEntry where
  type := .toolCallStarted
  toolName := tool.name
  argsPreview := (previews.args tool.toolArgs).map (·.1)
  resultPreview := none
  truncated := ((previews.args tool.toolArgs).map (·.2)).getD false
  toolCallId := tool.callId
  scopeKey := none

/-- `format_tool_completed_event`, without its marker. -/
def completedTrace (tool : ToolExecution α ρ) : ToolTraceEntry where
  type := .toolCallCompleted
  toolName := tool.name
  argsPreview := ((previews.args tool.toolArgs).map (·.1)).filter (· ≠ "")
  resultPreview := ((previews.result tool.result).map (·.1)).filter (· ≠ "")
  truncated := ((previews.args tool.toolArgs).map (·.2)).getD false || ((previews.result tool.result).map (·.2)).getD false
  toolCallId := tool.callId
  scopeKey := none

/-- The position of the last item that satisfies a predicate. -/
def lastIndex? {β : Type} (p : β → Bool) : List β → Option Nat
  | [] => none
  | item :: items =>
    match lastIndex? p items with
    | some pos => some (pos + 1)
    | none => if p item then some 0 else none

/-- `_find_pending_tool_index`: the last call with this id, or else the last one of this name without an id. -/
def StreamingToolTracker.findPendingToolIndex (tracker : StreamingToolTracker) (scopeKey : String)
    (tool : ToolExecution α ρ) : Option Nat :=
  (tool.callId.bind fun callId => lastIndex?
    (fun pending => pending.scopeKey = scopeKey && pending.toolCallId = some callId) tracker.pendingTools).or
    (lastIndex? (fun pending => pending.scopeKey = scopeKey && pending.toolCallId = none &&
      pending.toolName = tool.name) tracker.pendingTools)

/-- Whether a call with the id of this one is pending. -/
def StreamingToolTracker.repeats (tracker : StreamingToolTracker) (scopeKey : String)
    (tool : ToolExecution α ρ) : Bool :=
  tool.callId.isSome && tracker.pendingTools.any fun pending =>
    pending.scopeKey = scopeKey && pending.toolCallId = tool.callId

/-- `start`: what the trace gets, or nothing for a repeated call. -/
def StreamingToolTracker.start (tracker : StreamingToolTracker) (tool : ToolExecution α ρ) (scopeKey : String)
    (toolIndex : Option Nat) : Option ToolTraceEntry × StreamingToolTracker :=
  if tracker.repeats scopeKey tool then (none, tracker)
  else
    (some (startedTrace previews tool),
      { tracker with
        pendingTools := tracker.pendingTools ++ [⟨scopeKey, tool.name, tool.callId, toolIndex⟩] })

/-- `complete`: the pending call that is matched. -/
def StreamingToolTracker.complete (tracker : StreamingToolTracker) (tool : ToolExecution α ρ) (scopeKey : String) :
    Option PendingStreamingTool × StreamingToolTracker :=
  let pos := tracker.findPendingToolIndex scopeKey tool
  let pending := pos.bind fun pos => tracker.pendingTools[pos]?
  let completed := { completedTrace previews tool with
    scopeKey := pending.bind fun pending => pending.visibleToolIndex.bind fun _ =>
      [scopeKey, pending.scopeKey].find? (· ≠ "") }
  (pending,
    { pendingTools := pos.elim tracker.pendingTools fun pos => tracker.pendingTools.eraseIdx pos
      completedTools := tracker.completedTools ++ [completed] })

/-- `update_visible_trace_entry`, for a matched call. -/
def updateVisibleTraceEntry (toolTrace : List ToolTraceEntry) (toolIndex : Nat) (completed : ToolTraceEntry) :
    List ToolTraceEntry :=
  if 0 < toolIndex then
    toolTrace.modify (toolIndex - 1) fun entry =>
      { entry with
        type := .toolCallCompleted
        resultPreview := completed.resultPreview
        truncated := entry.truncated || completed.truncated }
  else toolTrace

end

/-! ## Text -/

/-- A delta of the provider, by its text and by whether it counts as true. -/
structure Content where
  truthy : Bool
  text : String
deriving DecidableEq

/-- `text.rsplit("\n", maxsplit=1)[-1].rstrip("\r")`. -/
def lastLine (text : List Char) : List Char :=
  ((text.reverse.takeWhile (· ≠ '\n')).dropWhile (· = '\r')).reverse

/-- What separates a delta from the text before it. -/
def separator (existingText delta : List Char) (separate : Bool) : List Char :=
  if existingText ≠ [] ∧ ¬ delta.head?.any isLineEnd ∧ (separate ∨ isVisibleToolMarkerLine (lastLine existingText)) then
    if ['\n', '\n'].isSuffixOf existingText ∨ ['\r', '\n', '\r', '\n'].isSuffixOf existingText then []
    else if existingText.getLast?.any isLineEnd then ['\n']
    else ['\n', '\n']
  else []

def appendStreamText (existingText : String) (content : Content) (separate : Bool) : String :=
  if content.truthy then
    existingText ++ String.ofList (separator existingText.toList content.text.toList separate) ++ content.text
  else existingText

def formatToolMarker (toolName : String) (toolIndex : Nat) (pending : Bool) : String :=
  "\n\n" ++ toolMarkerLine toolName toolIndex pending ++ "\n\n"

def expectedMarkers (toolTrace : List ToolTraceEntry) : List (List Char) :=
  (toolTrace.zipIdx 1).map fun entry =>
    (toolMarkerLine entry.1.toolName entry.2 (entry.1.type = .toolCallStarted)).toList

def toolMarkersMatchTrace (text : String) (toolTrace : List ToolTraceEntry) : Bool :=
  visibleMarkers text.toList = expectedMarkers toolTrace

/-! ## The presentation -/

/-- Ordered stream presentation collected without incremental delivery. -/
structure CollectedStreamPresentation where
  showToolCalls : Bool
  responseText : String
  toolTrace : List ToolTraceEntry
  trackHiddenTools : Bool
  toolTracker : StreamingToolTracker
  separateNextText : Bool
deriving DecidableEq

def CollectedStreamPresentation.empty (showToolCalls trackHiddenTools : Bool) : CollectedStreamPresentation where
  showToolCalls := showToolCalls
  responseText := ""
  toolTrace := []
  trackHiddenTools := trackHiddenTools
  toolTracker := ⟨[], []⟩
  separateNextText := false

section

variable {α ρ : Type} (previews : Previews α ρ)

def CollectedStreamPresentation.appendText (p : CollectedStreamPresentation) (content : Content) :
    CollectedStreamPresentation :=
  { p with
    responseText := appendStreamText p.responseText content p.separateNextText
    separateNextText := !content.truthy && p.separateNextText }

def CollectedStreamPresentation.startTool (p : CollectedStreamPresentation) (tool : Option (ToolExecution α ρ))
    (scopeKey : String) : CollectedStreamPresentation :=
  match tool with
  | none => p
  | some tool =>
    if !p.showToolCalls && !p.trackHiddenTools then p
    else
      let toolIndex := p.toolTrace.length + 1
      let started := p.toolTracker.start previews tool scopeKey (some toolIndex)
      match started.1 with
      | none => p
      | some entry =>
        { p with
          toolTracker := started.2
          toolTrace := p.toolTrace ++ [{ entry with scopeKey := if scopeKey = "" then none else some scopeKey }]
          responseText := if p.showToolCalls then p.responseText ++ formatToolMarker tool.name toolIndex true
            else p.responseText
          separateNextText := p.separateNextText || (!p.showToolCalls && p.responseText ≠ "") }

def CollectedStreamPresentation.completeTool (p : CollectedStreamPresentation) (tool : Option (ToolExecution α ρ))
    (scopeKey : String) : CollectedStreamPresentation :=
  match tool with
  | none => p
  | some tool =>
    if !p.showToolCalls && !p.trackHiddenTools then p
    else
      let completed := p.toolTracker.complete previews tool scopeKey
      match completed.1.bind (·.visibleToolIndex) with
      | none => { p with toolTracker := completed.2 }
      | some toolIndex =>
        { p with
          toolTracker := completed.2
          responseText := if p.showToolCalls then completePendingToolBlock p.responseText tool.name toolIndex
            else p.responseText
          toolTrace := updateVisibleTraceEntry p.toolTrace toolIndex (completedTrace previews tool) }

end

/-! ## Runs

What the provider wrote is kept beside the presentation: its text before each marker, and since the last one.
-/

inductive PresentationEvent (α ρ : Type) where
  | appendText (content : Content)
  | startTool (tool : Option (ToolExecution α ρ)) (scopeKey : String)
  | completeTool (tool : Option (ToolExecution α ρ)) (scopeKey : String)

/-- The presentation, and the text of the provider before each marker and behind the last one. -/
structure Told where
  presentation : CollectedStreamPresentation
  earlier : List (List Char)
  current : List Char
deriving DecidableEq

section

variable {α ρ : Type} (previews : Previews α ρ)

def Content.delta (content : Content) : List Char := if content.truthy then content.text.toList else []

def Told.tell (s : Told) : PresentationEvent α ρ → Told
  | .appendText content =>
    { s with
      presentation := s.presentation.appendText content
      current := s.current ++ content.delta }
  | .startTool tool scopeKey =>
    let presentation := s.presentation.startTool previews tool scopeKey
    if presentation.toolTrace.length = s.presentation.toolTrace.length then { s with presentation }
    else { presentation, earlier := s.earlier ++ [s.current], current := [] }
  | .completeTool tool scopeKey => { s with presentation := s.presentation.completeTool previews tool scopeKey }

/-- The pending call a completion is matched with. -/
def Told.matched (s : Told) (tool : ToolExecution α ρ) (scopeKey : String) : Option PendingStreamingTool :=
  (s.presentation.toolTracker.findPendingToolIndex scopeKey tool).bind fun pos =>
    s.presentation.toolTracker.pendingTools[pos]?

/-- Names are plain, and a completion carries the name of the call it completes. -/
def Allowed (s : Told) : PresentationEvent α ρ → Prop
  | .appendText _ => True
  | .startTool tool _ => ∀ call ∈ tool, PlainName call.name
  | .completeTool tool scopeKey => ∀ call ∈ tool, PlainName call.name ∧
      ∀ pending ∈ s.matched call scopeKey, pending.toolName = call.name

/-- No line of the provider's text is itself a tool-marker line. -/
def Told.Unmarked (s : Told) : Prop := (∀ run ∈ s.earlier, visibleMarkers run = []) ∧ visibleMarkers s.current = []

/-- Any events on an empty presentation with visible tool calls. -/
def presentationSystem : System Told (PresentationEvent α ρ) where
  start s := ∃ trackHiddenTools, s = ⟨.empty true trackHiddenTools, [], []⟩
  step event s s' := Allowed s event ∧ s' = s.tell previews event ∧ s'.Unmarked

/-- No text is put into the provider's text, and the pending marker of a call that completes is nowhere in the
provider's text behind it. -/
def Unambiguous : PresentationEvent α ρ → Told → Prop
  | .appendText content, s => content.truthy = true →
      separator s.presentation.responseText.toList content.text.toList s.presentation.separateNextText = []
  | .startTool _ _, _ => True
  | .completeTool tool scopeKey, s => ∀ call ∈ tool, ∀ pending ∈ s.matched call scopeKey,
      ∀ toolIndex ∈ pending.visibleToolIndex, ∀ run ∈ s.current :: s.earlier.drop toolIndex,
        ¬ (toolMarkerLine pending.toolName toolIndex true).toList <:+: run

end

/-! ## Text and trace -/

/-- The runs of the provider's text, each with the marker behind it. -/
def shown (earlier markers : List (List Char)) : List Char :=
  (earlier.zip markers).flatMap fun entry => entry.1 ++ '\n' :: '\n' :: (entry.2 ++ ['\n', '\n'])

/-- Every pending call has its own slot in the trace, with a pending marker. -/
def Pending (toolTrace : List ToolTraceEntry) (pending : PendingStreamingTool) : Prop :=
  ∃ k entry, pending.visibleToolIndex = some (k + 1) ∧ toolTrace[k]? = some entry ∧ entry.type = .toolCallStarted ∧
    entry.toolName = pending.toolName

/-- The text is the provider's text with the markers of the trace. -/
structure Presents (s : Told) : Prop where
  text : s.presentation.responseText.toList = shown s.earlier (expectedMarkers s.presentation.toolTrace) ++ s.current
  slots : s.earlier.length = s.presentation.toolTrace.length
  names : ∀ entry ∈ s.presentation.toolTrace, PlainName entry.toolName
  pending : ∀ pending ∈ s.presentation.toolTracker.pendingTools, Pending s.presentation.toolTrace pending
  distinct : (s.presentation.toolTracker.pendingTools.map (·.visibleToolIndex)).Nodup
  visible : s.presentation.showToolCalls = true
  together : s.presentation.separateNextText = false
  unmarked : s.Unmarked

section

variable {earlier markers : List (List Char)} {toolTrace : List ToolTraceEntry} {entry : ToolTraceEntry} {k : Nat}

theorem shown_append {earlier' markers' : List (List Char)} (h : earlier.length = markers.length) :
    shown (earlier ++ earlier') (markers ++ markers') = shown earlier markers ++ shown earlier' markers' := by
  rw [shown, List.zip_append h, List.flatMap_append]
  rfl

theorem shown_cons (run marker : List Char) :
    shown (run :: earlier) (marker :: markers) =
      run ++ '\n' :: '\n' :: (marker ++ '\n' :: '\n' :: shown earlier markers) := by
  simp [shown]

theorem visibleMarkers_shown (hlength : earlier.length = markers.length)
    (hruns : ∀ run ∈ earlier, visibleMarkers run = []) (hmarkers : ∀ marker ∈ markers, visibleMarkers marker = [marker])
    (rest : List Char) : visibleMarkers (shown earlier markers ++ rest) = markers ++ visibleMarkers rest := by
  induction earlier generalizing markers with
  | nil =>
    rw [List.eq_nil_of_length_eq_zero hlength.symm]
    rfl
  | cons run earlier ih =>
    cases markers with
    | nil => cases hlength
    | cons marker markers =>
      have htail := ih (Nat.succ.inj hlength) (fun run hrun => hruns run (List.mem_cons_of_mem _ hrun))
        fun marker hmarker => hmarkers marker (List.mem_cons_of_mem _ hmarker)
      have hblank : ∀ text : List Char, visibleMarkers ('\n' :: text) = visibleMarkers text := fun text =>
        visibleMarkers_append [] text
      rw [shown_cons, List.append_assoc, List.cons_append, List.cons_append, List.append_assoc, List.cons_append,
        List.cons_append, visibleMarkers_append, hruns run List.mem_cons_self, List.nil_append, hblank,
        visibleMarkers_append, hmarkers marker List.mem_cons_self, hblank, htail]
      rfl

theorem expectedMarkers_append (toolTrace : List ToolTraceEntry) (entry : ToolTraceEntry) :
    expectedMarkers (toolTrace ++ [entry]) = expectedMarkers toolTrace ++
      [(toolMarkerLine entry.toolName (toolTrace.length + 1) (entry.type = .toolCallStarted)).toList] := by
  rw [expectedMarkers, List.zipIdx_append, List.map_append, Nat.add_comm 1]
  rfl

theorem length_expectedMarkers (toolTrace : List ToolTraceEntry) : (expectedMarkers toolTrace).length = toolTrace.length := by
  rw [expectedMarkers, List.length_map, List.length_zipIdx]

theorem getElem?_expectedMarkers (toolTrace : List ToolTraceEntry) (k : Nat) :
    (expectedMarkers toolTrace)[k]? = toolTrace[k]?.map fun entry =>
      (toolMarkerLine entry.toolName (k + 1) (entry.type = .toolCallStarted)).toList := by
  rw [expectedMarkers, List.getElem?_map, List.getElem?_zipIdx, Option.map_map, Nat.add_comm 1]
  rfl

theorem mem_drop_expectedMarkers {marker : List Char} (h : marker ∈ (expectedMarkers toolTrace).drop k) :
    ∃ j entry, k ≤ j ∧ toolTrace[j]? = some entry ∧
      marker = (toolMarkerLine entry.toolName (j + 1) (entry.type = .toolCallStarted)).toList := by
  obtain ⟨i, hi⟩ := List.mem_iff_getElem?.mp h
  rw [List.getElem?_drop, getElem?_expectedMarkers, Option.map_eq_some_iff] at hi
  obtain ⟨entry, hentry, rfl⟩ := hi
  exact ⟨k + i, entry, Nat.le_add_right k i, hentry, rfl⟩

/-- A call that completes changes its own marker. -/
theorem expectedMarkers_modify {change : ToolTraceEntry → ToolTraceEntry} (hentry : toolTrace[k]? = some entry) :
    expectedMarkers (toolTrace.modify k change) = (expectedMarkers toolTrace).set k
      (toolMarkerLine (change entry).toolName (k + 1) ((change entry).type = .toolCallStarted)).toList := by
  apply List.ext_getElem?
  intro i
  rw [getElem?_expectedMarkers, List.getElem?_modify, List.getElem?_set, getElem?_expectedMarkers,
    length_expectedMarkers]
  by_cases hi : k = i
  · subst hi
    have hlt := (List.getElem?_eq_some_iff.mp hentry).1
    rw [if_pos rfl, if_pos hlt, hentry]
    simp
  · rw [if_neg hi]
    simp [hi]

/-- A word without line ends that is in no run and in no marker is not in the text. -/
theorem not_infix_shown {word : List Char} (hline : '\n' ∉ word) (hne : word ≠ [])
    (hruns : ∀ run ∈ earlier, ¬ word <:+: run) (hmarkers : ∀ marker ∈ markers, ¬ word <:+: marker) {rest : List Char}
    (hrest : ¬ word <:+: rest) : ¬ word <:+: shown earlier markers ++ rest := by
  have hblank : ¬ word <:+: [] := fun hnil => hne (List.infix_nil.mp hnil)
  have hcons : ∀ text : List Char, word <:+: '\n' :: text ↔ word <:+: text := fun text =>
    (infix_append_cons hline [] text).trans (or_iff_right hblank)
  induction earlier generalizing markers with
  | nil => exact hrest
  | cons run earlier ih =>
    cases markers with
    | nil => exact hrest
    | cons marker markers =>
      have htail := ih (fun run hrun => hruns run (List.mem_cons_of_mem _ hrun))
        fun marker hmarker => hmarkers marker (List.mem_cons_of_mem _ hmarker)
      rw [shown_cons, List.append_assoc, List.cons_append, List.cons_append, List.append_assoc, List.cons_append,
        List.cons_append, infix_append_cons hline, hcons, infix_append_cons hline, hcons, not_or, not_or]
      exact ⟨hruns run List.mem_cons_self, hmarkers marker List.mem_cons_self, htail⟩

/-- A presentation shows the markers of its trace. -/
theorem Presents.toolMarkersMatchTrace {s : Told} (h : Presents s) :
    toolMarkersMatchTrace s.presentation.responseText s.presentation.toolTrace = true := by
  have hmarkers : ∀ marker ∈ expectedMarkers s.presentation.toolTrace, visibleMarkers marker = [marker] := by
    intro marker hmarker
    obtain ⟨k, entry, -, hentry, rfl⟩ := mem_drop_expectedMarkers (k := 0) hmarker
    exact visibleMarkers_toolMarkerLine (h.names entry (List.mem_of_getElem? hentry))
  have hlength := h.slots.trans (length_expectedMarkers _).symm
  have hvisible := visibleMarkers_shown hlength h.unmarked.1 hmarkers s.current
  rw [StreamPresentation.toolMarkersMatchTrace, decide_eq_true_eq, h.text, hvisible, h.unmarked.2, List.append_nil]

/-- The text around one marker. -/
theorem shown_set (hlength : earlier.length = markers.length) (hk : k < earlier.length) (marker : List Char) :
    shown earlier (markers.set k marker) = shown (earlier.take k) (markers.take k) ++ (earlier[k] ++ ['\n', '\n']) ++
      (marker ++ '\n' :: '\n' :: shown (earlier.drop (k + 1)) (markers.drop (k + 1))) := by
  have hset : markers.set k marker = markers.take k ++ marker :: markers.drop (k + 1) := by
    rw [List.set_eq_take_append_cons_drop, if_pos (hlength ▸ hk)]
  have hrun : earlier = earlier.take k ++ earlier[k] :: earlier.drop (k + 1) := by
    rw [← List.drop_eq_getElem_cons hk, List.take_append_drop]
  have htake : (earlier.take k).length = (markers.take k).length := by
    rw [List.length_take, List.length_take, hlength]
  rw [hset]
  conv_lhs => rw [hrun]
  rw [shown_append htake, shown_cons]
  simp only [List.append_assoc, List.cons_append, List.nil_append]

/-- The pending marker of a call is completed in its place if it is nowhere behind it. -/
theorem completePendingToolBlock_shown {text : String} {rest : List Char}
    (htext : text.toList = shown earlier (expectedMarkers toolTrace) ++ rest)
    (hlength : earlier.length = toolTrace.length) (hnames : ∀ entry ∈ toolTrace, PlainName entry.toolName)
    (hentry : toolTrace[k]? = some entry) (hstarted : entry.type = .toolCallStarted)
    (hruns : ∀ run ∈ rest :: earlier.drop (k + 1), ¬ (toolMarkerLine entry.toolName (k + 1) true).toList <:+: run) :
    (completePendingToolBlock text entry.toolName (k + 1)).toList =
      shown earlier ((expectedMarkers toolTrace).set k (toolMarkerLine entry.toolName (k + 1) false).toList) ++ rest := by
  have hname := hnames entry (List.mem_of_getElem? hentry)
  have hk : k < earlier.length := hlength ▸ (List.getElem?_eq_some_iff.mp hentry).1
  have hmarkers := hlength.trans (length_expectedMarkers toolTrace).symm
  have hne : (toolMarkerLine entry.toolName (k + 1) true).toList ≠ [] := by
    rw [toList_toolMarkerLine]
    exact List.cons_ne_nil _ _
  have hline : '\n' ∉ (toolMarkerLine entry.toolName (k + 1) true).toList := by
    intro hmem
    have hbreak := toolMarkerLine_oneLine hname _ hmem
    revert hbreak
    decide
  have hself : (expectedMarkers toolTrace).set k (toolMarkerLine entry.toolName (k + 1) true).toList =
      expectedMarkers toolTrace := by
    have hmarker : (expectedMarkers toolTrace)[k]? = some (toolMarkerLine entry.toolName (k + 1) true).toList := by
      rw [getElem?_expectedMarkers, hentry, Option.map_some, hstarted]
      rfl
    obtain ⟨hlt, hget⟩ := List.getElem?_eq_some_iff.mp hmarker
    rw [← hget, List.set_getElem_self]
  have hbehind : ¬ (toolMarkerLine entry.toolName (k + 1) true).toList <:+:
      '\n' :: (shown (earlier.drop (k + 1)) ((expectedMarkers toolTrace).drop (k + 1)) ++ rest) := by
    rw [← List.nil_append ('\n' :: _), infix_append_cons hline, not_or]
    refine ⟨fun hnil => hne (List.infix_nil.mp hnil), not_infix_shown hline hne ?_ ?_ ?_⟩
    · exact fun run hrun => hruns run (List.mem_cons_of_mem _ hrun)
    · intro marker hmarker
      obtain ⟨j, other, hj, hother, rfl⟩ := mem_drop_expectedMarkers hmarker
      exact not_infix_toolMarkerLine hname (hnames other (List.mem_of_getElem? hother)) (by omega)
    · exact hruns rest List.mem_cons_self
  have hcut : text.toList = shown (earlier.take k) ((expectedMarkers toolTrace).take k) ++
      (earlier[k] ++ ['\n', '\n']) ++ ((toolMarkerLine entry.toolName (k + 1) true).toList ++ '\n' ::
        ('\n' :: (shown (earlier.drop (k + 1)) ((expectedMarkers toolTrace).drop (k + 1)) ++ rest))) := by
    rw [htext]
    conv_lhs => rw [← hself]
    rw [shown_set hmarkers hk]
    simp only [List.append_assoc, List.cons_append]
  rw [completePendingToolBlock, hcut, replaceLast_line hne hline hbehind, String.toList_ofList, shown_set hmarkers hk]
  simp only [List.append_assoc, List.cons_append]

end

/-! ## What an event keeps -/

section

variable {α ρ : Type} {previews : Previews α ρ} {s : Told} {scopeKey : String} {tool : ToolExecution α ρ}

theorem Presents.appendText (h : Presents s) {content : Content}
    (hsep : Unambiguous (.appendText content : PresentationEvent α ρ) s)
    (hmarks : (s.tell previews (.appendText content)).Unmarked) :
    Presents (s.tell previews (.appendText content)) := by
  refine ⟨?_, h.slots, h.names, h.pending, h.distinct, h.visible, ?_, hmarks⟩
  · change (appendStreamText s.presentation.responseText content s.presentation.separateNextText).toList =
      shown s.earlier (expectedMarkers s.presentation.toolTrace) ++ (s.current ++ content.delta)
    rw [appendStreamText, Content.delta]
    by_cases htruthy : content.truthy = true
    · rw [if_pos htruthy, if_pos htruthy, hsep htruthy, String.toList_append, String.toList_append, h.text]
      simp
    · rw [if_neg htruthy, if_neg htruthy, h.text, List.append_nil]
  · change (!content.truthy && s.presentation.separateNextText) = false
    rw [h.together, Bool.and_false]

theorem matched_appendText (s : Told) (content : Content) (scopeKey : String) :
    (s.tell previews (.appendText content)).matched tool scopeKey = s.matched tool scopeKey := rfl

theorem unmarked_appendText (s : Told) (content : Content) : (s.tell previews (.appendText content)).Unmarked ↔
    (∀ run ∈ s.earlier, visibleMarkers run = []) ∧ visibleMarkers (s.current ++ content.delta) = [] := Iff.rfl

theorem unmarked_completeTool (s : Told) (call : Option (ToolExecution α ρ)) (scopeKey : String) :
    (s.tell previews (.completeTool call scopeKey)).Unmarked ↔ s.Unmarked := Iff.rfl

/-- A pending call keeps its slot when others are added. -/
theorem Pending.append {toolTrace : List ToolTraceEntry} {pending : PendingStreamingTool} (h : Pending toolTrace pending)
    (entry : ToolTraceEntry) : Pending (toolTrace ++ [entry]) pending := by
  obtain ⟨k, found, hindex, hfound, hrest⟩ := h
  refine ⟨k, found, hindex, ?_, hrest⟩
  rw [List.getElem?_append_left (List.getElem?_eq_some_iff.mp hfound).1, hfound]

theorem tell_startTool_of_repeats (hvisible : s.presentation.showToolCalls = true)
    (hrepeats : s.presentation.toolTracker.repeats scopeKey tool = true) :
    s.tell previews (.startTool (some tool) scopeKey) = s := by
  have hsame : s.presentation.startTool previews (some tool) scopeKey = s.presentation := by
    unfold CollectedStreamPresentation.startTool StreamingToolTracker.start
    simp only [hvisible, hrepeats, Bool.not_true, Bool.false_and, Bool.false_eq_true, if_false, if_true]
  rw [Told.tell, hsame, if_pos rfl]

def newEntry (previews : Previews α ρ) (tool : ToolExecution α ρ) (scopeKey : String) : ToolTraceEntry :=
  { startedTrace previews tool with scopeKey := if scopeKey = "" then none else some scopeKey }

theorem startTool_of_new (previews : Previews α ρ) (hvisible : s.presentation.showToolCalls = true)
    (hnew : s.presentation.toolTracker.repeats scopeKey tool = false) :
    s.presentation.startTool previews (some tool) scopeKey =
      { s.presentation with
        toolTracker := { s.presentation.toolTracker with
          pendingTools := s.presentation.toolTracker.pendingTools ++
            [⟨scopeKey, tool.name, tool.callId, some (s.presentation.toolTrace.length + 1)⟩] }
        toolTrace := s.presentation.toolTrace ++ [newEntry previews tool scopeKey]
        responseText := s.presentation.responseText ++
          formatToolMarker tool.name (s.presentation.toolTrace.length + 1) true } := by
  unfold CollectedStreamPresentation.startTool StreamingToolTracker.start
  simp only [hvisible, hnew, Bool.not_true, Bool.false_and, Bool.false_eq_true, if_false, if_true, Bool.or_false]
  rfl

theorem Presents.startTool (h : Presents s) (hname : PlainName tool.name)
    (hmarks : (s.tell previews (.startTool (some tool) scopeKey)).Unmarked) :
    Presents (s.tell previews (.startTool (some tool) scopeKey)) := by
  cases hnew : s.presentation.toolTracker.repeats scopeKey tool with
  | true => rwa [tell_startTool_of_repeats h.visible hnew]
  | false =>
    have hstart := startTool_of_new previews h.visible hnew
    have htell : s.tell previews (.startTool (some tool) scopeKey) =
        ⟨s.presentation.startTool previews (some tool) scopeKey, s.earlier ++ [s.current], []⟩ := by
      rw [Told.tell, if_neg]
      rw [hstart]
      simp
    rw [htell] at hmarks ⊢
    rw [hstart] at hmarks ⊢
    have hlength := h.slots.trans (length_expectedMarkers _).symm
    refine ⟨?_, ?_, ?_, ?_, ?_, h.visible, h.together, hmarks⟩
    · change (s.presentation.responseText ++ formatToolMarker tool.name (s.presentation.toolTrace.length + 1) true).toList =
        shown (s.earlier ++ [s.current]) (expectedMarkers (s.presentation.toolTrace ++ [newEntry previews tool scopeKey])) ++ []
      rw [expectedMarkers_append, shown_append hlength, shown_cons, String.toList_append, h.text, formatToolMarker]
      simp [newEntry, startedTrace, shown]
    · simp [h.slots]
    · intro entry hentry
      rcases List.mem_append.mp hentry with hentry | hentry
      · exact h.names entry hentry
      · rw [List.mem_singleton.mp hentry]
        exact hname
    · intro pending hpending
      rcases List.mem_append.mp hpending with hpending | hpending
      · exact (h.pending pending hpending).append _
      · rw [List.mem_singleton.mp hpending]
        exact ⟨s.presentation.toolTrace.length, newEntry previews tool scopeKey, rfl, List.getElem?_concat_length, rfl, rfl⟩
    · change ((s.presentation.toolTracker.pendingTools ++ [_]).map PendingStreamingTool.visibleToolIndex).Nodup
      rw [List.map_append, List.nodup_append]
      refine ⟨h.distinct, List.nodup_singleton _, ?_⟩
      intro index hindex index' hindex' heq
      obtain ⟨pending, hpending, rfl⟩ := List.mem_map.mp hindex
      obtain ⟨k, entry, hk, hentry, -⟩ := h.pending pending hpending
      have hlt := (List.getElem?_eq_some_iff.mp hentry).1
      rw [List.map_singleton, List.mem_singleton] at hindex'
      rw [hk, hindex'] at heq
      have hsame := Option.some.inj heq
      omega

theorem pendingTools_complete : (s.presentation.toolTracker.complete previews tool scopeKey).2.pendingTools =
    (s.presentation.toolTracker.findPendingToolIndex scopeKey tool).elim s.presentation.toolTracker.pendingTools
      fun pos => s.presentation.toolTracker.pendingTools.eraseIdx pos := rfl

theorem mem_of_complete {pending : PendingStreamingTool}
    (h : pending ∈ (s.presentation.toolTracker.complete previews tool scopeKey).2.pendingTools) :
    pending ∈ s.presentation.toolTracker.pendingTools := by
  rw [pendingTools_complete] at h
  cases hpos : s.presentation.toolTracker.findPendingToolIndex scopeKey tool with
  | none =>
    rw [hpos] at h
    exact h
  | some pos =>
    rw [hpos] at h
    exact List.mem_of_mem_eraseIdx h

theorem nodup_complete (h : (s.presentation.toolTracker.pendingTools.map (·.visibleToolIndex)).Nodup) :
    ((s.presentation.toolTracker.complete previews tool scopeKey).2.pendingTools.map (·.visibleToolIndex)).Nodup := by
  rw [pendingTools_complete]
  cases hpos : s.presentation.toolTracker.findPendingToolIndex scopeKey tool with
  | none => exact h
  | some pos => exact h.sublist ((List.eraseIdx_sublist _ _).map _)

/-- The matched call is not pending any more, and no other call has its slot. -/
theorem index_ne_of_complete {matched pending : PendingStreamingTool}
    (h : (s.presentation.toolTracker.pendingTools.map (·.visibleToolIndex)).Nodup)
    (hmatched : s.matched tool scopeKey = some matched)
    (hpending : pending ∈ (s.presentation.toolTracker.complete previews tool scopeKey).2.pendingTools) :
    pending.visibleToolIndex ≠ matched.visibleToolIndex := by
  obtain ⟨pos, hpos, hget⟩ := Option.bind_eq_some_iff.mp hmatched
  rw [pendingTools_complete, hpos] at hpending
  change pending ∈ s.presentation.toolTracker.pendingTools.eraseIdx pos at hpending
  obtain ⟨hlt, rfl⟩ := List.getElem?_eq_some_iff.mp hget
  rw [← List.take_append_drop pos s.presentation.toolTracker.pendingTools, List.drop_eq_getElem_cons hlt,
    List.map_append, List.map_cons, List.nodup_middle, List.nodup_cons, ← List.map_append] at h
  rw [List.eraseIdx_eq_take_drop_succ] at hpending
  exact fun heq => h.1 (List.mem_map.mpr ⟨pending, hpending, heq⟩)

theorem Presents.completeTool (h : Presents s) (hname : ∀ pending ∈ s.matched tool scopeKey, pending.toolName = tool.name)
    (hclear : Unambiguous (.completeTool (some tool) scopeKey) s)
    (hmarks : (s.tell previews (.completeTool (some tool) scopeKey)).Unmarked) :
    Presents (s.tell previews (.completeTool (some tool) scopeKey)) := by
  cases hmatched : s.matched tool scopeKey with
  | none =>
    have hcomplete : s.presentation.completeTool previews (some tool) scopeKey =
        { s.presentation with
          toolTracker := (s.presentation.toolTracker.complete previews tool scopeKey).2 } := by
      have hnone : (s.presentation.toolTracker.complete previews tool scopeKey).1 = none := hmatched
      unfold CollectedStreamPresentation.completeTool
      simp only [h.visible, hnone, Option.bind_none, Bool.not_true, Bool.false_and, Bool.false_eq_true, if_false]
    rw [Told.tell, hcomplete] at hmarks ⊢
    exact ⟨h.text, h.slots, h.names, fun pending hpending => h.pending pending (mem_of_complete hpending),
      nodup_complete h.distinct, h.visible, h.together, hmarks⟩
  | some matched =>
    obtain ⟨pos, hpos, hget⟩ := Option.bind_eq_some_iff.mp hmatched
    obtain ⟨k, entry, hindex, hentry, hstarted, hentryName⟩ := h.pending matched (List.mem_of_getElem? hget)
    have htool : entry.toolName = tool.name := hentryName.trans (hname matched hmatched)
    have hcomplete : s.presentation.completeTool previews (some tool) scopeKey =
        { s.presentation with
          toolTracker := (s.presentation.toolTracker.complete previews tool scopeKey).2
          responseText := completePendingToolBlock s.presentation.responseText tool.name (k + 1)
          toolTrace := updateVisibleTraceEntry s.presentation.toolTrace (k + 1) (completedTrace previews tool) } := by
      have hsome : (s.presentation.toolTracker.complete previews tool scopeKey).1 = some matched := hmatched
      unfold CollectedStreamPresentation.completeTool
      simp only [h.visible, hsome, Option.bind_some, hindex, Bool.not_true, Bool.false_and, Bool.false_eq_true, if_false,
        if_true]
    have hruns : ∀ run ∈ s.current :: s.earlier.drop (k + 1),
        ¬ (toolMarkerLine entry.toolName (k + 1) true).toList <:+: run := by
      have hrun := hclear tool rfl matched hmatched (k + 1) hindex
      rwa [← hentryName] at hrun
    have htext := completePendingToolBlock_shown h.text h.slots h.names hentry hstarted hruns
    rw [Told.tell, hcomplete] at hmarks ⊢
    rw [updateVisibleTraceEntry, if_pos (Nat.succ_pos k), Nat.add_sub_cancel] at hmarks ⊢
    refine ⟨?_, ?_, ?_, ?_, nodup_complete h.distinct, h.visible, h.together, hmarks⟩
    · rw [expectedMarkers_modify hentry, ← htool]
      exact htext
    · rw [List.length_modify]
      exact h.slots
    · intro changed hchanged
      obtain ⟨i, hi⟩ := List.mem_iff_getElem?.mp hchanged
      rw [List.getElem?_modify, Option.map_eq_map, Option.map_eq_some_iff] at hi
      obtain ⟨old, hold, rfl⟩ := hi
      have hold := h.names old (List.mem_of_getElem? hold)
      split <;> exact hold
    · intro pending hpending
      have hne := index_ne_of_complete h.distinct hmatched hpending
      obtain ⟨i, found, hi, hfound, hrest⟩ := h.pending pending (mem_of_complete hpending)
      have hki : k ≠ i := by
        rintro rfl
        exact hne (hi.trans hindex.symm)
      refine ⟨i, found, hi, ?_, hrest⟩
      rw [List.getElem?_modify, hfound]
      simp [hki]

/-- One event after which the text still is the provider's text with the markers of the trace. -/
theorem Presents.step {s' : Told} (h : Presents s) {event : PresentationEvent α ρ}
    (hstep : ((presentationSystem previews).given Unambiguous).step event s s') : Presents s' := by
  obtain ⟨hclear, hallowed, rfl, hmarks⟩ := hstep
  cases event with
  | appendText content => exact h.appendText hclear hmarks
  | startTool call scopeKey =>
    cases call with
    | none =>
      have hsame : s.tell previews (.startTool none scopeKey) = s := if_pos rfl
      rwa [hsame]
    | some tool => exact h.startTool (hallowed tool rfl) hmarks
  | completeTool call scopeKey =>
    cases call with
    | none => exact h
    | some tool => exact h.completeTool (hallowed tool rfl).2 hclear hmarks

theorem presents_start (trackHiddenTools : Bool) : Presents ⟨.empty true trackHiddenTools, [], []⟩ where
  text := rfl
  slots := rfl
  names := List.forall_mem_nil _
  pending := List.forall_mem_nil _
  distinct := List.nodup_nil
  visible := rfl
  together := rfl
  unmarked := ⟨List.forall_mem_nil _, rfl⟩

/-- In every run without text put between the provider's text and without a pending marker in the provider's text
behind the call that completes, the markers match the trace after every event. -/
theorem toolMarkersMatchTrace_of_reachable
    (h : ((presentationSystem previews).given Unambiguous).Reachable s) :
    toolMarkersMatchTrace s.presentation.responseText s.presentation.toolTrace = true := by
  have hinvariant : ((presentationSystem previews).given Unambiguous).Invariant Presents :=
    { start := by
        rintro s ⟨trackHiddenTools, rfl⟩
        exact presents_start trackHiddenTools
      step := fun _ _ _ hs hstep => hs.step hstep }
  exact (hinvariant.reachable h).toolMarkersMatchTrace

end

/-! ## A quoted marker

The provider mentions the marker of its call in a longer line. When the call completes, the hourglass goes from
there and stays with the marker.
-/

namespace QuotedMarker

def plain : Previews Unit Unit := ⟨fun _ => none, fun _ => none⟩

def call : ToolExecution Unit Unit := ⟨some "c", some "t", (), ()⟩

def nothing : Told := ⟨.empty true false, [], []⟩

def started : Told := nothing.tell plain (.startTool (some call) "")

/-- The call is under way, and the provider goes on. -/
def told (text : String) : Told := started.tell plain (.appendText ⟨true, text⟩)

def completed (text : String) : Told := (told text).tell plain (.completeTool (some call) "")

def quoting : String := "see 🔧 `t` [1] ⏳ above"

theorem plainName : PlainName call.name where
  nonempty := by decide
  unquoted := by decide
  oneLine := by
    intro c hc
    have hname : call.name.toList = ['t'] := by decide +kernel
    rw [hname, List.mem_singleton] at hc
    rw [hc]
    decide

theorem matched_told (text : String) : (told text).matched call "" = some ⟨"", "t", some "c", some 1⟩ := by
  have hmatched : started.matched call "" = some ⟨"", "t", some "c", some 1⟩ := by decide +kernel
  rw [told, matched_appendText, hmatched]

theorem told_unmarked {text : String} (hplain : visibleMarkers text.toList = []) : (told text).Unmarked := by
  have hearlier : started.earlier = [[]] := by decide +kernel
  have hcurrent : started.current = [] := by decide +kernel
  rw [told, unmarked_appendText, hearlier, hcurrent]
  exact ⟨List.forall_mem_singleton.mpr rfl, hplain⟩

/-- The three events are a run wherever they meet a condition. -/
theorem completed_reachable {C : PresentationEvent Unit Unit → Told → Prop} {text : String}
    (hplain : visibleMarkers text.toList = []) (hstart : C (.startTool (some call) "") nothing)
    (happend : C (.appendText ⟨true, text⟩) started) (hcomplete : C (.completeTool (some call) "") (told text)) :
    ((presentationSystem plain).given C).Reachable (completed text) := by
  have hnothing : ((presentationSystem plain).given C).Reachable nothing := System.Reachable.start ⟨false, rfl⟩
  have hstarted : ((presentationSystem plain).given C).Reachable started := by
    refine hnothing.next (.startTool (some call) "") ⟨hstart, ?_, rfl, ?_⟩
    · rintro call ⟨rfl⟩
      exact plainName
    · exact ⟨by decide +kernel, by decide +kernel⟩
  have htold : ((presentationSystem plain).given C).Reachable (told text) :=
    hstarted.next (.appendText ⟨true, text⟩) ⟨happend, trivial, rfl, told_unmarked hplain⟩
  refine htold.next (.completeTool (some call) "")
    ⟨hcomplete, ?_, rfl, (unmarked_completeTool _ _ _).mpr (told_unmarked hplain)⟩
  rintro call ⟨rfl⟩
  refine ⟨plainName, fun pending hpending => ?_⟩
  rw [matched_told, Option.mem_some_iff] at hpending
  rw [← hpending]
  rfl

/-- The marker is in no text behind it. -/
theorem unambiguous_told : Unambiguous (.completeTool (some call) "") (told "done") := by
  rintro call ⟨rfl⟩ pending hpending toolIndex hindex
  rw [matched_told, Option.mem_some_iff] at hpending
  rw [← hpending, Option.mem_some_iff] at hindex
  rw [← hpending, ← hindex]
  decide +kernel

/-- A run in which the provider writes something else behind the marker. -/
theorem completed_matches :
    toolMarkersMatchTrace (completed "done").presentation.responseText (completed "done").presentation.toolTrace = true := by
  have hnothing : visibleMarkers "done".toList = [] := by decide +kernel
  exact toolMarkersMatchTrace_of_reachable
    (completed_reachable hnothing trivial (fun _ => by decide +kernel) unambiguous_told)

/-- The trace has the call completed, and the marker is pending still. -/
theorem completed_mismatches : ∃ s, (presentationSystem plain).Reachable s ∧
    toolMarkersMatchTrace s.presentation.responseText s.presentation.toolTrace = false := by
  have hplain : visibleMarkers quoting.toList = [] := by decide +kernel
  refine ⟨completed quoting, ?_, by decide +kernel⟩
  exact (completed_reachable (C := fun _ _ => True) hplain trivial trivial trivial).of_given

end QuotedMarker

end StreamPresentation

end MindRoom
