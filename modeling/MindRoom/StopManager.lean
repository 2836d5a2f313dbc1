import Mathlib.Data.List.Nodup
import Mathlib.Logic.Function.Basic
import Mathlib.Order.Nat
import MindRoom.Systems

/-! # The stop manager

`StopManager` of `stop.py`. A message that is being answered is registered with the task that answers it, and a stop
request cancels the task registered last. Clearing a message starts a clean-up that removes the stop button at once and
the registration after a delay. The clean-up finds the registration by the message id, whichever it is by then.

A registration is known by its number: `entries` holds all that were made. What the manager did is recorded beside its
state: the tasks it cancelled, the reactions it redacted, and for each message how many registrations there were when it
was cleared or discarded last.
-/

namespace MindRoom

structure TrackedMessage where
  messageId : String
  roomId : String
  task : Nat
  reactionEventId : Option String
  runId : Option String
  cancelRequested : Bool

/-- Where a delayed clean-up is: before it runs, at one of its two suspension points, or at its end. -/
inductive CleanupPhase
  | scheduled
  | redacting (entry : Nat)
  | sleeping
  | finished
deriving DecidableEq

/-- A delayed clean-up, with the number of registrations there were when it was started. -/
structure Cleanup where
  messageId : String
  removeButton : Bool
  began : Nat
  phase : CleanupPhase

/-- A reaction that a clean-up redacted, the registration it belongs to, and when the clean-up was started. -/
structure Redaction where
  roomId : String
  eventId : String
  entry : Nat
  began : Nat

structure StopManager where
  entries : List TrackedMessage
  trackedMessages : String → Option Nat
  cleanups : List Cleanup
  done : List Nat
  gracefulCancels : List (String × String)
  cancels : List Nat
  redactions : List Redaction
  released : String → Nat

namespace StopManager

def given? (text : Option String) : Option String := text.filter (· ≠ "")

def initial : StopManager where
  entries := []
  trackedMessages _ := none
  cleanups := []
  done := []
  gracefulCancels := []
  cancels := []
  redactions := []
  released _ := 0

section

variable (s : StopManager)

def tracked? (messageId : String) : Option (Nat × TrackedMessage) := do
  let i ← s.trackedMessages messageId
  let tracked ← s.entries[i]?
  return (i, tracked)

def setCurrent (messageId roomId : String) (task : Nat) (reactionEventId runId : Option String) : StopManager :=
  let entry : TrackedMessage :=
    { messageId := messageId, roomId := roomId, task := task, reactionEventId := reactionEventId, runId := runId,
      cancelRequested := false }
  { s with
    entries := s.entries ++ [entry]
    trackedMessages := Function.update s.trackedMessages messageId (some s.entries.length) }

def getActiveTrackedMessage (messageId : String) : Option (Nat × TrackedMessage) :=
  (s.tracked? messageId).filter fun tracked => tracked.2.task ∉ s.done

/-- Return whether a stop reaction currently has a live semantic consumer. -/
def canHandleStopReaction (messageId : String) : Bool := (s.getActiveTrackedMessage messageId).isSome

/-- Queue best-effort run cleanup after the response task is cancelled. -/
def scheduleGracefulRunCancel (messageId runId : String) : StopManager :=
  { s with gracefulCancels := (messageId, runId) :: s.gracefulCancels }

/-- Change one registration. -/
def modifyEntry (i : Nat) (f : TrackedMessage → TrackedMessage) : StopManager :=
  { s with entries := s.entries.modify i f }

/-- Update the tracked run id for a message before a new attempt starts. -/
def updateRunId (messageId runId : Option String) : StopManager :=
  match messageId with
  | none => s
  | some messageId =>
    match s.getActiveTrackedMessage messageId with
    | none => s
    | some (i, tracked) =>
      if tracked.runId = runId then s
      else
        let s := s.modifyEntry i fun tracked => { tracked with runId := runId }
        match given? runId with
        | none => s
        | some run => if tracked.cancelRequested then s.scheduleGracefulRunCancel messageId run else s

/-- Whatever was registered for the message so far is cleared or discarded. -/
def release (messageId : String) : StopManager :=
  { s with released := Function.update s.released messageId s.entries.length }

def clearMessage (messageId : String) (removeButton : Bool) : StopManager :=
  let s := s.release messageId
  match s.tracked? messageId with
  | none => s
  | some _ =>
    let cleanup : Cleanup :=
      { messageId := messageId, removeButton := removeButton, began := s.entries.length, phase := .scheduled }
    { s with cleanups := s.cleanups ++ [cleanup] }

/-- Drop process-local tracking without scheduling Matrix cleanup. -/
def discardMessage (messageId : String) : StopManager :=
  let s := s.release messageId
  { s with trackedMessages := Function.update s.trackedMessages messageId none }

def setPhase (k : Nat) (phase : CleanupPhase) : StopManager :=
  { s with cleanups := s.cleanups.modify k fun cleanup => { cleanup with phase := phase } }

/-- The registration whose reaction a clean-up redacts, if it finds one. -/
def buttonOf (cleanup : Cleanup) : Option (Nat × TrackedMessage × String) :=
  if cleanup.removeButton then do
    let (i, tracked) ← s.tracked? cleanup.messageId
    let eventId ← given? tracked.reactionEventId
    return (i, tracked, eventId)
  else none

/-- A clean-up up to its first suspension: it redacts the reaction it finds, or sleeps. -/
def startCleanup (k : Nat) (cleanup : Cleanup) : StopManager :=
  match s.buttonOf cleanup with
  | none => s.setPhase k .sleeping
  | some (i, tracked, eventId) =>
    let redaction : Redaction :=
      { roomId := tracked.roomId, eventId := eventId, entry := i, began := cleanup.began }
    let s := { s with redactions := redaction :: s.redactions }
    s.setPhase k (.redacting i)

/-- The redaction returns: the reaction is forgotten if it is gone. -/
def endRedaction (k i : Nat) (redacted : Bool) : StopManager :=
  let s := if redacted then s.modifyEntry i fun tracked => { tracked with reactionEventId := none } else s
  s.setPhase k .sleeping

/-- The delay is over: the message is not tracked any longer. -/
def endCleanup (k : Nat) (cleanup : Cleanup) : StopManager :=
  let s := { s with trackedMessages := Function.update s.trackedMessages cleanup.messageId none }
  s.setPhase k .finished

/-- Request cancellation for the response currently tracked by this message. -/
def requestStop (messageId : String) : Bool × StopManager :=
  match s.tracked? messageId with
  | none => (false, s)
  | some (i, tracked) =>
    if tracked.task ∈ s.done then (false, s)
    else if tracked.cancelRequested then (true, s)
    else
      let s := s.modifyEntry i fun tracked => { tracked with cancelRequested := true }
      let s := { s with cancels := tracked.task :: s.cancels }
      match given? tracked.runId with
      | none => (true, s)
      | some run => (true, s.scheduleGracefulRunCancel messageId run)

/-- Atomically validate current intent and request cancellation without yielding. -/
def requestStopIf (messageId : String) (shouldStop : Bool) : Bool × StopManager :=
  if shouldStop then s.requestStop messageId else (false, s)

@[simp] theorem setCurrent_trackedMessages (messageId roomId : String) (task : Nat) (reactionEventId runId : Option String) :
    (s.setCurrent messageId roomId task reactionEventId runId).trackedMessages =
      Function.update s.trackedMessages messageId (some s.entries.length) := rfl

@[simp] theorem setCurrent_entries (messageId roomId : String) (task : Nat) (reactionEventId runId : Option String) :
    (s.setCurrent messageId roomId task reactionEventId runId).entries = s.entries ++
      [{ messageId := messageId, roomId := roomId, task := task, reactionEventId := reactionEventId, runId := runId,
         cancelRequested := false }] := rfl

@[simp] theorem release_released (messageId : String) :
    (s.release messageId).released = Function.update s.released messageId s.entries.length := rfl

@[simp] theorem release_entries (messageId : String) : (s.release messageId).entries = s.entries := rfl

end

/-! ## Runs -/

/-- What happens: a call, a clean-up going on, a stop button added to a registration or removed from it, or a task that
ends. -/
inductive Event
  | setCurrent (messageId roomId : String) (task : Nat) (reactionEventId runId : Option String)
  | updateRunId (messageId runId : Option String)
  | clearMessage (messageId : String) (removeButton : Bool)
  | discardMessage (messageId : String)
  | requestStopIf (messageId : String) (shouldStop : Bool)
  | startCleanup (k : Nat)
  | endRedaction (k : Nat) (redacted : Bool)
  | endCleanup (k : Nat)
  | changeButton (i : Nat) (reactionEventId : Option String)
  | finish (task : Nat)

/-- A registration is for a new task, and a clean-up goes on from where it is. -/
def step (s : StopManager) : Event → Option StopManager
  | .setCurrent messageId roomId task reactionEventId runId =>
    if task ∈ s.entries.map (·.task) then none
    else some (s.setCurrent messageId roomId task reactionEventId runId)
  | .updateRunId messageId runId => some (s.updateRunId messageId runId)
  | .clearMessage messageId removeButton => some (s.clearMessage messageId removeButton)
  | .discardMessage messageId => some (s.discardMessage messageId)
  | .requestStopIf messageId shouldStop => some (s.requestStopIf messageId shouldStop).2
  | .startCleanup k => do
      let cleanup ← s.cleanups[k]?
      if cleanup.phase = .scheduled then some (s.startCleanup k cleanup) else none
  | .endRedaction k redacted => do
      let cleanup ← s.cleanups[k]?
      match cleanup.phase with
      | .redacting i => some (s.endRedaction k i redacted)
      | _ => none
  | .endCleanup k => do
      let cleanup ← s.cleanups[k]?
      if cleanup.phase = .sleeping then some (s.endCleanup k cleanup) else none
  | .changeButton i reactionEventId =>
    some (s.modifyEntry i fun tracked => { tracked with reactionEventId := reactionEventId })
  | .finish task => some { s with done := task :: s.done }

def system : System StopManager Event where
  start s := s = initial
  step event s s' := s.step event = some s'

/-! ## What is to hold -/

/-- The time from a registration until its task is done or its message is cleared or discarded. -/
structure Open (s : StopManager) (i : Nat) (tracked : TrackedMessage) : Prop where
  entry : s.entries[i]? = some tracked
  running : tracked.task ∉ s.done
  kept : s.released tracked.messageId ≤ i

/-- Every open registration can be stopped, no task is cancelled twice, and no clean-up redacted the reaction of a
registration made after it was started. -/
structure Stoppable (s : StopManager) : Prop where
  handled : ∀ i tracked, s.Open i tracked → s.canHandleStopReaction tracked.messageId = true
  stops : ∀ i tracked, s.Open i tracked → (s.requestStopIf tracked.messageId true).1 = true ∧
    tracked.task ∈ (s.requestStopIf tracked.messageId true).2.cancels
  once : s.cancels.Nodup
  own : ∀ redaction ∈ s.redactions, redaction.entry < redaction.began

/-- No registration takes the place of one that is still open, and a clean-up neither redacts the reaction nor ends the
tracking of a registration made after it was started. -/
def Sparing : Event → StopManager → Prop
  | .setCurrent messageId _ _ _ _, s => ∀ i tracked, s.tracked? messageId = some (i, tracked) →
      tracked.task ∈ s.done ∨ i < s.released messageId
  | .startCleanup k, s => ∀ cleanup ∈ s.cleanups[k]?, ∀ i tracked eventId,
      s.buttonOf cleanup = some (i, tracked, eventId) → i < cleanup.began
  | .endCleanup k, s => ∀ cleanup ∈ s.cleanups[k]?, ∀ i tracked,
      s.tracked? cleanup.messageId = some (i, tracked) → i < cleanup.began
  | _, _ => True

/-! ## The invariant -/

/-- The tracked registrations are those of their messages, a task is cancelled once and its registration says so, and
what is open is tracked. -/
structure Consistent (s : StopManager) : Prop where
  named : ∀ messageId i, s.trackedMessages messageId = some i →
    ∃ tracked, s.entries[i]? = some tracked ∧ tracked.messageId = messageId
  tasks : (s.entries.map (·.task)).Nodup
  requested : ∀ tracked ∈ s.entries, tracked.cancelRequested = true ↔ tracked.task ∈ s.cancels
  cancelled : ∀ task ∈ s.cancels, task ∈ s.entries.map (·.task)
  once : s.cancels.Nodup
  released : ∀ messageId, s.released messageId ≤ s.entries.length
  began : ∀ cleanup ∈ s.cleanups, cleanup.began ≤ s.released cleanup.messageId
  own : ∀ redaction ∈ s.redactions, redaction.entry < redaction.began
  tracked : ∀ i tracked, s.Open i tracked → s.trackedMessages tracked.messageId = some i

section

variable {s : StopManager} {i k : Nat} {tracked : TrackedMessage} {messageId : String}

theorem mem_modify {α : Type} {l : List α} {f : α → α} {x : α} (h : x ∈ l.modify k f) : ∃ y ∈ l, x = y ∨ x = f y := by
  obtain ⟨j, hj⟩ := List.mem_iff_getElem?.mp h
  rw [List.getElem?_modify] at hj
  grind

/-- The registration of a tracked message. -/
theorem tracked?_eq_some : s.tracked? messageId = some (i, tracked) ↔
    s.trackedMessages messageId = some i ∧ s.entries[i]? = some tracked := by
  rw [tracked?]
  constructor
  · intro h
    obtain ⟨j, hj, h⟩ := Option.bind_eq_some_iff.mp h
    obtain ⟨entry, hentry, h⟩ := Option.bind_eq_some_iff.mp h
    cases h
    exact ⟨hj, hentry⟩
  · rintro ⟨hi, hentry⟩
    rw [hi]
    dsimp only [Option.bind_eq_bind, Option.bind_some]
    rw [hentry]
    rfl

/-- What is open is what its message is tracked with. -/
theorem Consistent.tracked?_open (h : s.Consistent) (hopen : s.Open i tracked) :
    s.tracked? tracked.messageId = some (i, tracked) :=
  tracked?_eq_some.mpr ⟨h.tracked i tracked hopen, hopen.entry⟩

theorem Consistent.stoppable (h : s.Consistent) : s.Stoppable where
  handled i tracked hopen := by
    rw [canHandleStopReaction, getActiveTrackedMessage, h.tracked?_open hopen, Option.filter_some, if_pos]
    · rfl
    · simpa using hopen.running
  stops i tracked hopen := by
    rw [requestStopIf, if_pos rfl, requestStop, h.tracked?_open hopen]
    dsimp only
    rw [if_neg hopen.running]
    by_cases hrequested : tracked.cancelRequested = true
    · rw [if_pos hrequested]
      exact ⟨rfl, (h.requested tracked (List.mem_of_getElem? hopen.entry)).mp hrequested⟩
    · rw [if_neg hrequested]
      cases given? tracked.runId with
      | none => exact ⟨rfl, List.mem_cons_self⟩
      | some run => exact ⟨rfl, List.mem_cons_self⟩
  once := h.once
  own := h.own

/-! ### Changing a registration -/

/-- A change that keeps what a registration is. -/
structure Keeps (f : TrackedMessage → TrackedMessage) : Prop where
  messageId : ∀ tracked, (f tracked).messageId = tracked.messageId
  task : ∀ tracked, (f tracked).task = tracked.task

variable {f : TrackedMessage → TrackedMessage}

theorem getElem?_modifyEntry (s : StopManager) (i : Nat) (f : TrackedMessage → TrackedMessage) (j : Nat) :
    (s.modifyEntry i f).entries[j]? = if i = j then s.entries[j]?.map f else s.entries[j]? := by
  rw [modifyEntry]
  dsimp only
  rw [List.getElem?_modify]
  split <;> simp

theorem Keeps.entry (hf : Keeps f) {j : Nat} (hget : (s.modifyEntry i f).entries[j]? = some tracked) :
    ∃ old, s.entries[j]? = some old ∧ tracked.messageId = old.messageId ∧ tracked.task = old.task := by
  rw [getElem?_modifyEntry] at hget
  split at hget
  · obtain ⟨old, hold, rfl⟩ := Option.map_eq_some_iff.mp hget
    exact ⟨old, hold, hf.messageId old, hf.task old⟩
  · exact ⟨tracked, hget, rfl, rfl⟩

theorem Keeps.map_task (hf : Keeps f) (s : StopManager) (i : Nat) :
    (s.modifyEntry i f).entries.map (·.task) = s.entries.map (·.task) := by
  apply List.ext_getElem?
  intro j
  rw [List.getElem?_map, List.getElem?_map, getElem?_modifyEntry]
  split
  · cases s.entries[j]? with
    | none => rfl
    | some tracked => exact congrArg some (hf.task tracked)
  · rfl

theorem Keeps.open_of (hf : Keeps f) {j : Nat} (hopen : (s.modifyEntry i f).Open j tracked) :
    ∃ old, s.Open j old ∧ tracked.messageId = old.messageId := by
  obtain ⟨old, hold, hname, htask⟩ := hf.entry hopen.entry
  refine ⟨old, ⟨hold, ?_, ?_⟩, hname⟩
  · rw [← htask]
    exact hopen.running
  · rw [← hname]
    exact hopen.kept

/-- A change that keeps what a registration is and whether it was cancelled. -/
theorem Consistent.modifyEntry (h : s.Consistent) (hf : Keeps f)
    (hrequested : ∀ tracked, (f tracked).cancelRequested = tracked.cancelRequested) (i : Nat) :
    (s.modifyEntry i f).Consistent where
  named messageId j hj := by
    obtain ⟨tracked, htracked, hname⟩ := h.named messageId j hj
    rw [getElem?_modifyEntry, htracked]
    split
    · exact ⟨f tracked, rfl, (hf.messageId tracked).trans hname⟩
    · exact ⟨tracked, rfl, hname⟩
  tasks := by
    rw [hf.map_task]
    exact h.tasks
  requested tracked hmem := by
    obtain ⟨old, hold, rfl | rfl⟩ := mem_modify hmem
    · exact h.requested tracked hold
    · rw [hrequested, hf.task]
      exact h.requested old hold
  cancelled task htask := by
    rw [hf.map_task]
    exact h.cancelled task htask
  once := h.once
  released messageId := by
    rw [StopManager.modifyEntry, List.length_modify]
    exact h.released messageId
  began := h.began
  own := h.own
  tracked j tracked hopen := by
    obtain ⟨old, hold, hname⟩ := hf.open_of hopen
    rw [hname]
    exact h.tracked j old hold

end

/-! ### The operations -/

section

variable {s s' : StopManager} {i k : Nat} {tracked : TrackedMessage} {messageId : String}

theorem consistent_initial : initial.Consistent where
  named messageId i hi := by cases hi
  tasks := List.nodup_nil
  requested := List.forall_mem_nil _
  cancelled := List.forall_mem_nil _
  once := List.nodup_nil
  released _ := le_rfl
  began := List.forall_mem_nil _
  own := List.forall_mem_nil _
  tracked i tracked hopen := by cases hopen.entry

theorem getElem?_concat {α : Type} {l : List α} {a x : α} {j : Nat} :
    (l ++ [a])[j]? = some x ↔ l[j]? = some x ∨ j = l.length ∧ x = a := by
  grind

/-- A registration for a new task that takes the place of none that is open. -/
theorem Consistent.setCurrent (h : s.Consistent) (roomId : String) {task : Nat} (reactionEventId runId : Option String)
    (hnew : task ∉ s.entries.map (·.task))
    (hplace : ∀ i tracked, s.tracked? messageId = some (i, tracked) → tracked.task ∈ s.done ∨ i < s.released messageId) :
    (s.setCurrent messageId roomId task reactionEventId runId).Consistent where
  named name i hi := by
    by_cases hname : name = messageId
    · subst hname
      rw [setCurrent_trackedMessages, Function.update_self, Option.some.injEq] at hi
      exact ⟨_, getElem?_concat.mpr (.inr ⟨hi.symm, rfl⟩), rfl⟩
    · rw [setCurrent_trackedMessages, Function.update_of_ne hname] at hi
      obtain ⟨tracked, htracked, hnamed⟩ := h.named name i hi
      exact ⟨tracked, getElem?_concat.mpr (.inl htracked), hnamed⟩
  tasks := by
    rw [setCurrent_entries, List.map_append]
    refine List.nodup_append.mpr ⟨h.tasks, List.nodup_singleton _, ?_⟩
    intro t ht t' ht' heq
    rw [List.map_singleton, List.mem_singleton] at ht'
    rw [heq, ht'] at ht
    exact hnew ht
  requested tracked hmem := by
    rw [setCurrent_entries] at hmem
    rcases List.mem_append.mp hmem with hmem | hmem
    · exact h.requested tracked hmem
    · rw [List.mem_singleton.mp hmem]
      exact ⟨fun hfalse => absurd hfalse Bool.false_ne_true, fun hcancelled => absurd (h.cancelled task hcancelled) hnew⟩
  cancelled t ht := by
    rw [setCurrent_entries, List.map_append]
    exact List.mem_append_left _ (h.cancelled t ht)
  once := h.once
  released name := by
    rw [setCurrent_entries, List.length_append]
    exact (h.released name).trans (Nat.le_add_right _ _)
  began := h.began
  own := h.own
  tracked j tracked hopen := by
    rcases getElem?_concat.mp hopen.entry with hold | ⟨hj, rfl⟩
    · have hopen' : s.Open j tracked := ⟨hold, hopen.running, hopen.kept⟩
      have hname : tracked.messageId ≠ messageId := by
        rintro rfl
        rcases hplace j tracked (h.tracked?_open hopen') with hdone | hreleased
        · exact hopen.running hdone
        · exact absurd hreleased (Nat.not_lt.mpr hopen'.kept)
      rw [setCurrent_trackedMessages, Function.update_of_ne hname]
      exact h.tracked j tracked hopen'
    · rw [hj]
      exact Function.update_self _ _ _

theorem Consistent.scheduleGracefulRunCancel (h : s.Consistent) (messageId runId : String) :
    (s.scheduleGracefulRunCancel messageId runId).Consistent :=
  { h with tracked := fun i tracked hopen => h.tracked i tracked ⟨hopen.entry, hopen.running, hopen.kept⟩ }

theorem Consistent.updateRunId (h : s.Consistent) (messageId runId : Option String) :
    (s.updateRunId messageId runId).Consistent := by
  cases messageId with
  | none => exact h
  | some messageId =>
    rw [StopManager.updateRunId]
    cases s.getActiveTrackedMessage messageId with
    | none => exact h
    | some found =>
      dsimp only
      split
      · exact h
      · have hmodified := h.modifyEntry (f := fun tracked => { tracked with runId := runId })
          ⟨fun _ => rfl, fun _ => rfl⟩ (fun _ => rfl) found.1
        cases given? runId with
        | none => exact hmodified
        | some run =>
          dsimp only
          split
          · exact hmodified.scheduleGracefulRunCancel messageId run
          · exact hmodified

/-- What is cleared or discarded is not open any longer. -/
theorem open_of_release (hopen : (s.release messageId).Open i tracked) :
    s.Open i tracked ∧ tracked.messageId ≠ messageId := by
  have hkept := hopen.kept
  have hname : tracked.messageId ≠ messageId := by
    rintro rfl
    rw [release_released, Function.update_self] at hkept
    exact absurd (List.getElem?_eq_some_iff.mp hopen.entry).1 (Nat.not_lt.mpr hkept)
  rw [release_released, Function.update_of_ne hname] at hkept
  exact ⟨⟨hopen.entry, hopen.running, hkept⟩, hname⟩

theorem Consistent.release (h : s.Consistent) (messageId : String) : (s.release messageId).Consistent where
  named := h.named
  tasks := h.tasks
  requested := h.requested
  cancelled := h.cancelled
  once := h.once
  released name := by
    by_cases hname : name = messageId
    · rw [hname, release_released, Function.update_self]
      exact le_rfl
    · rw [release_released, Function.update_of_ne hname]
      exact h.released name
  began cleanup hmem := by
    have hbegan := h.began cleanup hmem
    by_cases hname : cleanup.messageId = messageId
    · rw [hname, release_released, Function.update_self]
      exact hbegan.trans (h.released _)
    · rw [release_released, Function.update_of_ne hname]
      exact hbegan
  own := h.own
  tracked i tracked hopen := h.tracked i tracked (open_of_release hopen).1

theorem Consistent.clearMessage (h : s.Consistent) (messageId : String) (removeButton : Bool) :
    (s.clearMessage messageId removeButton).Consistent := by
  have hreleased := h.release messageId
  rw [StopManager.clearMessage]
  dsimp only
  cases (s.release messageId).tracked? messageId with
  | none => exact hreleased
  | some found =>
    refine { hreleased with began := fun cleanup hmem => ?_, tracked := fun i tracked hopen => ?_ }
    · rcases List.mem_append.mp hmem with hmem | hmem
      · exact hreleased.began cleanup hmem
      · rw [List.mem_singleton.mp hmem, release_released]
        exact (Function.update_self messageId s.entries.length s.released).ge
    · exact hreleased.tracked i tracked ⟨hopen.entry, hopen.running, hopen.kept⟩

/-- Ending the tracking of a message with nothing open. -/
theorem Consistent.untrack (h : s.Consistent) (messageId : String)
    (hclosed : ∀ i tracked, s.Open i tracked → tracked.messageId ≠ messageId) :
    { s with trackedMessages := Function.update s.trackedMessages messageId none }.Consistent := by
  refine { h with named := fun name i hi => ?_, tracked := fun i tracked hopen => ?_ }
  · by_cases hname : name = messageId
    · rw [hname] at hi
      exact absurd (hi.symm.trans (Function.update_self _ _ _)) (Option.some_ne_none i)
    · exact h.named name i ((Function.update_of_ne hname _ _).symm.trans hi)
  · have hopen' : s.Open i tracked := ⟨hopen.entry, hopen.running, hopen.kept⟩
    exact (Function.update_of_ne (hclosed i tracked hopen') _ _).trans (h.tracked i tracked hopen')

theorem Consistent.discardMessage (h : s.Consistent) (messageId : String) : (s.discardMessage messageId).Consistent :=
  (h.release messageId).untrack messageId fun _ _ hopen => (open_of_release hopen).2

theorem Consistent.setPhase (h : s.Consistent) (k : Nat) (phase : CleanupPhase) : (s.setPhase k phase).Consistent := by
  refine { h with began := fun cleanup hmem => ?_, tracked := fun i tracked hopen => ?_ }
  · obtain ⟨old, hold, rfl | rfl⟩ := mem_modify hmem
    · exact h.began cleanup hold
    · exact h.began old hold
  · exact h.tracked i tracked ⟨hopen.entry, hopen.running, hopen.kept⟩

/-- A clean-up that redacts the reaction of no later registration. -/
theorem Consistent.startCleanup (h : s.Consistent) (k : Nat) {cleanup : Cleanup}
    (hspares : ∀ i tracked eventId, s.buttonOf cleanup = some (i, tracked, eventId) → i < cleanup.began) :
    (s.startCleanup k cleanup).Consistent := by
  rw [StopManager.startCleanup]
  cases hbutton : s.buttonOf cleanup with
  | none => exact h.setPhase k .sleeping
  | some found =>
    have hredacted : { s with redactions :=
        ⟨found.2.1.roomId, found.2.2, found.1, cleanup.began⟩ :: s.redactions }.Consistent := by
      refine { h with own := fun redaction hmem => ?_, tracked := fun i tracked hopen => ?_ }
      · rcases List.mem_cons.mp hmem with rfl | hmem
        · exact hspares found.1 found.2.1 found.2.2 hbutton
        · exact h.own redaction hmem
      · exact h.tracked i tracked ⟨hopen.entry, hopen.running, hopen.kept⟩
    exact hredacted.setPhase k (.redacting found.1)

theorem Consistent.endRedaction (h : s.Consistent) (k i : Nat) (redacted : Bool) :
    (s.endRedaction k i redacted).Consistent := by
  rw [StopManager.endRedaction]
  split
  · exact (h.modifyEntry (f := fun tracked => { tracked with reactionEventId := none })
      ⟨fun _ => rfl, fun _ => rfl⟩ (fun _ => rfl) i).setPhase k .sleeping
  · exact h.setPhase k .sleeping

/-- A clean-up that ends the tracking of no later registration. -/
theorem Consistent.endCleanup (h : s.Consistent) (k : Nat) {cleanup : Cleanup} (hmem : cleanup ∈ s.cleanups)
    (hspares : ∀ i tracked, s.tracked? cleanup.messageId = some (i, tracked) → i < cleanup.began) :
    (s.endCleanup k cleanup).Consistent := by
  refine (h.untrack cleanup.messageId fun i tracked hopen hname => ?_).setPhase k .finished
  have hlt := hspares i tracked (hname ▸ h.tracked?_open hopen)
  have hkept := hopen.kept
  rw [hname] at hkept
  exact absurd hlt (Nat.not_lt.mpr ((h.began cleanup hmem).trans hkept))

theorem Consistent.task_injective (h : s.Consistent) {j : Nat} {entry : TrackedMessage}
    (hi : s.entries[i]? = some tracked) (hj : s.entries[j]? = some entry) (htask : tracked.task = entry.task) : i = j := by
  have hlt : i < (s.entries.map (·.task)).length := by
    rw [List.length_map]
    exact (List.getElem?_eq_some_iff.mp hi).1
  refine (List.getElem?_inj hlt h.tasks).mp ?_
  rw [List.getElem?_map, List.getElem?_map, hi, hj, Option.map_some, Option.map_some, htask]

/-- Recording that a task is cancelled with its registration. -/
theorem Consistent.cancelEntry (h : s.Consistent) (hentry : s.entries[i]? = some tracked)
    (hrequested : tracked.cancelRequested = false) :
    { s.modifyEntry i fun tracked => { tracked with cancelRequested := true } with
      cancels := tracked.task :: s.cancels }.Consistent := by
  have hkeeps : Keeps fun tracked => { tracked with cancelRequested := true } := ⟨fun _ => rfl, fun _ => rfl⟩
  have hnew : tracked.task ∉ s.cancels := by
    rw [← h.requested tracked (List.mem_of_getElem? hentry), hrequested]
    decide
  refine
    { named := ?_, tasks := ?_, requested := ?_, cancelled := ?_, once := List.nodup_cons.mpr ⟨hnew, h.once⟩
      released := ?_, began := h.began, own := h.own, tracked := ?_ }
  · intro messageId j hj
    obtain ⟨old, hold, hname⟩ := h.named messageId j hj
    refine ⟨if i = j then { old with cancelRequested := true } else old, ?_, ?_⟩
    · refine (getElem?_modifyEntry s i _ j).trans ?_
      rw [hold]
      split <;> rfl
    · split <;> exact hname
  · exact (hkeeps.map_task s i).symm ▸ h.tasks
  · intro entry hmem
    obtain ⟨j, hj⟩ := List.mem_iff_getElem?.mp hmem
    replace hj := (getElem?_modifyEntry s i _ j).symm.trans hj
    split at hj
    · next hij =>
      subst hij
      rw [hentry, Option.map_some, Option.some.injEq] at hj
      rw [← hj]
      exact iff_of_true rfl List.mem_cons_self
    · next hij =>
      have hother : entry.task ≠ tracked.task := fun heq => hij (h.task_injective hentry hj heq.symm)
      rw [h.requested entry (List.mem_of_getElem? hj), List.mem_cons, or_iff_right hother]
  · intro task htask
    rw [hkeeps.map_task]
    rcases List.mem_cons.mp htask with rfl | htask
    · exact List.mem_map_of_mem (List.mem_of_getElem? hentry)
    · exact h.cancelled task htask
  · intro messageId
    exact (h.released messageId).trans_eq (List.length_modify ..).symm
  · intro j entry hopen
    have hopen' : (s.modifyEntry i fun tracked => { tracked with cancelRequested := true }).Open j entry :=
      ⟨hopen.entry, hopen.running, hopen.kept⟩
    obtain ⟨old, hold, hname⟩ := hkeeps.open_of hopen'
    exact (congrArg s.trackedMessages hname).trans (h.tracked j old hold)

/-- A task is cancelled through its own registration, and only if it was not before. -/
theorem Consistent.requestStop (h : s.Consistent) (messageId : String) : (s.requestStop messageId).2.Consistent := by
  rw [StopManager.requestStop]
  cases hget : s.tracked? messageId with
  | none => exact h
  | some found =>
    obtain ⟨i, tracked⟩ := found
    obtain ⟨-, hentry⟩ := tracked?_eq_some.mp hget
    have hmem := List.mem_of_getElem? hentry
    dsimp only
    split
    · exact h
    · split
      · exact h
      · next hrequested =>
        have hcancel := h.cancelEntry hentry (by simpa using hrequested)
        cases given? tracked.runId with
        | none => exact hcancel
        | some run => exact hcancel.scheduleGracefulRunCancel messageId run

theorem Consistent.finish (h : s.Consistent) (task : Nat) : { s with done := task :: s.done }.Consistent := by
  refine { h with tracked := fun i tracked hopen => ?_ }
  exact h.tracked i tracked ⟨hopen.entry, fun hdone => hopen.running (List.mem_cons_of_mem _ hdone), hopen.kept⟩

/-- Every step that spares later registrations keeps the invariant. -/
theorem Consistent.step (h : s.Consistent) {event : Event} (hspares : Sparing event s)
    (hstep : s.step event = some s') : s'.Consistent := by
  cases event with
  | setCurrent messageId roomId task reactionEventId runId =>
    rw [StopManager.step, Option.ite_none_left_eq_some, Option.some.injEq] at hstep
    rw [← hstep.2]
    exact h.setCurrent roomId reactionEventId runId hstep.1 hspares
  | updateRunId messageId runId =>
    cases hstep
    exact h.updateRunId messageId runId
  | clearMessage messageId removeButton =>
    cases hstep
    exact h.clearMessage messageId removeButton
  | discardMessage messageId =>
    cases hstep
    exact h.discardMessage messageId
  | requestStopIf messageId shouldStop =>
    cases hstep
    rw [requestStopIf]
    split
    · exact h.requestStop messageId
    · exact h
  | startCleanup k =>
    obtain ⟨cleanup, hcleanup, hstep⟩ := Option.bind_eq_some_iff.mp hstep
    rw [Option.ite_none_right_eq_some, Option.some.injEq] at hstep
    rw [← hstep.2]
    exact h.startCleanup k (hspares cleanup hcleanup)
  | endRedaction k redacted =>
    obtain ⟨cleanup, -, hstep⟩ := Option.bind_eq_some_iff.mp hstep
    split at hstep
    · cases hstep
      exact h.endRedaction k _ redacted
    · cases hstep
  | endCleanup k =>
    obtain ⟨cleanup, hcleanup, hstep⟩ := Option.bind_eq_some_iff.mp hstep
    rw [Option.ite_none_right_eq_some, Option.some.injEq] at hstep
    rw [← hstep.2]
    exact h.endCleanup k (List.mem_of_getElem? hcleanup) (hspares cleanup hcleanup)
  | changeButton i reactionEventId =>
    cases hstep
    exact h.modifyEntry (f := fun tracked => { tracked with reactionEventId := reactionEventId })
      ⟨fun _ => rfl, fun _ => rfl⟩ (fun _ => rfl) i
  | finish task =>
    cases hstep
    exact h.finish task

/-- In every run in which no registration takes the place of one that is open, and no clean-up touches a registration
made after it was started, every open registration can be stopped. -/
theorem stoppable_of_sparing {s : StopManager} (h : (system.given Sparing).Reachable s) : s.Stoppable := by
  have hconsistent : (system.given Sparing).Invariant Consistent :=
    { start := fun s hs => hs ▸ consistent_initial
      step := fun event s s' hs hstep => hs.step hstep.1 hstep.2 }
  exact (hconsistent.reachable h).stoppable

theorem stoppable_registered : (initial.setCurrent "$answer" "!room" 0 none (some "run")).Stoppable := by
  have hstart : (system.given Sparing).Reachable initial := .start rfl
  refine stoppable_of_sparing (hstart.next (.setCurrent "$answer" "!room" 0 none (some "run")) ⟨?_, rfl⟩)
  intro i tracked hget
  cases hget

/-- An answer that is done and cleared, and its message registered again before the clean-up runs. -/
def registeredAgain : StopManager :=
  let s := initial.setCurrent "$answer" "!room" 0 none none
  let s := { s with done := [0] }
  let s := s.clearMessage "$answer" true
  s.setCurrent "$answer" "!room" 1 (some "$button") none

theorem registeredAgain_reachable : system.Reachable registeredAgain := by
  have hstart : system.Reachable initial := .start rfl
  have hset := hstart.next (.setCurrent "$answer" "!room" 0 none none) rfl
  have hdone := hset.next (.finish 0) rfl
  have hclear := hdone.next (.clearMessage "$answer" true) rfl
  exact hclear.next (.setCurrent "$answer" "!room" 1 (some "$button") none) rfl

def cleanedUp : StopManager :=
  let cleanup : Cleanup := { messageId := "$answer", removeButton := true, began := 1, phase := .scheduled }
  ((registeredAgain.startCleanup 0 cleanup).endRedaction 0 1 true).endCleanup 0 { cleanup with phase := .sleeping }

theorem cleanedUp_reachable : system.Reachable cleanedUp :=
  ((registeredAgain_reachable.next (.startCleanup 0) rfl).next (.endRedaction 0 true) rfl).next (.endCleanup 0) rfl

/-- A clean-up redacts the button of a later registration and ends its tracking while its task runs. -/
theorem cleanup_ends_later_registration : system.Reachable cleanedUp ∧
    (∃ tracked, cleanedUp.Open 1 tracked ∧ cleanedUp.canHandleStopReaction tracked.messageId = false) ∧
      (∃ redaction ∈ cleanedUp.redactions, redaction.began ≤ redaction.entry) ∧ ¬cleanedUp.Stoppable := by
  have hopen : ∃ tracked, cleanedUp.Open 1 tracked ∧ cleanedUp.canHandleStopReaction tracked.messageId = false :=
    ⟨_, ⟨rfl, by decide, by decide⟩, rfl⟩
  refine ⟨cleanedUp_reachable, hopen, ⟨_, List.mem_cons_self, by decide⟩, fun hstoppable => ?_⟩
  obtain ⟨tracked, htracked, hfalse⟩ := hopen
  rw [hstoppable.handled 1 tracked htracked] at hfalse
  cases hfalse

end

end StopManager

end MindRoom
