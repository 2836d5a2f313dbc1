import MindRoom.LedgerMirror

/-! # Runs of the ledger

Reading the database again after any run gives the answers of the running process, if no call's
candidate takes a turn apart. A candidate that does leaves the rest of that turn in the map: the
write deletes its rows, and publishing sets only the events of the written record.
-/

namespace MindRoom.HandledTurnLedger

/-- A call of the ledger. The transaction of a write reads the outbox. -/
inductive LedgerCall where
  | update (lookupEventIds : List String) (update : Mapping String TurnRecord → Option TurnRecord) (now : Int)
      (outbox : Table OutboxRow)
  | record (turnRecord : TurnRecord) (now : Int) (outbox : Table OutboxRow)
  | cleanup (now : Int) (unsettledSourceEventIds : List String)

namespace LedgerCall

def run (agentName : String) (l : LedgerState) : LedgerCall → LedgerState
  | .update lookupEventIds derive now outbox => (updateHandledTurn agentName lookupEventIds derive now outbox l).2
  | .record turnRecord now outbox => (recordHandledTurn agentName turnRecord now outbox l).2
  | .cleanup now unsettledSourceEventIds => HandledTurnLedger.cleanup agentName now unsettledSourceEventIds l

/-- What the call would record takes only whole turns. -/
def TakesWhole (agentName : String) (l : LedgerState) : LedgerCall → Prop
  | .update lookupEventIds derive now _ => UpdateTakesWhole agentName l lookupEventIds derive now
  | .record turnRecord now _ =>
    UpdateTakesWhole agentName l turnRecord.indexedEventIds (fun _ => some turnRecord) now
  | .cleanup _ _ => True

def runAll (agentName : String) (calls : List LedgerCall) : LedgerState :=
  calls.foldl (fun l call => call.run agentName l) {}

end LedgerCall

/-- The states of an empty ledger after calls that take only whole turns. -/
inductive Runs (agentName : String) : LedgerState → Prop where
  | empty : Runs agentName {}
  | call {l : LedgerState} (call : LedgerCall) (h : Runs agentName l) (hwhole : call.TakesWhole agentName l) :
      Runs agentName (call.run agentName l)

/-- The running process and one that reads the database again give the same answers. -/
structure Agrees (agentName : String) (l : LedgerState) : Prop where
  responses : ∀ e, l.responses.value? e = (load agentName l.records).value? e
  turnRecord : ∀ e, getTurnRecord l.responses e = getTurnRecord (load agentName l.records) e
  responded : ∀ e, hasResponded l.responses e = hasResponded (load agentName l.records) e
  visibleResponse : ∀ e, turnRecordForResponseEventId l.responses e =
    turnRecordForResponseEventId (load agentName l.records) e

variable {agentName : String} {l : LedgerState}

theorem synced_empty : Synced agentName {} where
  oneRecord := TurnRecords.oneRecord_empty
  mirrors _ := rfl

theorem Synced.call (h : Synced agentName l) {call : LedgerCall} (hwhole : call.TakesWhole agentName l) :
    Synced agentName (call.run agentName l) := by
  cases call with
  | update lookupEventIds derive now outbox => exact h.update hwhole
  | record turnRecord now outbox => exact h.update hwhole
  | cleanup now unsettledSourceEventIds => exact h.dropGroups cleanedResponses_keepsGroups

theorem Runs.synced (h : Runs agentName l) : Synced agentName l := by
  induction h with
  | empty => exact synced_empty
  | call call _ hwhole ih => exact ih.call hwhole

/-- A map that mirrors the rows has different records for different events only. -/
theorem Synced.coherent (h : Synced agentName l) : Coherent l.responses := by
  intro r hr r' hr' hindexed
  rcases Mapping.mem_values.mp hr with ⟨e, he⟩
  rcases Mapping.mem_values.mp hr' with ⟨e', he'⟩
  rw [h.mirrors] at he he'
  exact rowRecord_coherent h.oneRecord.stored he he' hindexed

/-- After every call of a run whose candidates take only whole turns, the ledger answers as its
database does. -/
theorem agrees_of_runs (h : Runs agentName l) : Agrees agentName l := by
  have hsynced := h.synced
  have hvalue : ∀ e, l.responses.value? e = (load agentName l.records).value? e := by
    intro e
    rw [value?_load]
    exact hsynced.mirrors e
  refine ⟨hvalue, hvalue, ?_, turnRecordForResponseEventId_congr hsynced.coherent hvalue⟩
  intro e
  unfold hasResponded
  rw [hvalue]

/-! ## A batch that is answered, and one that is taken apart -/

namespace CoalescedBatch

def batch : TurnRecord := TurnRecord.canonicalize { sourceEventIds := ["$a", "$b"], completed := false }

/-- The batch is recorded, answered through one of its events, and cleaned up. -/
def recorded : LedgerState := (LedgerCall.record batch 1 ∅).run "agent" {}

def answer : LedgerCall := .update ["$a"] (fun existing => (existing.value? "$a").map fun current =>
  { current with completed := true, responseEventId := some "$reply", timestamp := 0 }) 2 ∅

def answered : LedgerState := answer.run "agent" recorded

theorem agrees_answered : Agrees "agent" ((LedgerCall.cleanup 3 []).run "agent" answered) ∧
    answered.responses.value? "$b" ≠ none := by
  have hrecorded : (LedgerCall.record batch 1 ∅).TakesWhole "agent" {} := by
    unfold LedgerCall.TakesWhole UpdateTakesWhole
    decide +kernel
  have hanswered : answer.TakesWhole "agent" recorded := by
    unfold answer LedgerCall.TakesWhole UpdateTakesWhole
    decide +kernel
  refine ⟨agrees_of_runs (.call _ (.call _ (.call _ .empty hrecorded) hanswered) trivial), ?_⟩
  decide +kernel

/-- The batch is recorded, and then one of its events as a turn of its own. -/
def takenApart : List LedgerCall :=
  [.record batch 1 ∅, .record (TurnRecord.canonicalize { sourceEventIds := ["$a"] }) 2 ∅]

theorem not_agrees_takenApart : ¬ ∀ calls : List LedgerCall, Agrees "agent" (LedgerCall.runAll "agent" calls) := by
  intro h
  have hmap := (h takenApart).responses "$b"
  have hkept : ((LedgerCall.runAll "agent" takenApart).responses.value? "$b").isSome = true := by decide +kernel
  have hgone : ((load "agent" (LedgerCall.runAll "agent" takenApart).records).value? "$b").isSome = false := by
    decide +kernel
  rw [hmap, hgone] at hkept
  cases hkept

end CoalescedBatch

end MindRoom.HandledTurnLedger
