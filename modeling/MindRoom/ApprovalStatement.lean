import MindRoom.OutboxStatement

/-! # Statements on approvals and turns

What one statement may do to the approval tables, the turn records and the clock. A paused run
moves only along `ContinuationRow.Moves`, and a decision is written by the statement that reads
the time it is judged by.
-/

namespace MindRoom

/-! ## The tables -/

/-- The approval domain, the turn records and the clock. -/
structure Rest where
  turns : Table TurnRecordRow
  cards : Table ApprovalCardRow
  background : Table BackgroundCallRow
  actions : Table ActionTombstoneRow
  continuations : Table ContinuationRow
  sources : Table ContinuationSourceRow
  calls : Table ContinuationCallRow
  scopes : Table GrantCardRow
  grants : Table GrantRow
  clock : ℕ → Int

def DB.rest (db : DB) : Rest where
  turns := db.turnRecords
  cards := db.approvalCards
  background := db.backgroundApprovalCalls
  actions := db.approvalActionTombstones
  continuations := db.approvalContinuations
  sources := db.approvalContinuationSources
  calls := db.approvalContinuationCalls
  scopes := db.approvalGrantCards
  grants := db.approvalGrants
  clock := db.clock

def tick (db : DB) : DB := { db with clock := fun n => db.clock (n + 1) }

/-! ## Paused runs -/

/-- The transitions of one paused run, apart from its next pause and its end. -/
inductive ContinuationRow.Moves (db : DB) (r : ContinuationRow) : ContinuationRow → Prop
  | claim (runtimeGeneration : String) (context : ContinuationContext) (h : r.state = .ready) :
      Moves db r
        { r with
          state := .claimed
          runtimeGeneration := some runtimeGeneration
          contextJson := context }
  /-- the publication lease ends -/
  | activate (h : r.state = .waiting)
      (state : ContinuationState)
      (hs : state = .waiting ∨ state = .ready ∧
        ¬ ApprovalContinuations.Undecided db r.principalId r.approvalId r.generation) :
      Moves db r { r with state := state, runtimeGeneration := none }
  | ready (h : r.state = .waiting)
      (hd : ¬ ApprovalContinuations.Undecided db r.principalId r.approvalId r.generation) :
      Moves db r { r with state := .ready }
  | fail (reason : String) (runtimeGeneration : Option String) :
      Moves db r
        { r with
          state := .failing
          failureReason := some reason
          runtimeGeneration := runtimeGeneration }

/-! ## Statements -/

/-- One statement beside the projection, the journal and the outbox. -/
inductive Amends (b : Scope) : DB → DB → Prop
  | tick {db : DB} : Amends b db (tick db)
  | turns (rows : Table TurnRecordRow) {db : DB} (hb : b.turns) :
      Amends b db { db with turnRecords := rows }
  | card (row : ApprovalCardRow) (cards : Table ApprovalCardRow) {db : DB}
      (hb : b.approves row.principalId row.deliveryId)
      (h : db.approvalCards.insert? row = some cards) :
      Amends b db { db with approvalCards := cards }
  | deleteCard (p d : String) {db : DB} : Amends b db (Approvals.deleteCard p d db)
  | carryCard (p d : String) (membershipEpoch : Int) {db : DB} :
      Amends b db
        { db with
          approvalCards := db.approvalCards.update (fun r => key r = (p, d))
            (fun r => { r with membershipEpoch := membershipEpoch }) }
  | remember (row : ActionTombstoneRow) {db : DB} : Amends b db (Approvals.rememberAction row db)
  /-- a run is paused, with its sources and its first calls -/
  | pause (p : String) (c : ApprovalContinuation) (now : Int)
      (sources : Table ContinuationSourceRow) (calls : Table ContinuationCallRow) {db : DB}
      (hb : b.pausing) (hc : b.pauses c) (hnew : db.approvalContinuations.get? c.approvalId = none)
      (hcalls : db.approvalContinuationCalls.insertAll?
        (ApprovalContinuations.newCallRows p c.approvalId c.generation c.calls) = some calls) :
      Amends b db
        { db with
          approvalContinuations :=
            db.approvalContinuations.insertOrIgnore (ApprovalContinuations.newRow p c now)
          approvalContinuationSources := sources
          approvalContinuationCalls := calls }
  | move (q : ContinuationRow → Prop) [DecidablePred q] (f : ContinuationRow → ContinuationRow)
      (hf : ∀ r, key (f r) = key r) {db : DB}
      (h : ∀ r ∈ db.approvalContinuations, q r → r.Moves db (f r)) :
      Amends b db (ApprovalContinuations.updateRows q f hf db)
  /-- a claimed run pauses again, with the calls of its next generation -/
  | advance (p a : String) (g : Int) (next : ApprovalContinuations.Advance)
      (runtimeGeneration : Option String) (context : ContinuationContext)
      (calls : Table ContinuationCallRow) {db : DB} (hb : b.pausing)
      (hrow : (ApprovalContinuations.rowAt db p a).any (fun r =>
        r.state = .claimed ∧ r.generation = g) = true)
      (hcalls : db.approvalContinuationCalls.insertAll?
        (ApprovalContinuations.newCallRows p a (g + 1) next.calls) = some calls) :
      Amends b db
        { ApprovalContinuations.updateRows
            (fun r => r.principalId = p ∧ r.approvalId = a ∧ r.state = .claimed ∧ r.generation = g)
            (fun r =>
              { r with
                state := .waiting
                generation := g + 1
                runtimeGeneration := runtimeGeneration
                failureReason := none
                contextJson := context })
            (fun _ => rfl) db with
          approvalContinuationCalls := calls }
  | release (q : ContinuationRow → Prop) [DecidablePred q] {db : DB} (hb : b.releasing) :
      Amends b db (ApprovalContinuations.deleteRows q db)
  /-- a card's call is decided, by the deadline and the failure of its run -/
  | decide (continuation : ContinuationRow) (card : ApprovalCardRow) (call : ContinuationCallRow)
      (decision : Decision) (reason : Option String) {db : DB}
      (hrow : db.approvalContinuations.get? card.continuationId = some continuation)
      (hcall : Approvals.decidableCall db continuation card = some call)
      (hlate : call.expiresAtNs ≤ db.clock 0 → decision = .expired)
      (hfailing : continuation.state = .failing → decision ≠ .approved) :
      Amends b db
        (Approvals.decideCall continuation.principalId card.continuationId
          card.continuationGeneration card.toolCallId decision reason (MindRoom.tick db))
  /-- an active grant approves the call of its scope -/
  | approve (p : String) (row : GrantCardRow) (grant : GrantRow) {db : DB} (hb : b.grants)
      (hscope : ApprovalGrants.ScopeCurrent db p row)
      (hgrant : (ApprovalGrants.activeGrant db p row.scopeKey (db.clock 0)).filter
        (ApprovalGrants.GrantCurrent db p ·) = some grant)
      (hcall : ApprovalGrants.grantableCall db row (db.clock 0) ≠ none) :
      Amends b db (ApprovalGrants.approveCall row (db.clock 0) (MindRoom.tick db))
  /-- the room of an unresolved card was left -/
  | deny (card : ApprovalCardRow) (reason : String) {db : DB} :
      Amends b db (Approvals.denyCallIfUndecided card reason db)
  | reserveCall (row : BackgroundCallRow) {db : DB} (hb : b.pausing)
      (happroves : b.approves row.principalId row.deliveryId)
      (hnew : db.backgroundApprovalCalls.get? (key row) = none)
      (hdelivery : ¬ db.backgroundApprovalCalls.Any fun r =>
        r.principalId = row.principalId ∧ r.deliveryId = row.deliveryId)
      (hundecided : row.decision = none) :
      Amends b db
        { db with backgroundApprovalCalls := db.backgroundApprovalCalls.insertOrIgnore row }
  | decideBackground (call : BackgroundCallRow) (decision : Decision) (reason : Option String)
      {db : DB} (hcall : call ∈ db.backgroundApprovalCalls) (hundecided : call.decision = none)
      (hlate : call.expiresAtNs ≤ db.clock 0 → decision = .expired) :
      Amends b db
        (BackgroundApprovals.decideCall call.principalId call.deliveryId decision reason
          (MindRoom.tick db))
  | prune (p runId : String) {db : DB} (hb : b.releasing) :
      Amends b db
        { db with
          backgroundApprovalCalls := db.backgroundApprovalCalls.delete fun r =>
            r.principalId = p ∧ r.runId = runId }
  | grants (scopes : Table GrantCardRow) (grants : Table GrantRow) {db : DB} (hb : b.grants) :
      Amends b db { db with approvalGrantCards := scopes, approvalGrants := grants }
  /-- the receipt sequence and the join baselines -/
  | idle (receiptOrderSeq : Nat) (joins : Table RoomMemberJoinRow) {db : DB} :
      Amends b db { db with receiptOrderSeq := receiptOrderSeq, roomMemberJoins := joins }

end MindRoom
