import MindRoom.Systems
import MindRoom.ScriptRunSteps

/-! # The script-run state machine

The supervisor, the scripts and the restart recovery advance the runs and their calls at once, in
any order. A call is executed by the task of the claim that created it: the task is dispatched
when the recheck of the run passes, and the tool body starts when it passes once more.
-/

namespace MindRoom

open ScriptRunStore

/-- The durable tables, the tasks of the broker's process, and what happened to the calls. -/
structure ScriptWorld where
  db : ScriptRunDB
  /-- Claims that created their call and whose task is not dispatched. -/
  claimed : List (String × String)
  /-- Dispatched tasks whose tool body has not started. -/
  running : List (String × String)
  dispatched : List (String × String)
  executed : List (String × String)

inductive ScriptLabel where
  | create (run : ScriptRunRecord)
  | transition (runId : String) (state : ScriptRunState) (workerId : Option String)
      (exitCode : Option Int) (error : Option String) (now : String)
  | claim (runId callId : String) (grant : ScriptToolGrant) (digest now windowStart : String)
  | dispatch (call : String × String)
  | execute (call : String × String)
  | publish (runId callId : String) (state : ScriptCallState) (result error : Json)
  | settle (runId callId : String) (error : Json)
  | cancel (runId : String) (reason : Option String) (now : String)
  | exit (runId : String) (exitCode : Option Int) (error : Option String)
      (output cancellationReason now : String)
  | finalize (runId : String) (state : ScriptRunState) (error : Option String) (now : String)
  /-- The task of a call is cancelled. -/
  | drop (call : String × String)
  /-- The process of the broker is lost. -/
  | restart

/-- A transaction of the store commits. One that raises changes nothing. -/
def Commits {α : Type} (tx : ScriptTx α) (w w' : ScriptWorld) : Prop :=
  ∃ a db', tx w.db = .ok (a, db') ∧ w' = { w with db := db' }

variable (host : ScriptHost)

/-- One step. The launcher creates a run without an outcome. -/
def scriptStep : ScriptLabel → ScriptWorld → ScriptWorld → Prop
  | .create run, w, w' => run.finishedAt = none ∧ Commits (createRun run) w w'
  | .transition runId state workerId exitCode error now, w, w' =>
    Commits (transitionRun runId state workerId exitCode error now) w w'
  | .claim runId callId grant digest now windowStart, w, w' =>
    ∃ claim db', claimCall host runId callId grant digest now windowStart w.db = .ok (claim, db') ∧
      w' = { w with
        db := db'
        claimed := if claim.created then (runId, callId) :: w.claimed else w.claimed }
  | .dispatch call, w, w' =>
    call ∈ w.claimed ∧ (∃ run, requireCallDispatchAllowed call.1 w.db = .ok run) ∧
      w' = { w with
        claimed := w.claimed.erase call
        running := call :: w.running
        dispatched := call :: w.dispatched }
  | .execute call, w, w' =>
    call ∈ w.running ∧ (∃ run, requireCallDispatchAllowed call.1 w.db = .ok run) ∧
      w' = { w with running := w.running.erase call, executed := call :: w.executed }
  | .publish runId callId state result error, w, w' =>
    Commits (publishCallResult host runId callId state result error) w w'
  | .settle runId callId error, w, w' => Commits (settleOrphanedCall host runId callId error) w w'
  | .cancel runId reason now, w, w' => Commits (requestCancel runId reason now) w w'
  | .exit runId exitCode error output cancellationReason now, w, w' =>
    Commits (recordProcessExit runId exitCode error output cancellationReason now) w w'
  | .finalize runId state error now, w, w' => Commits (finalizeCleanedRun runId state error now) w w'
  | .drop call, w, w' =>
    w' = { w with claimed := w.claimed.erase call, running := w.running.erase call }
  | .restart, w, w' => w' = { w with claimed := [], running := [] }

/-- The broker over its store. -/
def scriptSystem : System ScriptWorld ScriptLabel where
  start w := w = ⟨⟨∅, ∅⟩, [], [], [], []⟩
  step := scriptStep host

variable {host} {w w' : ScriptWorld}

/-! ## One step -/

/-- A call is dispatched for a run that accepts calls. -/
theorem requireCallDispatchAllowed_ok {runId : String} {db : ScriptRunDB} {run : ScriptRunRecord}
    (h : requireCallDispatchAllowed runId db = .ok run) : run ∈ db.runs ∧ run.runId = runId ∧ Accepting run := by
  unfold requireCallDispatchAllowed at h
  cases hget : db.runs.get? runId with
  | none =>
    rw [hget] at h
    cases h
  | some run' =>
    rw [hget] at h
    dsimp only at h
    split at h
    · next haccepting =>
      cases h
      rcases mem_of_get? hget with ⟨hrun, hid⟩
      exact ⟨hrun, hid, haccepting⟩
    · cases h

/-- The tables evolve in every step. -/
theorem step_evolves {label : ScriptLabel} (hinv : OutcomeRevoked w.db)
    (h : scriptStep host label w w') : Evolves w.db w'.db := by
  cases label with
  | create run =>
    rcases h with ⟨hfinished, a, db', h, rfl⟩
    exact createRun_evolves hfinished h
  | transition =>
    rcases h with ⟨a, db', h, rfl⟩
    exact transitionRun_evolves h
  | claim =>
    rcases h with ⟨claim, db', h, rfl⟩
    exact (claimCall_evolves h).1
  | dispatch =>
    rcases h with ⟨-, -, rfl⟩
    exact .refl
  | execute =>
    rcases h with ⟨-, -, rfl⟩
    exact .refl
  | publish =>
    rcases h with ⟨a, db', h, rfl⟩
    exact publishCallResult_evolves h
  | settle =>
    rcases h with ⟨a, db', h, rfl⟩
    exact settleOrphanedCall_evolves h
  | cancel =>
    rcases h with ⟨a, db', h, rfl⟩
    exact (requestCancel_evolves h).1
  | exit =>
    rcases h with ⟨a, db', h, rfl⟩
    exact (recordProcessExit_evolves hinv h).1
  | finalize =>
    rcases h with ⟨a, db', h, rfl⟩
    exact finalizeCleanedRun_evolves h
  | drop =>
    cases h
    exact .refl
  | restart =>
    cases h
    exact .refl

theorem outcomeRevoked_invariant : (scriptSystem host).Invariant fun w => OutcomeRevoked w.db where
  start := by
    rintro w rfl r hr
    exact absurd hr Table.not_mem_empty
  step a w w' hinv h := (step_evolves hinv h).outcomeRevoked hinv

/-! ## No call twice -/

/-- The tasks and what happened to the calls: each call is claimed once, dispatched once and
executed once. -/
structure Once (w : ScriptWorld) : Prop where
  claimed : (w.claimed ++ w.dispatched).Nodup
  executed : (w.running ++ w.executed).Nodup
  dispatched : ∀ k ∈ w.running ++ w.executed, k ∈ w.dispatched
  rows : ∀ k ∈ w.claimed ++ w.dispatched, ∃ c ∈ w.db.calls, key c = k

/-- Moving an entry from one list to the other permutes them. -/
theorem move_perm {α : Type} [BEq α] [LawfulBEq α] {a : α} {l m : List α} (h : a ∈ l) :
    (l.erase a ++ a :: m).Perm (l ++ m) :=
  List.perm_middle.trans ((List.perm_cons_erase h).symm.append_right m)

/-- A step that leaves the tasks alone keeps each call single. -/
theorem Once.of_evolves {db' : ScriptRunDB} (h : Once w) (hdb : Evolves w.db db') : Once { w with db := db' } :=
  ⟨h.claimed, h.executed, h.dispatched, fun k hk => hdb.callKey (h.rows k hk)⟩

/-- Tasks may be lost at any time. -/
theorem Once.lose {claimed running : List (String × String)} (h : Once w)
    (hclaimed : claimed.Sublist w.claimed) (hrunning : running.Sublist w.running) :
    Once { w with claimed := claimed, running := running } where
  claimed := h.claimed.sublist (hclaimed.append (List.Sublist.refl _))
  executed := h.executed.sublist (hrunning.append (List.Sublist.refl _))
  dispatched k hk := h.dispatched k ((hrunning.append (List.Sublist.refl _)).subset hk)
  rows k hk := h.rows k ((hclaimed.append (List.Sublist.refl _)).subset hk)

theorem Once.dispatch {call : String × String} (h : Once w) (hcall : call ∈ w.claimed) : Once { w with
      claimed := w.claimed.erase call
      running := call :: w.running
      dispatched := call :: w.dispatched } := by
  have hperm : (w.claimed.erase call ++ call :: w.dispatched).Perm (w.claimed ++ w.dispatched) :=
    move_perm hcall
  have hnew : call ∉ w.running ++ w.executed := by
    intro hold
    exact List.disjoint_of_nodup_append h.claimed hcall (h.dispatched call hold)
  refine ⟨hperm.nodup_iff.mpr h.claimed, List.nodup_cons.mpr ⟨hnew, h.executed⟩, ?_,
    fun k hk => h.rows k (hperm.subset hk)⟩
  intro k hk
  rcases List.mem_cons.mp hk with rfl | hold
  · exact List.mem_cons_self
  · exact List.mem_cons_of_mem _ (h.dispatched k hold)

theorem Once.execute {call : String × String} (h : Once w) (hcall : call ∈ w.running) :
    Once { w with running := w.running.erase call, executed := call :: w.executed } := by
  have hperm : (w.running.erase call ++ call :: w.executed).Perm (w.running ++ w.executed) :=
    move_perm hcall
  exact ⟨h.claimed, hperm.nodup_iff.mpr h.executed, fun k hk => h.dispatched k (hperm.subset hk), h.rows⟩

/-- A claim hands a call to a task when it creates the call. -/
theorem Once.claim {runId callId : String} {db' : ScriptRunDB} (h : Once w) (hdb : Evolves w.db db')
    (hfresh : ∀ c ∈ w.db.calls, key c ≠ (runId, callId)) (hrow : ∃ c ∈ db'.calls, key c = (runId, callId)) :
    Once { w with db := db', claimed := (runId, callId) :: w.claimed } := by
  have hnew : (runId, callId) ∉ w.claimed ++ w.dispatched := by
    intro hold
    rcases h.rows _ hold with ⟨c, hc, hkey⟩
    exact hfresh c hc hkey
  refine ⟨List.nodup_cons.mpr ⟨hnew, h.claimed⟩, h.executed, h.dispatched, ?_⟩
  intro k hk
  rcases List.mem_cons.mp hk with rfl | hold
  · exact hrow
  · exact hdb.callKey (h.rows k hold)

theorem step_once {label : ScriptLabel} (hinv : OutcomeRevoked w.db) (hw : Once w)
    (h : scriptStep host label w w') : Once w' := by
  have hevolves := step_evolves hinv h
  cases label with
  | claim =>
    rcases h with ⟨claim, db', h, rfl⟩
    rcases claimCall_evolves h with ⟨hdb, ⟨hcreated, rfl⟩ | ⟨hcreated, hfresh, hrow⟩⟩
    · rw [if_neg (by rw [hcreated]; decide)]
      exact hw
    · rw [if_pos hcreated]
      exact hw.claim hdb hfresh hrow
  | dispatch =>
    rcases h with ⟨hcall, -, rfl⟩
    exact hw.dispatch hcall
  | execute =>
    rcases h with ⟨hcall, -, rfl⟩
    exact hw.execute hcall
  | drop =>
    cases h
    exact hw.lose List.erase_sublist List.erase_sublist
  | restart =>
    cases h
    exact hw.lose (List.nil_sublist _) (List.nil_sublist _)
  | create =>
    rcases h with ⟨-, a, db', -, rfl⟩
    exact hw.of_evolves hevolves
  | _ =>
    rcases h with ⟨a, db', -, rfl⟩
    exact hw.of_evolves hevolves

/-! ## The fence of a revoked run -/

/-- What a step dispatches and executes belongs to a run that accepts calls. -/
theorem step_dispatches {label : ScriptLabel} (h : scriptStep host label w w') :
    (∀ k ∈ w'.dispatched, k ∈ w.dispatched ∨ ∃ run ∈ w.db.runs, run.runId = k.1 ∧ Accepting run) ∧
    (∀ k ∈ w'.executed, k ∈ w.executed ∨ ∃ run ∈ w.db.runs, run.runId = k.1 ∧ Accepting run) := by
  cases label with
  | dispatch =>
    rcases h with ⟨-, ⟨run, hallowed⟩, rfl⟩
    refine ⟨fun k hk => ?_, fun k hk => .inl hk⟩
    rcases List.mem_cons.mp hk with rfl | hold
    · exact .inr ⟨run, requireCallDispatchAllowed_ok hallowed⟩
    · exact .inl hold
  | execute =>
    rcases h with ⟨-, ⟨run, hallowed⟩, rfl⟩
    refine ⟨fun k hk => .inl hk, fun k hk => ?_⟩
    rcases List.mem_cons.mp hk with rfl | hold
    · exact .inr ⟨run, requireCallDispatchAllowed_ok hallowed⟩
    · exact .inl hold
  | create =>
    rcases h with ⟨-, a, db', -, rfl⟩
    exact ⟨fun k hk => .inl hk, fun k hk => .inl hk⟩
  | claim =>
    rcases h with ⟨claim, db', -, rfl⟩
    exact ⟨fun k hk => .inl hk, fun k hk => .inl hk⟩
  | drop =>
    cases h
    exact ⟨fun k hk => .inl hk, fun k hk => .inl hk⟩
  | restart =>
    cases h
    exact ⟨fun k hk => .inl hk, fun k hk => .inl hk⟩
  | _ =>
    rcases h with ⟨a, db', -, rfl⟩
    exact ⟨fun k hk => .inl hk, fun k hk => .inl hk⟩

/-- What a later state has of a run that is revoked in the first one. -/
structure FencedFrom (runId : String) (w w' : ScriptWorld) : Prop where
  calls : ∀ c ∈ w'.db.calls, c.runId = runId → ∃ c₀ ∈ w.db.calls, key c₀ = key c
  dispatched : ∀ k ∈ w'.dispatched, k.1 = runId → k ∈ w.dispatched
  executed : ∀ k ∈ w'.executed, k.1 = runId → k ∈ w.executed
  running : ∀ r ∈ w'.db.runs, r.runId = runId → r.state = .running →
    ∃ r₀ ∈ w.db.runs, r₀.runId = runId ∧ r₀.state = .running

theorem FencedFrom.refl {runId : String} : FencedFrom runId w w :=
  ⟨fun c hc _ => ⟨c, hc, rfl⟩, fun _ hk _ => hk, fun _ hk _ => hk, fun r hr hid hrunning =>
    ⟨r, hr, hid, hrunning⟩⟩

def RunRevoked (runId : String) (db : ScriptRunDB) : Prop :=
  ∃ r ∈ db.runs, r.runId = runId ∧ Revoked r

theorem Evolves.runRevoked {db db' : ScriptRunDB} {runId : String} (h : Evolves db db')
    (hr : RunRevoked runId db) : RunRevoked runId db' := by
  rcases hr with ⟨r, hr, hid, hrevoked⟩
  rcases h.runs r hr with ⟨r', hr', hstep⟩
  exact ⟨r', hr', hstep.runId.trans hid, hstep.revoked hrevoked⟩

theorem RunRevoked.not_accepting {db : ScriptRunDB} {runId : String} {run : ScriptRunRecord}
    (h : RunRevoked runId db) (hrun : run ∈ db.runs) (hid : run.runId = runId) : ¬ Accepting run := by
  rintro ⟨hcancel, hstate⟩
  rcases h with ⟨r, hr, hrid, hrevoked⟩
  obtain rfl : run = r := Table.eq_of_key_eq hrun hr (hid.trans hrid.symm)
  rcases hrevoked with hrequested | hterm
  · exact hrequested hcancel
  · rcases hstate with hstate | hstate
    all_goals
      rw [hstate] at hterm
      exact absurd hterm (by decide)

/-- One more step of a revoked run's world. -/
theorem FencedFrom.step {runId : String} {w₀ : ScriptWorld} {label : ScriptLabel}
    (h : FencedFrom runId w₀ w) (hinv : OutcomeRevoked w.db) (hrevoked : RunRevoked runId w.db)
    (hstep : scriptStep host label w w') : FencedFrom runId w₀ w' := by
  have hevolves := step_evolves hinv hstep
  rcases step_dispatches hstep with ⟨hdispatched, hexecuted⟩
  refine ⟨?_, ?_, ?_, ?_⟩
  · intro c' hc' hid
    rcases hevolves.oldCalls c' hc' with ⟨c, hc, hcall⟩ | ⟨-, run, hrun, hrid, haccepting⟩
    · have hkey : key c' = key c := by
        rcases hcall with rfl | ⟨hkey, -⟩
        · rfl
        · exact hkey
      rcases h.calls c hc ((congrArg Prod.fst hkey).symm.trans hid) with ⟨c₀, hc₀, hkey₀⟩
      exact ⟨c₀, hc₀, hkey₀.trans hkey.symm⟩
    · exact absurd haccepting (hrevoked.not_accepting hrun (hrid.trans hid))
  · intro k hk hid
    rcases hdispatched k hk with hold | ⟨run, hrun, hrid, haccepting⟩
    · exact h.dispatched k hold hid
    · exact absurd haccepting (hrevoked.not_accepting hrun (hrid.trans hid))
  · intro k hk hid
    rcases hexecuted k hk with hold | ⟨run, hrun, hrid, haccepting⟩
    · exact h.executed k hold hid
    · exact absurd haccepting (hrevoked.not_accepting hrun (hrid.trans hid))
  · intro r' hr' hid hrunning
    rcases hrevoked with ⟨r, hr, hrid, hrevoked⟩
    -- the revoked row is the only one under this id
    rcases hevolves.oldRuns r' hr' with ⟨r₁, hr₁, hrun⟩ | ⟨hnew, -⟩
    · have hid₁ : r₁.runId = runId := hrun.runId.symm.trans hid
      obtain rfl : r₁ = r := Table.eq_of_key_eq hr₁ hr (hid₁.trans hrid.symm)
      exact h.running r₁ hr₁ hid₁ (hrun.running hrevoked hrunning)
    · exact absurd (hrid.trans hid.symm) (hnew r hr)

/-- From a state in which a run is revoked, nothing more of it is claimed, dispatched or executed,
and it does not start running. -/
def Fenced (host : ScriptHost) (runId : String) (w : ScriptWorld) : Prop :=
  ∀ w', (scriptSystem host).Run w w' → FencedFrom runId w w'

theorem fenced_of_revoked {runId : String} (hw : OutcomeRevoked w.db)
    (hrevoked : RunRevoked runId w.db) : Fenced host runId w := by
  intro w' hrun
  have hall : OutcomeRevoked w'.db ∧ RunRevoked runId w'.db ∧ FencedFrom runId w w' := by
    refine hrun.preserves (P := fun t => OutcomeRevoked t.db ∧ RunRevoked runId t.db ∧
      FencedFrom runId w t) ?_ ⟨hw, hrevoked, .refl⟩
    rintro a t t' ⟨hinv, hrevoked, hfenced⟩ hstep
    exact ⟨outcomeRevoked_invariant.step a t t' hinv hstep,
      (step_evolves hinv hstep).runRevoked hrevoked, hfenced.step hinv hrevoked hstep⟩
  exact hall.2.2

/-! ## The state machine -/

/-- What holds of a script-run store in every reachable state. -/
structure ScriptRunsSafe (host : ScriptHost) (w : ScriptWorld) : Prop where
  /-- Terminal runs are absorbing. -/
  absorbing : ∀ r ∈ w.db.runs, r.state.Terminal →
    ∀ w', (scriptSystem host).Run w w' → r ∈ w'.db.runs
  /-- A terminal receipt is never overwritten. -/
  receipts : ∀ c ∈ w.db.calls, c.state.Terminal →
    ∀ w', (scriptSystem host).Run w w' → c ∈ w'.db.calls
  cancelled : ∀ runId reason now w', scriptStep host (.cancel runId reason now) w w' →
    Fenced host runId w'
  exited : ∀ runId exitCode error output reason now w',
    scriptStep host (.exit runId exitCode error output reason now) w w' → Fenced host runId w'
  once : w.dispatched.Nodup ∧ w.executed.Nodup
  /-- A repeated claim returns the stored call, or is refused. -/
  repeated : ∀ c ∈ w.db.calls, ∀ grant digest now windowStart claim db',
    claimCall host c.runId c.callId grant digest now windowStart w.db = .ok (claim, db') →
    claim = ⟨callFromRow host c, false⟩ ∧ db' = w.db

theorem once_reachable (h : (scriptSystem host).Reachable w) : Once w := by
  refine h.induct ?_ ?_
  · rintro w rfl
    exact ⟨List.nodup_nil, List.nodup_nil, fun k hk => absurd hk List.not_mem_nil,
      fun k hk => absurd hk List.not_mem_nil⟩
  · intro a t t' ht hone hstep
    exact step_once (outcomeRevoked_invariant.reachable ht) hone hstep

/-- What the steps keep from any reachable state on. -/
theorem kept_of_evolves {P : ScriptRunDB → Prop} (hw : (scriptSystem host).Reachable w)
    (hP : ∀ db db', Evolves db db' → P db → P db') (h : P w.db) : ∀ w', (scriptSystem host).Run w w' → P w'.db := by
  intro w' hrun
  have hboth : OutcomeRevoked w'.db ∧ P w'.db := by
    refine hrun.preserves (P := fun t => OutcomeRevoked t.db ∧ P t.db) ?_
      ⟨outcomeRevoked_invariant.reachable hw, h⟩
    rintro a t t' ⟨hinv, ht⟩ hstep
    exact ⟨outcomeRevoked_invariant.step a t t' hinv hstep, hP _ _ (step_evolves hinv hstep) ht⟩
  exact hboth.2

/-- In every state of every interleaving: terminal runs and receipts stay, a cancelled run and one
with an observed exit are fenced, and no call is dispatched or executed twice. -/
theorem script_runs_safe (h : (scriptSystem host).Reachable w) : ScriptRunsSafe host w where
  absorbing r hr hterm := kept_of_evolves h (fun _ _ hstep hold => hstep.terminalRun hold hterm) hr
  receipts c hc hterm := kept_of_evolves h (fun _ _ hstep hold => hstep.terminalCall hold hterm) hc
  cancelled runId reason now w' hstep := by
    have hinv := outcomeRevoked_invariant.reachable (h.next (.cancel runId reason now) hstep)
    rcases hstep with ⟨a, db', hstep, rfl⟩
    exact fenced_of_revoked hinv (requestCancel_evolves hstep).2
  exited runId exitCode error output reason now w' hstep := by
    have hold := outcomeRevoked_invariant.reachable h
    have hinv := outcomeRevoked_invariant.reachable
      (h.next (.exit runId exitCode error output reason now) hstep)
    rcases hstep with ⟨a, db', hstep, rfl⟩
    exact fenced_of_revoked hinv (recordProcessExit_evolves hold hstep).2
  once := by
    have hone := once_reachable h
    exact ⟨(List.nodup_append.mp hone.claimed).2.1, (List.nodup_append.mp hone.executed).2.1⟩
  repeated c hc grant digest now windowStart claim db' hclaim := claimCall_repeated hc hclaim

namespace OneCall

def plainHost : ScriptHost := ⟨id, fun _ => none, fun _ => .null⟩

def grant : ScriptToolGrant := ⟨"files", "read"⟩

def run : ScriptRunRecord where
  runId := "r"
  grants := [grant]
  tokenHash := "t"
  createdAt := "2026-01-01T00:00:00Z"

def created : ScriptWorld := ⟨⟨Table.insertOrIgnore ∅ run, ∅⟩, [], [], [], []⟩

def called : ScriptWorld where
  db := ⟨created.db.runs, Table.insertOrIgnore ∅ ⟨"r", "c", grant, "d", .pending, none, "2026-01-01T00:00:01Z"⟩⟩
  claimed := [("r", "c")]
  running := []
  dispatched := []
  executed := []

def dispatched : ScriptWorld := { called with
  claimed := []
  running := [("r", "c")]
  dispatched := [("r", "c")] }

theorem dispatched_reachable : (scriptSystem plainHost).Reachable dispatched := by
  have hstart : (scriptSystem plainHost).Reachable ⟨⟨∅, ∅⟩, [], [], [], []⟩ := .start rfl
  have hcreated : (scriptSystem plainHost).Reachable created :=
    hstart.next (.create run) ⟨rfl, run, created.db, rfl, rfl⟩
  have hcalled : (scriptSystem plainHost).Reachable called :=
    hcreated.next (.claim "r" "c" grant "d" "2026-01-01T00:00:01Z" "2025-12-31T23:59:01Z")
      ⟨_, called.db, rfl, rfl⟩
  exact hcalled.next (.dispatch ("r", "c")) ⟨List.mem_cons_self, ⟨run, rfl⟩, rfl⟩

theorem dispatched_safe : ScriptRunsSafe plainHost dispatched := script_runs_safe dispatched_reachable

end OneCall

end MindRoom
