import MindRoom.ScriptRuns

/-! # What one operation does to the script runs

Every committed operation of the store evolves its two tables in one of few ways: a run or a call
that is terminal stays as it is, a run that was cancelled stays cancelled and does not start
running, and a new call belongs to a run that accepts calls.
-/

namespace MindRoom

open ScriptRunStore

def RunStep (r r' : ScriptRunRecord) : Prop :=
  r' = r ∨
    (r'.runId = r.runId ∧ ¬ r.state.Terminal ∧
      (r.cancelRequestedAt ≠ none → r'.cancelRequestedAt ≠ none) ∧
      (r'.state = .running → r.state = .running ∨ r.cancelRequestedAt = none) ∧
      (r'.finishedAt ≠ none →
        r.finishedAt ≠ none ∨ r'.cancelRequestedAt ≠ none ∨ r'.state.Terminal))

def CallStep (c c' : ScriptCallRow) : Prop := c' = c ∨ (key c' = key c ∧ ¬ c.state.Terminal)

/-- What one committed operation does to the tables. -/
structure Evolves (db db' : ScriptRunDB) : Prop where
  runs : ∀ r ∈ db.runs, ∃ r' ∈ db'.runs, RunStep r r'
  oldRuns : ∀ r' ∈ db'.runs, (∃ r ∈ db.runs, RunStep r r') ∨
    ((∀ r ∈ db.runs, r.runId ≠ r'.runId) ∧ r'.finishedAt = none)
  calls : ∀ c ∈ db.calls, ∃ c' ∈ db'.calls, CallStep c c'
  oldCalls : ∀ c' ∈ db'.calls, (∃ c ∈ db.calls, CallStep c c') ∨
    ((∀ c ∈ db.calls, key c ≠ key c') ∧ ∃ run ∈ db.runs, run.runId = c'.runId ∧ Accepting run)

variable {db db' : ScriptRunDB}

theorem Evolves.refl : Evolves db db :=
  ⟨fun r hr => ⟨r, hr, .inl rfl⟩, fun r hr => .inl ⟨r, hr, .inl rfl⟩,
    fun c hc => ⟨c, hc, .inl rfl⟩, fun c hc => .inl ⟨c, hc, .inl rfl⟩⟩

/-! ## Each operation -/

theorem mem_of_get? {ρ κ : Type} [Keyed ρ κ] [DecidableEq κ] {t : Table ρ} {k : κ} {r : ρ}
    (h : t.get? k = some r) : r ∈ t ∧ key r = k := Table.get?_eq_some.mp h

theorem mem_setRun {run r' : ScriptRunRecord} (hrun : ∃ r ∈ db.runs, r.runId = run.runId) :
    r' ∈ (setRun run db).runs ↔ r' = run ∨ (r' ∈ db.runs ∧ r'.runId ≠ run.runId) := by
  refine Iff.trans (@Table.mem_update _ _ _ _ _ _ _ (by intro _; rfl) _) ?_
  constructor
  · rintro (⟨r, _, hid, rfl⟩ | hother)
    · left
      rw [show r.runId = run.runId from hid]
    · exact .inr hother
  · rintro (rfl | hother)
    · rcases hrun with ⟨r, hr, hid⟩
      exact .inl ⟨r, hr, hid, by rw [hid]⟩
    · exact .inr hother

theorem mem_setRun_self {run : ScriptRunRecord} (hrun : ∃ r ∈ db.runs, r.runId = run.runId) :
    run ∈ (setRun run db).runs := (mem_setRun hrun).mpr (.inl rfl)

/-- Writing one run back evolves the tables as the run steps. -/
theorem evolves_setRun {run updated : ScriptRunRecord} (hrun : run ∈ db.runs)
    (hid : updated.runId = run.runId) (hstep : RunStep run updated) : Evolves db (setRun updated db) := by
  have hmem := fun r' => @mem_setRun db updated r' ⟨run, hrun, hid.symm⟩
  refine ⟨?_, ?_, fun c hc => ⟨c, hc, .inl rfl⟩, fun c hc => .inl ⟨c, hc, .inl rfl⟩⟩
  · intro r hr
    by_cases hsame : r.runId = run.runId
    · have heq : r = run := Table.eq_of_key_eq hr hrun hsame
      exact ⟨updated, (hmem updated).mpr (.inl rfl), heq ▸ hstep⟩
    · exact ⟨r, (hmem r).mpr (.inr ⟨hr, hid ▸ hsame⟩), .inl rfl⟩
  · intro r' hr'
    rcases (hmem r').mp hr' with rfl | ⟨hold, -⟩
    · exact .inl ⟨run, hrun, hstep⟩
    · exact .inl ⟨r', hold, .inl rfl⟩

/-- Writing the receipt of a call that has none evolves the tables. -/
theorem evolves_setReceipt {row : ScriptCallRow} {state : ScriptCallState} {receiptJson : String}
    {runId callId : String} (hrow : db.calls.get? (runId, callId) = some row)
    (hpending : ¬ row.state.Terminal) : Evolves db (setReceipt runId callId state receiptJson db) := by
  rcases mem_of_get? hrow with ⟨hmem, hkey⟩
  have hkey' : row.runId = runId ∧ row.callId = callId := Prod.mk.inj hkey
  have hcalls : ∀ c, c ∈ (setReceipt runId callId state receiptJson db).calls ↔
      (∃ c₀ ∈ db.calls, (c₀.runId = runId ∧ c₀.callId = callId) ∧
        { c₀ with state := state, receiptJson := some receiptJson } = c) ∨
      (c ∈ db.calls ∧ ¬ (c.runId = runId ∧ c.callId = callId)) := fun c =>
    @Table.mem_update _ _ _ _ _ _ c (by intro _; rfl) _
  have hsame : ∀ c ∈ db.calls, c.runId = runId ∧ c.callId = callId → c = row := by
    rintro c hc ⟨hrun, hcall⟩
    refine Table.eq_of_key_eq hc hmem ?_
    rw [hkey]
    exact Prod.ext hrun hcall
  refine ⟨fun r hr => ⟨r, hr, .inl rfl⟩, fun r hr => .inl ⟨r, hr, .inl rfl⟩, ?_, ?_⟩
  · intro c hc
    by_cases hown : c.runId = runId ∧ c.callId = callId
    · rw [hsame c hc hown]
      exact ⟨_, (hcalls _).mpr (.inl ⟨row, hmem, hkey', rfl⟩), .inr ⟨rfl, hpending⟩⟩
    · exact ⟨c, (hcalls c).mpr (.inr ⟨hc, hown⟩), .inl rfl⟩
  · intro c' hc'
    rcases (hcalls c').mp hc' with ⟨c, hc, hown, rfl⟩ | ⟨hold, -⟩
    · refine .inl ⟨c, hc, .inr ⟨rfl, ?_⟩⟩
      rw [hsame c hc hown]
      exact hpending
    · exact .inl ⟨c', hold, .inl rfl⟩

/-- A run is created once, under an id of its own. -/
theorem createRun_evolves {run a : ScriptRunRecord} (hfinished : run.finishedAt = none)
    (h : createRun run db = .ok (a, db')) : Evolves db db' := by
  unfold createRun at h
  split at h
  · cases h
  · split at h
    · cases h
    · cases hinsert : db.runs.insert? run with
      | none =>
        rw [hinsert] at h
        cases h
      | some runs =>
        rw [hinsert] at h
        cases h
        have hmem : ∀ r, r ∈ runs ↔ r ∈ db.runs ∨ r = run := fun r => Table.mem_insert? hinsert
        refine ⟨fun r hr => ⟨r, (hmem r).mpr (.inl hr), .inl rfl⟩, ?_,
          fun c hc => ⟨c, hc, .inl rfl⟩, fun c hc => .inl ⟨c, hc, .inl rfl⟩⟩
        intro r' hr'
        rcases (hmem r').mp hr' with hold | rfl
        · exact .inl ⟨r', hold, .inl rfl⟩
        · exact .inr ⟨Table.key_ne_of_insert? hinsert, hfinished⟩

/-- A created claim is a pending call of a run that accepts calls; a repeated one changes nothing. -/
theorem claimCall_evolves {host : ScriptHost} {runId callId digest now windowStart : String}
    {grant : ScriptToolGrant} {claim : ScriptCallClaim}
    (h : claimCall host runId callId grant digest now windowStart db = .ok (claim, db')) : Evolves db db' ∧
      ((claim.created = false ∧ db' = db) ∨ (claim.created = true ∧ (∀ c ∈ db.calls, key c ≠ (runId, callId)) ∧
          ∃ c ∈ db'.calls, key c = (runId, callId))) := by
  unfold claimCall at h
  cases hcall : db.calls.get? (runId, callId) with
  | some row =>
    rw [hcall] at h
    dsimp only at h
    split at h
    · cases h
    · cases h
      exact ⟨.refl, .inl ⟨rfl, rfl⟩⟩
  | none =>
    rw [hcall] at h
    cases hrun : db.runs.get? runId with
    | none =>
      rw [hrun] at h
      cases h
    | some run =>
      rw [hrun] at h
      dsimp only at h
      split at h
      · cases h
      · next haccepting =>
        split at h
        · cases h
        · split at h
          · cases h
          · cases h
            have hfresh := Table.get?_eq_none.mp hcall
            have hmem := fun c => @Table.mem_insertOrIgnore _ _ _ db.calls _
              ⟨runId, callId, grant, digest, .pending, none, now⟩ c
            rcases mem_of_get? hrun with ⟨hrun, hid⟩
            refine ⟨⟨fun r hr => ⟨r, hr, .inl rfl⟩, fun r hr => .inl ⟨r, hr, .inl rfl⟩, ?_, ?_⟩,
              .inr ⟨rfl, hfresh, _, (hmem _).mpr (.inr ⟨rfl, hfresh⟩), rfl⟩⟩
            · intro c hc
              exact ⟨c, (hmem c).mpr (.inl hc), .inl rfl⟩
            · intro c' hc'
              rcases (hmem c').mp hc' with hold | ⟨rfl, -⟩
              · exact .inl ⟨c', hold, .inl rfl⟩
              · exact .inr ⟨hfresh, run, hrun, hid, not_not.mp haccepting⟩

/-- A repeated claim of a stored call returns its stored receipt, or is refused. -/
theorem claimCall_repeated {host : ScriptHost} {c : ScriptCallRow} {digest now windowStart : String}
    {grant : ScriptToolGrant} {claim : ScriptCallClaim} (hc : c ∈ db.calls)
    (h : claimCall host c.runId c.callId grant digest now windowStart db = .ok (claim, db')) :
    claim = ⟨callFromRow host c, false⟩ ∧ db' = db := by
  have hcall : db.calls.get? (c.runId, c.callId) = some c := Table.get?_eq_some.mpr ⟨hc, rfl⟩
  unfold claimCall at h
  rw [hcall] at h
  dsimp only at h
  split at h
  · cases h
  · cases h
    exact ⟨rfl, rfl⟩

theorem settleOrphanedCall_evolves {host : ScriptHost} {runId callId : String} {error : Json}
    {a : ScriptCallRecord} (h : settleOrphanedCall host runId callId error db = .ok (a, db')) :
    Evolves db db' := by
  unfold settleOrphanedCall at h
  rcases Transaction.except_bind_eq_ok.mp h with ⟨receiptJson, -, h⟩
  cases hrow : db.calls.get? (runId, callId) with
  | none =>
    rw [hrow] at h
    cases h
  | some row =>
    rw [hrow] at h
    dsimp only at h
    split at h
    · cases h
      exact .refl
    · next hpending =>
      cases h
      exact evolves_setReceipt hrow hpending

theorem publishCallResult_evolves {host : ScriptHost} {runId callId : String}
    {state : ScriptCallState} {result error : Json} {a : ScriptCallRecord}
    (h : publishCallResult host runId callId state result error db = .ok (a, db')) :
    Evolves db db' := by
  unfold publishCallResult at h
  split at h
  · cases h
  · rcases Transaction.except_bind_eq_ok.mp h with ⟨receiptJson, -, h⟩
    cases hrow : db.calls.get? (runId, callId) with
    | none =>
      rw [hrow] at h
      cases h
    | some row =>
      rw [hrow] at h
      dsimp only at h
      split at h
      · split at h
        · cases h
          exact .refl
        · cases h
      · next hpending =>
        cases h
        exact evolves_setReceipt hrow hpending

/-- A run that was cancelled, or that is over. -/
def Revoked (r : ScriptRunRecord) : Prop := r.cancelRequestedAt ≠ none ∨ r.state.Terminal

/-- A run with an observed outcome is revoked. -/
def OutcomeRevoked (db : ScriptRunDB) : Prop := ∀ r ∈ db.runs, r.finishedAt ≠ none → Revoked r

theorem requestCancel_evolves {runId now : String} {reason : Option String} {a : ScriptRunRecord}
    (h : requestCancel runId reason now db = .ok (a, db')) :
    Evolves db db' ∧ ∃ r ∈ db'.runs, r.runId = runId ∧ Revoked r := by
  unfold requestCancel at h
  cases hget : db.runs.get? runId with
  | none =>
    rw [hget] at h
    cases h
  | some run =>
    rw [hget] at h
    dsimp only at h
    rcases mem_of_get? hget with ⟨hrun, hid⟩
    split at h
    · next hrevoked =>
      cases h
      exact ⟨.refl, _, hrun, hid, hrevoked⟩
    · next hactive =>
      cases h
      have hterm : ¬ run.state.Terminal := fun hterm => hactive (.inr hterm)
      refine ⟨evolves_setRun hrun rfl (.inr ⟨rfl, hterm, nofun, .inl, .inl⟩), ?_⟩
      exact ⟨_, mem_setRun_self ⟨run, hrun, rfl⟩, hid, .inl nofun⟩

theorem recordProcessExit_evolves {runId output cancellationReason now : String}
    {exitCode : Option Int} {error : Option String} {a : ScriptRunRecord} (hinv : OutcomeRevoked db)
    (h : recordProcessExit runId exitCode error output cancellationReason now db = .ok (a, db')) :
    Evolves db db' ∧ ∃ r ∈ db'.runs, r.runId = runId ∧ Revoked r := by
  unfold recordProcessExit at h
  rcases Transaction.except_bind_eq_ok.mp h with ⟨_, -, h⟩
  rcases Transaction.except_bind_eq_ok.mp h with ⟨_, -, h⟩
  cases hget : db.runs.get? runId with
  | none =>
    rw [hget] at h
    cases h
  | some run =>
    rw [hget] at h
    dsimp only at h
    rcases mem_of_get? hget with ⟨hrun, hid⟩
    split at h
    · next hrevoked =>
      cases h
      exact ⟨.refl, _, hrun, hid, hrevoked.elim .inr (hinv _ hrun)⟩
    · next hactive =>
      cases h
      have hterm : ¬ run.state.Terminal := fun hterm => hactive (.inl hterm)
      refine ⟨evolves_setRun hrun rfl
        (.inr ⟨rfl, hterm, nofun, .inl, fun _ => .inr (.inl nofun)⟩), ?_⟩
      exact ⟨_, mem_setRun_self ⟨run, hrun, rfl⟩, hid, .inl nofun⟩

theorem finalizeCleanedRun_evolves {runId now : String} {state : ScriptRunState}
    {error : Option String} {a : ScriptRunRecord}
    (h : finalizeCleanedRun runId state error now db = .ok (a, db')) : Evolves db db' := by
  unfold finalizeCleanedRun at h
  split at h
  · cases h
  · next hstate =>
    have hstate : state.Terminal := not_not.mp hstate
    cases hget : db.runs.get? runId with
    | none =>
      rw [hget] at h
      cases h
    | some run =>
      rw [hget] at h
      dsimp only at h
      rcases mem_of_get? hget with ⟨hrun, -⟩
      split at h
      · cases h
        exact .refl
      · next hterm =>
        split at h
        · cases h
        · cases h
          refine evolves_setRun hrun rfl (.inr ⟨rfl, hterm, id, ?_, fun _ => .inr (.inr hstate)⟩)
          rintro rfl
          exact absurd hstate (by decide)

theorem transitionRun_evolves {runId now : String} {state : ScriptRunState}
    {workerId error : Option String} {exitCode : Option Int} {a : ScriptRunRecord}
    (h : transitionRun runId state workerId exitCode error now db = .ok (a, db')) :
    Evolves db db' := by
  unfold transitionRun at h
  rcases Transaction.except_bind_eq_ok.mp h with ⟨_, -, h⟩
  cases hget : db.runs.get? runId with
  | none =>
    rw [hget] at h
    cases h
  | some run =>
    rw [hget] at h
    dsimp only at h
    rcases mem_of_get? hget with ⟨hrun, -⟩
    split at h
    · cases h
    · next hcancel =>
      split at h
      · cases h
      · split at h
        · split at h
          · cases h
            exact .refl
          · cases h
        · next hterm =>
          cases h
          refine evolves_setRun hrun rfl (.inr ⟨rfl, hterm, id, ?_, ?_⟩)
          · rintro (rfl : state = .running)
            right
            by_contra hrequested
            exact hcancel ⟨rfl, hrequested⟩
          · -- an outcome is written with a terminal state only
            intro hfinished
            by_cases hnew : state.Terminal
            · exact .inr (.inr hnew)
            · left
              unfold transitioned at hfinished
              dsimp only at hfinished
              rw [if_neg (fun h => hnew h.1)] at hfinished
              exact hfinished

/-! ## What evolving keeps -/

/-- A terminal run is the same row for good. -/
theorem Evolves.terminalRun (h : Evolves db db') {r : ScriptRunRecord} (hr : r ∈ db.runs)
    (hterm : r.state.Terminal) : r ∈ db'.runs := by
  rcases h.runs r hr with ⟨r', hr', rfl | ⟨-, hactive, -⟩⟩
  · exact hr'
  · exact absurd hterm hactive

/-- A terminal receipt is the same row for good. -/
theorem Evolves.terminalCall (h : Evolves db db') {c : ScriptCallRow} (hc : c ∈ db.calls)
    (hterm : c.state.Terminal) : c ∈ db'.calls := by
  rcases h.calls c hc with ⟨c', hc', rfl | ⟨-, hactive⟩⟩
  · exact hc'
  · exact absurd hterm hactive

theorem Evolves.callKey (h : Evolves db db') {k : String × String}
    (hk : ∃ c ∈ db.calls, key c = k) : ∃ c ∈ db'.calls, key c = k := by
  rcases hk with ⟨c, hc, rfl⟩
  rcases h.calls c hc with ⟨c', hc', rfl | ⟨hkey, -⟩⟩
  · exact ⟨c', hc', rfl⟩
  · exact ⟨c', hc', hkey⟩

theorem RunStep.revoked {r r' : ScriptRunRecord} (h : RunStep r r') (hr : Revoked r) : Revoked r' := by
  rcases h with rfl | ⟨-, hactive, hcancel, -⟩
  · exact hr
  · exact .inl (hcancel (hr.resolve_right hactive))

theorem RunStep.runId {r r' : ScriptRunRecord} (h : RunStep r r') : r'.runId = r.runId := by
  rcases h with rfl | ⟨hid, -⟩
  · rfl
  · exact hid

/-- A revoked run does not start running. -/
theorem RunStep.running {r r' : ScriptRunRecord} (h : RunStep r r') (hr : Revoked r)
    (hrunning : r'.state = .running) : r.state = .running := by
  rcases h with rfl | ⟨-, hactive, -, hstart, -⟩
  · exact hrunning
  · exact (hstart hrunning).resolve_right (hr.resolve_right hactive)

theorem Evolves.outcomeRevoked (h : Evolves db db') (hinv : OutcomeRevoked db) :
    OutcomeRevoked db' := by
  intro r' hr' hfinished
  rcases h.oldRuns r' hr' with ⟨r, hr, hstep⟩ | ⟨-, hnew⟩
  · rcases hstep with rfl | ⟨-, hactive, hcancel, -, houtcome⟩
    · exact hinv r' hr hfinished
    · rcases houtcome hfinished with hold | hnew
      · exact .inl (hcancel ((hinv r hr hold).resolve_right hactive))
      · exact hnew
  · exact absurd hnew hfinished

end MindRoom
