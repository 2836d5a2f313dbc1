import MindRoom.CompactionInputs
import MindRoom.Datetimes
import MindRoom.ScriptRunSafety

/-! # The rate limit of script calls

`claim_call` reads the clock twice, once for the creation time of the call and once for the start of the
window, and counts the calls whose stored text is not before the text of the window's start. The texts are
in the order of the times except within one second, where a text without a fraction comes last, and the
window moves on between the readings. A call that is missed for either reason does not count.
-/

namespace MindRoom

open ScriptRunStore Datetimes

/-! ## Creation times as texts -/

/-- `"+00:00"`. -/
def utcOffset : List Char := ['+', '0', '0', ':', '0', '0']

/-- `t.isoformat().replace("+00:00", "Z")`. -/
def utcText (t : Datetime) : String :=
  String.ofList (CompactionInputs.replace utcOffset ['Z'] t.isoformat.length t.isoformat)

theorem replace_utcOffset {text : List Char} (h : '+' ∉ text) (fuel : Nat) :
    CompactionInputs.replace utcOffset ['Z'] (text.length + 6 + fuel) (text ++ utcOffset) = text ++ ['Z'] := by
  induction text with
  | nil =>
    have hnil : ∀ fuel, CompactionInputs.replace utcOffset ['Z'] fuel [] = [] := by
      intro fuel
      cases fuel <;> rfl
    rw [show ([] : List Char).length + 6 + fuel = (5 + fuel) + 1 by simp; omega]
    unfold utcOffset CompactionInputs.replace
    simp only [List.nil_append]
    rw [if_pos (by decide)]
    exact congrArg (['Z'] ++ ·) (hnil _)
  | cons c text ih =>
    rw [List.mem_cons, not_or] at h
    have hnot : ¬ utcOffset.isPrefixOf (c :: (text ++ utcOffset)) = true := by
      unfold utcOffset
      rw [List.isPrefixOf_cons_cons, Bool.and_eq_true, not_and]
      intro heq
      exact absurd (by simpa using heq) h.1
    rw [show (c :: text).length + 6 + fuel = (text.length + 6 + fuel) + 1 by simp; omega, List.cons_append,
      CompactionInputs.replace, if_neg hnot, ih h.2, List.cons_append]

theorem plus_not_mem_pad (width n : Nat) : '+' ∉ pad width n := by
  induction width generalizing n with
  | zero => exact List.not_mem_nil
  | succ width ih =>
    have hdigits : ∀ d < 10, '+' ≠ Nat.digitChar d := by decide
    have hdigit := hdigits (n % 10) (by omega)
    rw [pad, List.mem_append, List.mem_singleton, not_or]
    exact ⟨ih _, hdigit⟩

/-- The text is the stamp, the fraction and the letter for the offset. -/
theorem toList_utcText (t : Datetime) : (utcText t).toList = t.stamp ++ (t.fraction ++ ['Z']) := by
  have hstamp : '+' ∉ t.stamp := by
    unfold Datetime.stamp
    simp [plus_not_mem_pad]
  have hfraction : '+' ∉ t.fraction := by
    unfold Datetime.fraction
    split
    · exact List.not_mem_nil
    · simp [plus_not_mem_pad]
  have hplain : '+' ∉ t.stamp ++ t.fraction := by simp [hstamp, hfraction]
  have hreplace := replace_utcOffset hplain 0
  unfold utcText Datetime.isoformat
  rw [String.toList_ofList, ← List.append_assoc]
  change CompactionInputs.replace utcOffset ['Z'] (t.stamp ++ t.fraction ++ utcOffset).length
    (t.stamp ++ t.fraction ++ utcOffset) = _
  rw [List.length_append]
  exact hreplace

/-- The text of a time in the window that comes before the text of its start: the window starts on a full
second, and the time has a fraction of that second. -/
def HidesBefore (windowStart created : Datetime) : Prop :=
  windowStart.microsecond = 0 ∧ created.seconds = windowStart.seconds ∧ created.microsecond ≠ 0

instance (windowStart created : Datetime) : Decidable (HidesBefore windowStart created) := by
  unfold HidesBefore
  infer_instance

/-- Texts are in the order of the times, apart from one second. -/
theorem utcText_le {windowStart created : Datetime} (h : windowStart.micros ≤ created.micros)
    (hshown : ¬ HidesBefore windowStart created) : utcText windowStart ≤ utcText created := by
  have hvalid := windowStart.validTime
  have hvalid' := created.validTime
  rw [String.le_iff_toList_le, toList_utcText, toList_utcText]
  unfold Datetime.micros at h
  rcases lt_or_eq_of_le (show windowStart.seconds ≤ created.seconds by omega) with hless | hsame
  · apply le_of_lt
    rw [append_lt_append ((length_stamp _).trans (length_stamp _).symm)]
    exact .inl (stamp_lt hless)
  · rw [← not_lt, stamp_eq hsame, append_lt_append rfl]
    rintro (hless | ⟨-, hless⟩)
    · exact lt_irrefl _ hless
    · unfold Datetime.fraction at hless
      by_cases hwhole : windowStart.microsecond = 0
      · have hzero : created.microsecond = 0 := by
          by_contra hne
          exact hshown ⟨hwhole, hsame.symm, hne⟩
        rw [if_pos hwhole, if_pos hzero] at hless
        exact lt_irrefl _ hless
      · rw [if_neg hwhole, if_neg (by omega), List.cons_append, List.cons_append, List.cons_lt_cons_self,
          pad_append_lt (by omega) (by omega)] at hless
        rcases hless with hless | ⟨-, hless⟩
        · omega
        · exact lt_irrefl _ hless

/-! ## Runs with a clock -/

structure MadeCall where
  runId : String
  callId : String
  createdAt : Datetime
deriving DecidableEq

/-- The broker over its store, the last reading of the clock, and the calls that were created, last first. -/
structure RatedWorld where
  world : ScriptWorld
  clock : Datetime
  made : List MadeCall

inductive RatedLabel where
  /-- A claim reads the clock for the creation time and again for the start of the window. -/
  | claim (runId callId : String) (grant : ScriptToolGrant) (digest : String) (now later : Datetime)
  | other (label : ScriptLabel)

/-- Claims are the steps that read the clock here. -/
def IsClaim : ScriptLabel → Prop
  | .claim .. => True
  | _ => False

/-- One step. A repeated claim creates no call. -/
def ratedStep (host : ScriptHost) : RatedLabel → RatedWorld → RatedWorld → Prop
  | .claim runId callId grant digest now later, w, w' =>
    w.clock.micros ≤ now.micros ∧ now.micros ≤ later.micros ∧ w'.clock = later ∧
      (∃ windowStart, later.minuteBefore = some windowStart ∧
        scriptStep host (.claim runId callId grant digest (utcText now) (utcText windowStart)) w.world w'.world) ∧
      w'.made = if w.world.db.calls.get? (runId, callId) = none then ⟨runId, callId, now⟩ :: w.made else w.made
  | .other label, w, w' =>
    ¬ IsClaim label ∧ scriptStep host label w.world w'.world ∧ w'.clock = w.clock ∧ w'.made = w.made

/-- The broker under a clock that never decreases. -/
def ratedSystem (host : ScriptHost) : System RatedWorld RatedLabel where
  start w := (scriptSystem host).start w.world ∧ w.made = []
  step := ratedStep host

/-- A call of the run that was created within the 60 seconds before a time. -/
def Recent (runId : String) (now : Datetime) (call : MadeCall) : Prop :=
  call.runId = runId ∧ now.micros ≤ call.createdAt.micros + 60 * 10 ^ 6

instance (runId : String) (now : Datetime) : DecidablePred (Recent runId now) := fun _ =>
  inferInstanceAs (Decidable (_ ∧ _))

/-- When each call was created, no more calls of its run than the limit were created within 60 seconds. -/
def WithinRate (w : RatedWorld) : Prop :=
  ∀ call rest, call :: rest <:+ w.made → ∀ run ∈ w.world.db.runs, run.runId = call.runId →
    (((call :: rest).filter (Recent call.runId call.createdAt ·)).length : Int) ≤ run.maxToolCallsPerMinute

/-- The claim misses no call of its window: no call of the run lies between the starts of the windows of the
two readings, and none has a fraction of the full second on which the later one starts. -/
def MissesNone : RatedLabel → RatedWorld → Prop
  | .claim runId _ _ _ now later, w => ∀ windowStart, later.minuteBefore = some windowStart →
      ∀ call ∈ w.made, Recent runId now call →
        windowStart.micros ≤ call.createdAt.micros ∧ ¬ HidesBefore windowStart call.createdAt
  | .other _, _ => True

/-! ## What the other operations keep -/

/-- The limits of the runs and the creation times of the calls stay as they are. -/
structure KeepsRate (db db' : ScriptRunDB) : Prop where
  runs : ∀ r' ∈ db'.runs, (∃ r ∈ db.runs, r.runId = r'.runId ∧ r.maxToolCallsPerMinute = r'.maxToolCallsPerMinute) ∨
    ∀ r ∈ db.runs, r.runId ≠ r'.runId
  oldRuns : ∀ r ∈ db.runs, ∃ r' ∈ db'.runs, r'.runId = r.runId
  calls : ∀ c ∈ db.calls, ∃ c' ∈ db'.calls, key c' = key c ∧ c'.createdAt = c.createdAt

section

variable {host : ScriptHost} {db db' : ScriptRunDB}

theorem KeepsRate.refl : KeepsRate db db :=
  ⟨fun r hr => .inl ⟨r, hr, rfl, rfl⟩, fun r hr => ⟨r, hr, rfl⟩, fun c hc => ⟨c, hc, rfl, rfl⟩⟩

theorem keepsRate_setRun {run updated : ScriptRunRecord} (hrun : run ∈ db.runs)
    (hid : updated.runId = run.runId) (hlimit : run.maxToolCallsPerMinute = updated.maxToolCallsPerMinute) :
    KeepsRate db (setRun updated db) := by
  have hmem := fun r' => @mem_setRun db updated r' ⟨run, hrun, hid.symm⟩
  refine ⟨?_, ?_, fun c hc => ⟨c, hc, rfl, rfl⟩⟩
  · intro r' hr'
    rcases (hmem r').mp hr' with rfl | ⟨hold, -⟩
    · exact .inl ⟨run, hrun, hid.symm, hlimit⟩
    · exact .inl ⟨r', hold, rfl, rfl⟩
  · intro r hr
    by_cases hsame : r.runId = updated.runId
    · exact ⟨updated, (hmem updated).mpr (.inl rfl), hsame.symm⟩
    · exact ⟨r, (hmem r).mpr (.inr ⟨hr, hsame⟩), rfl⟩

theorem keepsRate_setReceipt {runId callId receiptJson : String} {state : ScriptCallState} :
    KeepsRate db (setReceipt runId callId state receiptJson db) := by
  refine ⟨fun r hr => .inl ⟨r, hr, rfl, rfl⟩, fun r hr => ⟨r, hr, rfl⟩, ?_⟩
  intro c hc
  have hcalls : ∀ c', c' ∈ (setReceipt runId callId state receiptJson db).calls ↔
      (∃ c₀ ∈ db.calls, (c₀.runId = runId ∧ c₀.callId = callId) ∧
        { c₀ with state := state, receiptJson := some receiptJson } = c') ∨
      (c' ∈ db.calls ∧ ¬ (c'.runId = runId ∧ c'.callId = callId)) := fun c' =>
    @Table.mem_update _ _ _ _ _ _ c' (by intro _; rfl) _
  by_cases hown : c.runId = runId ∧ c.callId = callId
  · exact ⟨_, (hcalls _).mpr (.inl ⟨c, hc, hown, rfl⟩), rfl, rfl⟩
  · exact ⟨c, (hcalls c).mpr (.inr ⟨hc, hown⟩), rfl, rfl⟩

theorem createRun_keepsRate {run a : ScriptRunRecord} (h : createRun run db = .ok (a, db')) : KeepsRate db db' := by
  unfold createRun at h
  split at h
  · cases h
  · split at h
    · cases h
    · cases hinsert : db.runs.insert? run with
      | none =>
        rw [hinsert] at h
        cases h
      | some runs =>
        rw [hinsert] at h
        cases h
        have hmem : ∀ r, r ∈ runs ↔ r ∈ db.runs ∨ r = run := fun r => Table.mem_insert? hinsert
        refine ⟨?_, fun r hr => ⟨r, (hmem r).mpr (.inl hr), rfl⟩, fun c hc => ⟨c, hc, rfl, rfl⟩⟩
        intro r' hr'
        rcases (hmem r').mp hr' with hold | rfl
        · exact .inl ⟨r', hold, rfl, rfl⟩
        · exact .inr (Table.key_ne_of_insert? hinsert)

theorem publishCallResult_keepsRate {runId callId : String} {state : ScriptCallState} {result error : Json}
    {a : ScriptCallRecord} (h : publishCallResult host runId callId state result error db = .ok (a, db')) :
    KeepsRate db db' := by
  unfold publishCallResult at h
  split at h
  · cases h
  · rcases Transaction.except_bind_eq_ok.mp h with ⟨receiptJson, -, h⟩
    cases hrow : db.calls.get? (runId, callId) with
    | none =>
      rw [hrow] at h
      cases h
    | some row =>
      rw [hrow] at h
      dsimp only at h
      split at h
      · split at h
        · cases h
          exact .refl
        · cases h
      · cases h
        exact keepsRate_setReceipt

theorem settleOrphanedCall_keepsRate {runId callId : String} {error : Json} {a : ScriptCallRecord}
    (h : settleOrphanedCall host runId callId error db = .ok (a, db')) : KeepsRate db db' := by
  unfold settleOrphanedCall at h
  rcases Transaction.except_bind_eq_ok.mp h with ⟨receiptJson, -, h⟩
  cases hrow : db.calls.get? (runId, callId) with
  | none =>
    rw [hrow] at h
    cases h
  | some row =>
    rw [hrow] at h
    dsimp only at h
    split at h
    · cases h
      exact .refl
    · cases h
      exact keepsRate_setReceipt

theorem requestCancel_keepsRate {runId now : String} {reason : Option String} {a : ScriptRunRecord}
    (h : requestCancel runId reason now db = .ok (a, db')) : KeepsRate db db' := by
  unfold requestCancel at h
  cases hget : db.runs.get? runId with
  | none =>
    rw [hget] at h
    cases h
  | some run =>
    rw [hget] at h
    dsimp only at h
    split at h
    · cases h
      exact .refl
    · cases h
      exact keepsRate_setRun (mem_of_get? hget).1 rfl rfl

theorem recordProcessExit_keepsRate {runId output cancellationReason now : String} {exitCode : Option Int}
    {error : Option String} {a : ScriptRunRecord}
    (h : recordProcessExit runId exitCode error output cancellationReason now db = .ok (a, db')) :
    KeepsRate db db' := by
  unfold recordProcessExit at h
  rcases Transaction.except_bind_eq_ok.mp h with ⟨_, -, h⟩
  rcases Transaction.except_bind_eq_ok.mp h with ⟨_, -, h⟩
  cases hget : db.runs.get? runId with
  | none =>
    rw [hget] at h
    cases h
  | some run =>
    rw [hget] at h
    dsimp only at h
    split at h
    · cases h
      exact .refl
    · cases h
      exact keepsRate_setRun (mem_of_get? hget).1 rfl rfl

theorem finalizeCleanedRun_keepsRate {runId now : String} {state : ScriptRunState} {error : Option String}
    {a : ScriptRunRecord} (h : finalizeCleanedRun runId state error now db = .ok (a, db')) :
    KeepsRate db db' := by
  unfold finalizeCleanedRun at h
  split at h
  · cases h
  · cases hget : db.runs.get? runId with
    | none =>
      rw [hget] at h
      cases h
    | some run =>
      rw [hget] at h
      dsimp only at h
      split at h
      · cases h
        exact .refl
      · split at h
        · cases h
        · cases h
          exact keepsRate_setRun (mem_of_get? hget).1 rfl rfl

theorem transitionRun_keepsRate {runId now : String} {state : ScriptRunState} {workerId error : Option String}
    {exitCode : Option Int} {a : ScriptRunRecord}
    (h : transitionRun runId state workerId exitCode error now db = .ok (a, db')) : KeepsRate db db' := by
  unfold transitionRun at h
  rcases Transaction.except_bind_eq_ok.mp h with ⟨_, -, h⟩
  cases hget : db.runs.get? runId with
  | none =>
    rw [hget] at h
    cases h
  | some run =>
    rw [hget] at h
    dsimp only at h
    split at h
    · cases h
    · split at h
      · cases h
      · split at h
        · split at h
          · cases h
            exact .refl
          · cases h
        · cases h
          exact keepsRate_setRun (mem_of_get? hget).1 rfl rfl

/-- Only a claim makes calls. -/
theorem step_keepsRate {w w' : ScriptWorld} {label : ScriptLabel} (hlabel : ¬ IsClaim label)
    (h : scriptStep host label w w') : KeepsRate w.db w'.db := by
  cases label with
  | create =>
    rcases h with ⟨-, a, db', h, rfl⟩
    exact createRun_keepsRate h
  | transition =>
    rcases h with ⟨a, db', h, rfl⟩
    exact transitionRun_keepsRate h
  | claim => exact absurd trivial hlabel
  | dispatch =>
    rcases h with ⟨-, -, rfl⟩
    exact .refl
  | execute =>
    rcases h with ⟨-, -, rfl⟩
    exact .refl
  | publish =>
    rcases h with ⟨a, db', h, rfl⟩
    exact publishCallResult_keepsRate h
  | settle =>
    rcases h with ⟨a, db', h, rfl⟩
    exact settleOrphanedCall_keepsRate h
  | cancel =>
    rcases h with ⟨a, db', h, rfl⟩
    exact requestCancel_keepsRate h
  | exit =>
    rcases h with ⟨a, db', h, rfl⟩
    exact recordProcessExit_keepsRate h
  | finalize =>
    rcases h with ⟨a, db', h, rfl⟩
    exact finalizeCleanedRun_keepsRate h
  | drop =>
    cases h
    exact .refl
  | restart =>
    cases h
    exact .refl

end

/-! ## Claims -/

section

variable {host : ScriptHost} {db db' : ScriptRunDB} {w w' : RatedWorld} {runId callId digest : String}
  {grant : ScriptToolGrant} {now later windowStart : Datetime}

/-- What a claim does: nothing where the call is there, and otherwise it adds the call, below the limit. -/
theorem claimCall_eq_ok {now windowStart : String} {claim : ScriptCallClaim}
    (h : claimCall host runId callId grant digest now windowStart db = .ok (claim, db')) :
    (db.calls.get? (runId, callId) ≠ none ∧ db' = db) ∨ (db.calls.get? (runId, callId) = none ∧
        (∃ run ∈ db.runs, run.runId = runId ∧
          (recentCallCount runId windowStart db : Int) < run.maxToolCallsPerMinute) ∧
        db' = { db with calls := db.calls.insertOrIgnore ⟨runId, callId, grant, digest, .pending, none, now⟩ }) := by
  unfold claimCall at h
  cases hcall : db.calls.get? (runId, callId) with
  | some row =>
    rw [hcall] at h
    dsimp only at h
    split at h
    · cases h
    · cases h
      exact .inl ⟨nofun, rfl⟩
  | none =>
    rw [hcall] at h
    cases hrun : db.runs.get? runId with
    | none =>
      rw [hrun] at h
      cases h
    | some run =>
      rw [hrun] at h
      dsimp only at h
      split at h
      · cases h
      · split at h
        · cases h
        · split at h
          · cases h
          · next hlimit =>
            cases h
            rcases mem_of_get? hrun with ⟨hmem, hid⟩
            exact .inr ⟨rfl, ⟨run, hmem, hid, not_le.mp hlimit⟩, rfl⟩

/-- The calls that were created, and their rows. -/
structure Rated (w : RatedWorld) : Prop where
  stored : ∀ call ∈ w.made, ∃ c ∈ w.world.db.calls, key c = (call.runId, call.callId) ∧
    c.createdAt = utcText call.createdAt
  owned : ∀ call ∈ w.made, ∃ run ∈ w.world.db.runs, run.runId = call.runId
  distinct : (w.made.map fun call => (call.runId, call.callId)).Nodup
  limited : WithinRate w

/-- The calls of a window are among those that the texts count, if none is missed. -/
theorem Rated.recent_le (h : Rated w) (hshown : ∀ call ∈ w.made, Recent runId now call →
      windowStart.micros ≤ call.createdAt.micros ∧ ¬ HidesBefore windowStart call.createdAt) :
    (w.made.filter (Recent runId now ·)).length ≤ recentCallCount runId (utcText windowStart) w.world.db := by
  have hdistinct : ((w.made.filter (Recent runId now ·)).map fun call => (call.runId, call.callId)).Nodup :=
    h.distinct.sublist (List.filter_sublist.map _)
  have hcounted : (w.made.filter (Recent runId now ·)).map (fun call => (call.runId, call.callId)) ⊆
      (w.world.db.calls.select fun c => c.runId = runId ∧ utcText windowStart ≤ c.createdAt).map key := by
    intro k hk
    rcases List.mem_map.mp hk with ⟨call, hcall, rfl⟩
    rcases List.mem_filter.mp hcall with ⟨hmade, hrecent⟩
    have hrecent : Recent runId now call := of_decide_eq_true hrecent
    rcases h.stored call hmade with ⟨c, hc, hkey, hcreated⟩
    rcases hshown call hmade hrecent with ⟨hwindow, hhidden⟩
    refine List.mem_map.mpr ⟨c, Table.mem_select.mpr ⟨hc, ?_, ?_⟩, hkey⟩
    · exact (congrArg Prod.fst hkey).trans hrecent.1
    · rw [hcreated]
      exact utcText_le hwindow hhidden
  have hlength := (List.subperm_of_subset hdistinct hcounted).length_le
  rw [List.length_map, List.length_map] at hlength
  exact hlength

theorem mem_suffix_cons {call new : MadeCall} {rest made : List MadeCall} (h : call :: rest <:+ new :: made) :
    (call = new ∧ rest = made) ∨ call :: rest <:+ made := by
  rcases List.suffix_cons_iff.mp h with heq | hsuffix
  · rw [List.cons.injEq] at heq
    exact .inl heq
  · exact .inr hsuffix

/-- A claim keeps every run within its rate, as long as it misses no call. -/
theorem Rated.claim (h : Rated w) (hshown : MissesNone (.claim runId callId grant digest now later) w)
    (hstep : ratedStep host (.claim runId callId grant digest now later) w w') : Rated w' := by
  rcases hstep with ⟨-, -, -, ⟨windowStart, hwindow, claim, db', hclaim, hworld⟩, hmade⟩
  have hshown := hshown windowStart hwindow
  have hdb : w'.world.db = db' := by rw [hworld]
  rcases claimCall_eq_ok hclaim with ⟨hold, rfl⟩ | ⟨hfresh, ⟨run, hrun, hid, hlimit⟩, rfl⟩
  · rw [if_neg hold] at hmade
    refine ⟨?_, ?_, ?_, ?_⟩
    · rw [hmade, hdb]
      exact h.stored
    · rw [hmade, hdb]
      exact h.owned
    · rw [hmade]
      exact h.distinct
    · unfold WithinRate
      rw [hmade, hdb]
      exact h.limited
  · rw [if_pos hfresh] at hmade
    have hnone := Table.get?_eq_none.mp hfresh
    have hruns : w'.world.db.runs = w.world.db.runs := by rw [hdb]
    have hcalls : ∀ c, c ∈ w'.world.db.calls ↔ c ∈ w.world.db.calls ∨
        (c = ⟨runId, callId, grant, digest, .pending, none, utcText now⟩ ∧
          ∀ c' ∈ w.world.db.calls, key c' ≠ (runId, callId)) := by
      intro c
      rw [hdb]
      exact Table.mem_insertOrIgnore
    refine ⟨?_, ?_, ?_, ?_⟩
    · rw [hmade]
      intro call hcall
      rcases List.mem_cons.mp hcall with rfl | hcall
      · exact ⟨_, (hcalls _).mpr (.inr ⟨rfl, hnone⟩), rfl, rfl⟩
      · rcases h.stored call hcall with ⟨c, hc, hrow⟩
        exact ⟨c, (hcalls c).mpr (.inl hc), hrow⟩
    · rw [hmade, hruns]
      intro call hcall
      rcases List.mem_cons.mp hcall with rfl | hcall
      · exact ⟨run, hrun, hid⟩
      · exact h.owned call hcall
    · rw [hmade, List.map_cons, List.nodup_cons]
      refine ⟨?_, h.distinct⟩
      intro hrepeated
      rcases List.mem_map.mp hrepeated with ⟨call, hcall, hkey⟩
      rcases h.stored call hcall with ⟨c, hc, hrow, -⟩
      exact hnone c hc (hrow.trans hkey)
    · intro call rest hsuffix r hr hrid
      rw [hmade] at hsuffix
      rw [hruns] at hr
      rcases mem_suffix_cons hsuffix with ⟨rfl, rfl⟩ | hsuffix
      · have hsame : r = run := Table.eq_of_key_eq hr hrun (hrid.trans hid.symm)
        have hrecent := h.recent_le hshown
        have hself : Recent runId now ⟨runId, callId, now⟩ := ⟨rfl, Nat.le_add_right _ _⟩
        have hlength : ((⟨runId, callId, now⟩ :: w.made).filter (Recent runId now ·)).length =
            (w.made.filter (Recent runId now ·)).length + 1 := by
          rw [List.filter_cons, if_pos (decide_eq_true hself), List.length_cons]
        change ((((⟨runId, callId, now⟩ : MadeCall) :: w.made).filter (Recent runId now ·)).length : Int) ≤ _
        rw [hsame, hlength]
        push_cast
        omega
      · exact h.limited call rest hsuffix r hr hrid

/-- The other steps make no calls. -/
theorem Rated.other {label : ScriptLabel} (h : Rated w) (hstep : ratedStep host (.other label) w w') : Rated w' := by
  rcases hstep with ⟨hlabel, hstep, -, hmade⟩
  have hkeeps := step_keepsRate hlabel hstep
  refine ⟨?_, ?_, ?_, ?_⟩
  · rw [hmade]
    intro call hcall
    rcases h.stored call hcall with ⟨c, hc, hkey, hcreated⟩
    rcases hkeeps.calls c hc with ⟨c', hc', hkey', hcreated'⟩
    exact ⟨c', hc', hkey'.trans hkey, hcreated'.trans hcreated⟩
  · rw [hmade]
    intro call hcall
    rcases h.owned call hcall with ⟨run, hrun, hid⟩
    rcases hkeeps.oldRuns run hrun with ⟨run', hrun', hid'⟩
    exact ⟨run', hrun', hid'.trans hid⟩
  · rw [hmade]
    exact h.distinct
  · intro call rest hsuffix r' hr' hid
    rw [hmade] at hsuffix
    rcases hkeeps.runs r' hr' with ⟨r, hr, hsame, hlimit⟩ | hnew
    · rw [← hlimit]
      exact h.limited call rest hsuffix r hr (hsame.trans hid)
    · rcases h.owned call (hsuffix.mem List.mem_cons_self) with ⟨run, hrun, howned⟩
      exact absurd (howned.trans hid.symm) (hnew run hrun)

theorem rated_invariant (host : ScriptHost) : ((ratedSystem host).given MissesNone).Invariant Rated where
  start := by
    rintro w ⟨-, hmade⟩
    refine ⟨?_, ?_, ?_, ?_⟩
    · simp [hmade]
    · simp [hmade]
    · simp [hmade]
    · intro call rest hsuffix
      rw [hmade] at hsuffix
      exact absurd (hsuffix.mem List.mem_cons_self) List.not_mem_nil
  step label w w' h hstep := by
    cases label with
    | claim => exact h.claim hstep.1 hstep.2
    | other => exact h.other hstep.2

end

namespace OneCallPerMinute

/-- A run that may call once a minute. -/
def limited : ScriptRunRecord := { OneCall.run with maxToolCallsPerMinute := 1 }

/-- Noon, half a second later, and a minute after noon. -/
def noon : Datetime :=
  ⟨2026, 1, 1, 12, 0, 0, 0, by decide, by decide, by decide, by decide⟩

def halfPast : Datetime :=
  ⟨2026, 1, 1, 12, 0, 0, 500000, by decide, by decide, by decide, by decide⟩

def minutePast : Datetime :=
  ⟨2026, 1, 1, 12, 1, 0, 0, by decide, by decide, by decide, by decide⟩

def started (clock : Datetime) : RatedWorld := ⟨⟨⟨Table.insertOrIgnore ∅ limited, ∅⟩, [], [], [], []⟩, clock, []⟩

def firstRow : ScriptCallRow := ⟨"r", "first", OneCall.grant, "d", .pending, none, utcText halfPast⟩

def secondRow : ScriptCallRow := ⟨"r", "second", OneCall.grant, "d", .pending, none, utcText minutePast⟩

def calledOnce : RatedWorld where
  world := { (started halfPast).world with
    db := ⟨(started halfPast).world.db.runs, Table.insertOrIgnore ∅ firstRow⟩
    claimed := [("r", "first")] }
  clock := halfPast
  made := [⟨"r", "first", halfPast⟩]

def calledTwice : RatedWorld where
  world := { calledOnce.world with
    db := ⟨calledOnce.world.db.runs, calledOnce.world.db.calls.insertOrIgnore secondRow⟩
    claimed := [("r", "second"), ("r", "first")] }
  clock := minutePast
  made := [⟨"r", "second", minutePast⟩, ⟨"r", "first", halfPast⟩]

theorem started_reachable {C : RatedLabel → RatedWorld → Prop}
    (hC : C (.other (.create limited)) ⟨⟨⟨∅, ∅⟩, [], [], [], []⟩, halfPast, []⟩) :
    ((ratedSystem OneCall.plainHost).given C).Reachable (started halfPast) := by
  have hstart : ((ratedSystem OneCall.plainHost).given C).Reachable ⟨⟨⟨∅, ∅⟩, [], [], [], []⟩, halfPast, []⟩ :=
    .start ⟨rfl, rfl⟩
  exact hstart.next (.other (.create limited)) ⟨hC, nofun, ⟨rfl, limited, (started halfPast).world.db, rfl, rfl⟩,
    rfl, rfl⟩

/-- The text of half a second past noon is before the text of noon. -/
theorem noon_hides : ¬ utcText noon ≤ utcText halfPast := by
  rw [String.le_iff_toList_le, toList_utcText, toList_utcText]
  decide

theorem second_claimed : claimCall OneCall.plainHost "r" "second" OneCall.grant "d" (utcText minutePast) (utcText noon)
    calledOnce.world.db = .ok (⟨⟨"r", "second", OneCall.grant, "d", .pending, utcText minutePast, .null, .null⟩, true⟩,
      calledTwice.world.db) := by
  have hcount : recentCallCount "r" (utcText noon) calledOnce.world.db = 0 := by
    change ([firstRow].filter fun c => decide (c.runId = "r" ∧ utcText noon ≤ c.createdAt)).length = 0
    rw [List.filter_cons_of_neg (by simp [firstRow, noon_hides])]
    rfl
  have hcall : calledOnce.world.db.calls.get? ("r", "second") = none := rfl
  have hrun : calledOnce.world.db.runs.get? "r" = some limited := rfl
  unfold claimCall
  rw [hcall]
  dsimp only
  rw [hrun]
  dsimp only
  rw [if_neg (by decide), if_neg (by decide), hcount, if_neg (by decide)]
  rfl

theorem calledOnce_reachable {C : RatedLabel → RatedWorld → Prop}
    (hcreate : C (.other (.create limited)) ⟨⟨⟨∅, ∅⟩, [], [], [], []⟩, halfPast, []⟩)
    (hclaim : C (.claim "r" "first" OneCall.grant "d" halfPast halfPast) (started halfPast)) :
    ((ratedSystem OneCall.plainHost).given C).Reachable calledOnce := by
  refine (started_reachable hcreate).next (.claim "r" "first" OneCall.grant "d" halfPast halfPast) ⟨hclaim, le_rfl, le_rfl, rfl,
    ⟨⟨2026, 1, 1, 11, 59, 0, 500000, by decide, by decide, by decide, by decide⟩, rfl, ?_⟩, rfl⟩
  exact ⟨⟨⟨"r", "first", OneCall.grant, "d", .pending, utcText halfPast, .null, .null⟩, true⟩, calledOnce.world.db, rfl, rfl⟩

end OneCallPerMinute

end MindRoom
