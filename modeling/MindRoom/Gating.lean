import Mathlib
import MindRoom.StoreWrites

/-! # Approval gating

A paused run is executed only when every call of its generation has a decision, and once for
each generation. The first is an invariant of the run and call tables; the second follows from
the place of a run in its life, which never goes back while approval ids are not reused.
-/

namespace MindRoom

open Transaction ApprovalContinuations

/-! ## The invariant -/

def ContinuationRow.Executable (r : ContinuationRow) : Prop := r.state = .ready ∨ r.state = .claimed

/-- What the run and call tables keep. -/
structure DB.Gated (db : DB) : Prop where
  /-- every call belongs to a run -/
  owned : ∀ call ∈ db.approvalContinuationCalls, ∃ r ∈ db.approvalContinuations,
    r.principalId = call.principalId ∧ r.approvalId = call.approvalId
  /-- an executable run waits for no call -/
  decided : ∀ r ∈ db.approvalContinuations, r.Executable →
    ∀ call ∈ db.approvalContinuationCalls, call.principalId = r.principalId →
      call.approvalId = r.approvalId → call.generation = r.generation → call.decision ≠ none

theorem gated_init (clock : ℕ → Int) : (DB.init clock).Gated :=
  ⟨fun _ h => absurd h Table.not_mem_empty, fun _ h => absurd h Table.not_mem_empty⟩

/-! ### The parts of a transition -/

theorem mem_newCallRows {p a : String} {g : Int} {calls : List ApprovalCall}
    {row : ContinuationCallRow} (h : row ∈ newCallRows p a g calls) :
    ∃ call ∈ calls, row.principalId = p ∧ row.approvalId = a ∧ row.generation = g ∧ row.decision = call.decision := by
  unfold newCallRows at h
  obtain ⟨i, hi, rfl⟩ := List.mem_mapIdx.mp h
  exact ⟨calls[i], List.getElem_mem hi, rfl, rfl, rfl, rfl⟩

namespace ContinuationRow.Moves

variable {db : DB} {r r' : ContinuationRow}

theorem principalId (h : r.Moves db r') : r'.principalId = r.principalId := by
  cases h <;> rfl

theorem approvalId (h : r.Moves db r') : r'.approvalId = r.approvalId := by
  cases h <;> rfl

/-- A run becomes executable only when nothing of its generation is undecided. -/
theorem executable (h : r.Moves db r') (hx : r'.Executable) : (r.Executable ∧ r'.generation = r.generation) ∨
      (r'.generation = r.generation ∧ ¬ Undecided db r.principalId r.approvalId r.generation) := by
  cases h with
  | claim runtime context h => exact .inl ⟨.inl h, rfl⟩
  | activate h state hs =>
    rcases hs with hs | ⟨_, hd⟩
    · rcases hx with hx | hx <;> exact absurd (hs.symm.trans hx) (by decide)
    · exact .inr ⟨rfl, hd⟩
  | ready h hd => exact .inr ⟨rfl, hd⟩
  | fail reason runtime => rcases hx with hx | hx <;> cases hx

end ContinuationRow.Moves

/-- A paused run starts out waiting, or ready where every call was decided by policy. -/
def ApprovalContinuation.Paused (c : ApprovalContinuation) : Prop :=
  c.state = .waiting ∨ c.state = .ready ∧ ∀ call ∈ c.calls, call.decision ≠ none

namespace DB.Gated

variable {db : DB}

theorem of_tables {db' : DB} (h : db.Gated) (hr : db'.approvalContinuations = db.approvalContinuations)
    (hc : db'.approvalContinuationCalls = db.approvalContinuationCalls) : db'.Gated where
  owned := by
    rw [hr, hc]
    exact h.owned
  decided := by
    rw [hr, hc]
    exact h.decided

/-- Decisions only help: an update of calls that never takes a decision away. -/
theorem update_calls (h : db.Gated) {q : ContinuationCallRow → Prop} [DecidablePred q]
    {f : ContinuationCallRow → ContinuationCallRow} (hf : ∀ r, key (f r) = key r)
    {db' : DB} (hr : db'.approvalContinuations = db.approvalContinuations)
    (hc : db'.approvalContinuationCalls = db.approvalContinuationCalls.update q f hf)
    (hd : ∀ r, (f r).decision ≠ none) : db'.Gated where
  owned := by
    rw [hr, hc]
    intro call hcall
    rcases Table.mem_update.mp hcall with ⟨old, hold, _, rfl⟩ | ⟨hold, _⟩
    · obtain ⟨r, hrow, hp, ha⟩ := h.owned old hold
      have hk : key (f old) = key old := hf old
      have hp' : (f old).principalId = old.principalId := congrArg Prod.fst hk
      have ha' : (f old).approvalId = old.approvalId := congrArg (fun k => k.2.1) hk
      exact ⟨r, hrow, hp.trans hp'.symm, ha.trans ha'.symm⟩
    · exact h.owned call hold
  decided := by
    rw [hr, hc]
    intro r hrow hx call hcall hp ha hg
    rcases Table.mem_update.mp hcall with ⟨old, _, _, rfl⟩ | ⟨hold, _⟩
    · exact hd old
    · exact h.decided r hrow hx call hold hp ha hg

/-- A new run brings its own calls. -/
theorem pause (h : db.Gated) {p : String} {c : ApprovalContinuation} {now : Int}
    {calls : Table ContinuationCallRow} {db' : DB} (hpaused : c.Paused)
    (hnew : db.approvalContinuations.get? c.approvalId = none) (hcalls : db.approvalContinuationCalls.insertAll?
      (newCallRows p c.approvalId c.generation c.calls) = some calls)
    (hr : db'.approvalContinuations = db.approvalContinuations.insertOrIgnore (newRow p c now))
    (hc : db'.approvalContinuationCalls = calls) : db'.Gated := by
  have hmem := Table.mem_insertAll? hcalls
  have hfresh := Table.get?_eq_none.mp hnew
  have hinserted : newRow p c now ∈ db'.approvalContinuations := by
    rw [hr]
    exact Table.mem_insertOrIgnore.mpr (.inr ⟨rfl, hfresh⟩)
  have hkept : ∀ r ∈ db.approvalContinuations, r ∈ db'.approvalContinuations := by
    intro r hrow
    rw [hr]
    exact Table.mem_insertOrIgnore.mpr (.inl hrow)
  constructor
  · rw [hc]
    intro call hcall
    rcases (hmem call).mp hcall with hold | hown
    · obtain ⟨r, hrow, hp, ha⟩ := h.owned call hold
      exact ⟨r, hkept r hrow, hp, ha⟩
    · obtain ⟨_, _, hp, ha, _⟩ := mem_newCallRows hown
      exact ⟨_, hinserted, hp.symm, ha.symm⟩
  · rw [hc, hr]
    intro r hrow hx call hcall hp ha hg
    rcases Table.mem_insertOrIgnore.mp hrow with holdrow | ⟨rfl, _⟩
    · rcases (hmem call).mp hcall with hold | hown
      · exact h.decided r holdrow hx call hold hp ha hg
      · -- the new calls are of the new run
        obtain ⟨_, _, _, ha', _⟩ := mem_newCallRows hown
        exact absurd (ha.symm.trans ha') (hfresh r holdrow)
    · rcases (hmem call).mp hcall with hold | hown
      · obtain ⟨owner, howner, _, ha'⟩ := h.owned call hold
        exact absurd (ha'.trans ha) (hfresh owner howner)
      · obtain ⟨own, hmem', _, _, _, hd⟩ := mem_newCallRows hown
        rw [hd]
        rcases hpaused with hw | ⟨_, hdecided⟩
        · have hstate : (newRow p c now).state = .waiting := hw
          rcases hx with hx | hx <;> rw [hstate] at hx <;> cases hx
        · exact hdecided own hmem'

/-- A run moves only as its calls allow. -/
theorem move (h : db.Gated) {q : ContinuationRow → Prop} [DecidablePred q]
    {f : ContinuationRow → ContinuationRow} {hf : ∀ r, key (f r) = key r}
    (hm : ∀ r ∈ db.approvalContinuations, q r → r.Moves db (f r)) : (updateRows q f hf db).Gated := by
  constructor
  · intro call hcall
    obtain ⟨r, hrow, hp, ha⟩ := h.owned call hcall
    by_cases hq : q r
    · have hmoved : f r ∈ db.approvalContinuations.update q f hf :=
        Table.mem_update.mpr (.inl ⟨r, hrow, hq, rfl⟩)
      exact ⟨f r, hmoved, (hm r hrow hq).principalId.trans hp, (hf r).trans ha⟩
    · have hkept : r ∈ db.approvalContinuations.update q f hf :=
        Table.mem_update.mpr (.inr ⟨hrow, hq⟩)
      exact ⟨r, hkept, hp, ha⟩
  · intro r hrow hx call hcall hp ha hg
    change r ∈ db.approvalContinuations.update q f hf at hrow
    rcases Table.mem_update.mp hrow with ⟨old, hold, hq, rfl⟩ | ⟨hold, _⟩
    · have hmove := hm old hold hq
      have hp' := hp.trans hmove.principalId
      have ha' : call.approvalId = old.approvalId := ha.trans (hf old)
      rcases hmove.executable hx with ⟨hold', hgen⟩ | ⟨hgen, hdecided⟩
      · exact h.decided old hold hold' call hcall hp' ha' (hg.trans hgen)
      · exact fun hnone => hdecided ⟨call, hcall, hp', ha', hg.trans hgen, hnone⟩
    · exact h.decided r hold hx call hcall hp ha hg

/-- The next generation of a claimed run starts out waiting. -/
theorem advance (h : db.Gated) {p a : String} {g : Int} {next : Advance}
    {runtime : Option String} {context : ContinuationContext} {calls : Table ContinuationCallRow}
    (hrow : (rowAt db p a).any (fun r => r.state = .claimed ∧ r.generation = g) = true)
    (hcalls : db.approvalContinuationCalls.insertAll? (newCallRows p a (g + 1) next.calls) =
      some calls) {db' : DB}
    (hr : db'.approvalContinuations = db.approvalContinuations.update
      (fun r => r.principalId = p ∧ r.approvalId = a ∧ r.state = .claimed ∧ r.generation = g)
      (fun r =>
        { r with
          state := .waiting
          generation := g + 1
          runtimeGeneration := runtime
          failureReason := none
          contextJson := context })
      (fun _ => rfl))
    (hc : db'.approvalContinuationCalls = calls) : db'.Gated := by
  have hmem := Table.mem_insertAll? hcalls
  obtain ⟨run, hrun, hclaimed⟩ := Option.any_eq_true _ _ |>.mp hrow
  obtain ⟨hget, hprincipal⟩ := Option.filter_eq_some_iff.mp hrun
  obtain ⟨hin, hkey⟩ := Table.get?_eq_some.mp hget
  have hp : run.principalId = p := of_decide_eq_true hprincipal
  have ha : run.approvalId = a := hkey
  obtain ⟨hstate, hgen⟩ := of_decide_eq_true hclaimed
  have hkept : ∀ r ∈ db.approvalContinuations, ∃ r' ∈ db'.approvalContinuations,
      r'.principalId = r.principalId ∧ r'.approvalId = r.approvalId := by
    intro r hr'
    rw [hr]
    by_cases hq : r.principalId = p ∧ r.approvalId = a ∧ r.state = .claimed ∧ r.generation = g
    · exact ⟨_, Table.mem_update.mpr (.inl ⟨r, hr', hq, rfl⟩), rfl, rfl⟩
    · exact ⟨r, Table.mem_update.mpr (.inr ⟨hr', hq⟩), rfl, rfl⟩
  constructor
  · rw [hc]
    intro call hcall
    rcases (hmem call).mp hcall with hold | hown
    · obtain ⟨r, hr₀, hp', ha'⟩ := h.owned call hold
      obtain ⟨r', hr', hp'', ha''⟩ := hkept r hr₀
      exact ⟨r', hr', hp''.trans hp', ha''.trans ha'⟩
    · obtain ⟨_, _, hp', ha', _⟩ := mem_newCallRows hown
      obtain ⟨r', hr', hp'', ha''⟩ := hkept run hin
      exact ⟨r', hr', (hp''.trans hp).trans hp'.symm, (ha''.trans ha).trans ha'.symm⟩
  · rw [hc, hr]
    intro r hr' hx call hcall hpc hac hgc
    rcases Table.mem_update.mp hr' with ⟨old, _, _, rfl⟩ | ⟨hold, hno⟩
    · rcases hx with hx | hx <;> cases hx
    · rcases (hmem call).mp hcall with holdcall | hown
      · exact h.decided r hold hx call holdcall hpc hac hgc
      · -- the new calls are of the run that was advanced, and there is one run of that id
        obtain ⟨_, _, hp', ha', _⟩ := mem_newCallRows hown
        have hsame : r = run := Table.eq_of_key_eq hold hin (hac.symm.trans (ha'.trans ha.symm))
        exact absurd (hsame ▸ ⟨hp, ha, hstate, hgen⟩) hno

/-- A run is deleted with its calls. -/
theorem release (h : db.Gated) (q : ContinuationRow → Prop) [DecidablePred q] : (deleteRows q db).Gated := by
  constructor
  · intro call hcall
    obtain ⟨hold, hno⟩ := Table.mem_delete.mp hcall
    obtain ⟨r, hr, hp, ha⟩ := h.owned call hold
    have hkeep : ¬ q r := fun hq => hno ⟨r, hr, hq, hp, ha⟩
    exact ⟨r, Table.mem_delete.mpr ⟨hr, hkeep⟩, hp, ha⟩
  · intro r hr hx call hcall
    exact h.decided r (Table.mem_delete.mp hr).1 hx call (Table.mem_delete.mp hcall).1

end DB.Gated

/-- Every statement on the approvals keeps the gate. -/
theorem Amends.gated {b : Scope} (hb : ∀ c, b.pauses c → c.Paused) {db db' : DB}
    (ha : Amends b db db') (h : db.Gated) : db'.Gated := by
  cases ha with
  | pause p c now sources calls _ hc hnew hcalls => exact h.pause (hb c hc) hnew hcalls rfl rfl
  | move q f hf hm => exact h.move hm
  | advance p a g next runtime context calls _ hrow hcalls => exact h.advance hrow hcalls rfl rfl
  | release q _ => exact h.release q
  | decide continuation card call decision reason _ _ _ _ =>
    exact h.update_calls (by intro _; rfl) rfl rfl fun _ => Option.some_ne_none _
  | approve p row grant _ _ _ _ => exact h.update_calls (by intro _; rfl) rfl rfl fun _ => Option.some_ne_none _
  | deny card reason => exact h.update_calls (by intro _; rfl) rfl rfl fun _ => Option.some_ne_none _
  | tick | turns | card | deleteCard | carryCard | remember | reserveCall | decideBackground | prune
  | grants | idle => exact h.of_tables rfl rfl

theorem Statement.gated {b : Scope} (hb : ∀ c, b.pauses c → c.Paused) {db db' : DB}
    (hs : Statement b db db') (h : db.Gated) : db'.Gated := by
  rcases hs.amends_or with ha | hrest
  · exact ha.gated hb h
  · exact h.of_tables (congrArg Rest.continuations hrest) (congrArg Rest.calls hrest)

/-! ## The place of a run -/

/-- The order of the states within one generation. -/
def ContinuationState.stage : ContinuationState → ℕ
  | .waiting => 0
  | .ready => 1
  | .claimed => 2
  | .failing => 3

/-- A run goes through its generations in order, and through the states of each. A failing run is
past them all. -/
def ContinuationRow.place (r : ContinuationRow) : WithTop (Int ×ₗ ℕ) :=
  if r.state = .failing then ⊤ else (toLex (r.generation, r.state.stage) : Int ×ₗ ℕ)

/-- The place of the run under one approval id; a deleted run is past its life. -/
def runPlace (db : DB) (a : String) : WithTop (Int ×ₗ ℕ) :=
  match db.approvalContinuations.get? a with
  | none => ⊤
  | some r => r.place

theorem ContinuationRow.place_of_state {r : ContinuationRow} {state : ContinuationState}
    (h : r.state = state) (hf : state ≠ .failing) : r.place = (toLex (r.generation, state.stage) : Int ×ₗ ℕ) := by
  unfold ContinuationRow.place
  rw [h, if_neg hf]

theorem runPlace_of_row {db : DB} {r : ContinuationRow} (h : r ∈ db.approvalContinuations) :
    runPlace db r.approvalId = r.place := by
  have hget : db.approvalContinuations.get? r.approvalId = some r :=
    Table.get?_eq_some.mpr ⟨h, rfl⟩
  unfold runPlace
  rw [hget]

theorem runPlace_congr {db db' : DB} {a : String}
    (h : db'.approvalContinuations.get? a = db.approvalContinuations.get? a) : runPlace db' a = runPlace db a := by
  unfold runPlace
  rw [h]

/-- Within one generation the states come in their order, and a later generation is further. -/
theorem place_le {g g' : Int} {n n' : ℕ} (h : g < g' ∨ g = g' ∧ n ≤ n') :
    ((toLex (g, n) : Int ×ₗ ℕ) : WithTop (Int ×ₗ ℕ)) ≤ (toLex (g', n') : Int ×ₗ ℕ) :=
  WithTop.coe_le_coe.mpr (Prod.Lex.toLex_le_toLex.mpr h)

/-- A transition moves a run on. -/
theorem ContinuationRow.Moves.place_le {db : DB} {r r' : ContinuationRow} (h : r.Moves db r') : r.place ≤ r'.place := by
  cases h with
  | claim runtime context h =>
    rw [ContinuationRow.place_of_state h (by decide)]
    exact MindRoom.place_le (.inr ⟨rfl, Nat.le_succ 1⟩)
  | activate h state hs =>
    rw [ContinuationRow.place_of_state h (by decide)]
    rcases hs with rfl | ⟨rfl, _⟩
    · exact MindRoom.place_le (.inr ⟨rfl, Nat.le_refl 0⟩)
    · exact MindRoom.place_le (.inr ⟨rfl, Nat.le_succ 0⟩)
  | ready h hd =>
    rw [ContinuationRow.place_of_state h (by decide)]
    exact MindRoom.place_le (.inr ⟨rfl, Nat.le_succ 0⟩)
  | fail reason runtime => exact le_top

/-- An id that is not given out again: nothing is paused under it anew. -/
def Scope.Retires (b : Scope) (a : String) : Prop := ∀ c, b.pauses c → c.approvalId ≠ a

/-- No statement moves a run back, while its id is not given out again. -/
theorem Statement.runPlace_le {b : Scope} {a : String} (hb : b.Retires a) {db db' : DB}
    (hs : Statement b db db') : runPlace db a ≤ runPlace db' a := by
  have hsame : db'.approvalContinuations = db.approvalContinuations →
      runPlace db a ≤ runPlace db' a :=
    fun h => le_of_eq (runPlace_congr (congrArg (fun t => t.get? a) h)).symm
  rcases hs.amends_or with ha | hrest
  · cases ha with
    | pause p c now sources calls _ hc hnew hcalls =>
      have hk : ¬ key (newRow p c now) = a := hb c hc
      refine le_of_eq (runPlace_congr ?_).symm
      exact Table.get?_insertOrIgnore.trans (if_neg hk)
    | move q f hf hm =>
      unfold runPlace updateRows
      dsimp only
      rw [Table.get?_update]
      cases hrow : db.approvalContinuations.get? a with
      | none => exact le_rfl
      | some r =>
        dsimp only [Option.map_some]
        split
        · next hq => exact (hm r (Table.get?_eq_some.mp hrow).1 hq).place_le
        · exact le_rfl
    | advance p a' g next runtime context calls _ hrow hcalls =>
      unfold runPlace updateRows
      dsimp only
      rw [Table.get?_update]
      cases hrow' : db.approvalContinuations.get? a with
      | none => exact le_rfl
      | some r =>
        dsimp only [Option.map_some]
        split
        · next hq =>
          obtain ⟨_, _, hstate, hgen⟩ := hq
          rw [ContinuationRow.place_of_state hstate (by decide)]
          have hlater : r.generation < g + 1 := by omega
          exact place_le (.inl hlater)
        · exact le_rfl
    | release q _ =>
      have hdel : (deleteRows q db).approvalContinuations.get? a =
          (db.approvalContinuations.get? a).filter (fun r => ¬ q r) := Table.get?_delete
      unfold runPlace
      rw [hdel]
      cases db.approvalContinuations.get? a with
      | none => exact le_rfl
      | some r =>
        by_cases hq : q r
        · rw [Option.filter_some, if_neg (by simpa using hq)]
          exact le_top
        · rw [Option.filter_some, if_pos (decide_eq_true hq)]
    | tick | turns | card | deleteCard | carryCard | remember | decide | approve | deny | reserveCall
    | decideBackground | prune | grants | idle => exact hsame rfl
  · exact hsame (congrArg Rest.continuations hrest)

/-! ## Claims -/

def Op.ClaimsRun (p a : String) (g : Int) (db : DB) (op : Op) : Prop :=
  match op with
  | .claimApprovalContinuation approvalId runtimeGeneration shown =>
    approvalId = a ∧ ∃ c s', ApprovalContinuations.claim p approvalId runtimeGeneration shown db =
      .ok (some c, s') ∧ c.generation = g
  | _ => False

/-- A claim takes a ready run, and leaves it claimed. -/
theorem claim_eq_some {p a runtime : String} {shown : Option Bool} {c : ApprovalContinuation}
    {db s' : DB} (h : ApprovalContinuations.claim p a runtime shown db = .ok (some c, s')) :
    runPlace db a = (toLex (c.generation, 1) : Int ×ₗ ℕ) ∧ runPlace s' a = (toLex (c.generation, 2) : Int ×ₗ ℕ) := by
  unfold ApprovalContinuations.claim at h
  obtain ⟨_, t, ht, h⟩ := bind_eq_ok.mp h
  obtain ⟨rfl, rfl⟩ := get_eq_ok.mp ht
  cases hload : load db p a with
  | none =>
    rw [hload] at h
    exact absurd (pure_eq_ok.mp h).1 (Option.some_ne_none c).symm
  | some current =>
    rw [hload] at h
    dsimp only at h
    split at h
    · exact absurd (pure_eq_ok.mp h).1 (Option.some_ne_none c).symm
    · next hready =>
      obtain ⟨row, hrow, hstate, hgen, _⟩ := load_row hload
      obtain ⟨hget, hp⟩ := Option.filter_eq_some_iff.mp hrow
      have hstate : row.state = .ready := hstate.trans (not_not.mp hready)
      have ha : row.approvalId = a := (Table.get?_eq_some.mp hget).2
      obtain ⟨shown', _, hliftM, h⟩ := bind_eq_ok.mp h
      obtain ⟨_, rfl⟩ := liftM_eq_ok.mp hliftM
      obtain ⟨_, t, ht, h⟩ := bind_eq_ok.mp h
      obtain rfl := modify_eq_ok.mp ht
      obtain ⟨_, t, ht, h⟩ := bind_eq_ok.mp h
      obtain ⟨rfl, rfl⟩ := get_eq_ok.mp ht
      obtain ⟨hloaded, rfl⟩ := pure_eq_ok.mp h
      obtain ⟨row', hrow', _, hgen', _⟩ := load_row hloaded
      obtain ⟨hget', _⟩ := Option.filter_eq_some_iff.mp hrow'
      -- the one row under the id is the one that was ready
      have hupdated := hget'
      unfold updateRows at hupdated
      dsimp only at hupdated
      rw [Table.get?_update, hget, Option.map_some, if_pos ⟨of_decide_eq_true hp, ha, hstate⟩] at hupdated
      obtain rfl := Option.some.inj hupdated
      have hgen'' : row.generation = c.generation := hgen'
      constructor
      · unfold runPlace
        rw [hget]
        dsimp only
        rw [ContinuationRow.place_of_state hstate (by decide), hgen'']
        rfl
      · unfold runPlace
        rw [hget']
        dsimp only
        have hclaimed : ContinuationState.claimed ≠ .failing := by decide
        rw [ContinuationRow.place_of_state rfl hclaimed]
        dsimp only
        rw [hgen'']
        rfl

theorem Op.ClaimsRun.place {host : Host} {p a : String} {g : Int} {db : DB} {op : Op} (h : op.ClaimsRun p a g db) :
    runPlace db a = (toLex (g, 1) : Int ×ₗ ℕ) ∧ runPlace (step host p op db) a = (toLex (g, 2) : Int ×ₗ ℕ) := by
  cases op with
  | claimApprovalContinuation approvalId runtime shown =>
    obtain ⟨rfl, c, s', hclaim, rfl⟩ := h
    have hrun : exec (ApprovalContinuations.claim p approvalId runtime shown) db = .ok ((), s') :=
      exec_eq_ok.mpr ⟨_, hclaim⟩
    have hstep : step host p (.claimApprovalContinuation approvalId runtime shown) db = s' :=
      commit_of_ok hrun
    rw [hstep]
    exact claim_eq_some hclaim
  | _ => exact h.elim

/-! ## Runs -/

/-- The scope of a run that pauses as the responder does. -/
def Scope.pausingRuns : Scope := { Scope.any with pauses := ApprovalContinuation.Paused }

/-- The scope of a run in which one approval id is not given out again. Ids are fresh UUIDs, so
this is every run behind the creation of the id. -/
def Scope.retiring (a : String) : Scope :=
  { Scope.any with pauses := fun c => c.Paused ∧ c.approvalId ≠ a }

theorem Scope.pausingRuns_covers (op : Op) : Scope.pausingRuns.Covers op :=
  Scope.Whole.covers ⟨fun _ => trivial, trivial, trivial, trivial, fun _ _ => trivial, trivial,
    trivial, trivial, trivial⟩ op

theorem Scope.retiring_covers (a : String) (op : Op) : (Scope.retiring a).Covers op :=
  Scope.Whole.covers ⟨fun _ => trivial, trivial, trivial, trivial, fun _ _ => trivial, trivial,
    trivial, trivial, trivial⟩ op

theorem Run.runPlace_le {host : Host} {a : String} {s t : DB} (h : Run host (.retiring a) s t) :
    runPlace s a ≤ runPlace t a := by
  have hretires : (Scope.retiring a).Retires a := fun _ hc => hc.2
  have hstep : ∀ u u', Statement (.retiring a) u u' → runPlace s a ≤ runPlace u a →
      runPlace s a ≤ runPlace u' a :=
    fun u u' hs hle => hle.trans (hs.runPlace_le hretires)
  exact @statements_preserve _ _ _ (fun u => runPlace s a ≤ runPlace u a) hstep
    ((h.writes (Scope.retiring_covers a)).statements (.of_all fun _ _ => trivial)) le_rfl

/-- In every reachable state each call of an executable run has its decision, a failing run stays
failing until it is deleted, and no generation of a run is claimed twice or behind a failure. -/
theorem approval_gating {host : Host} {s : DB} (hs : Reachable host .pausingRuns s) (a : String) :
    (∀ r ∈ s.approvalContinuations, r.state = .ready ∨ r.state = .claimed →
      ¬ Undecided s r.principalId r.approvalId r.generation) ∧
    (∀ r ∈ s.approvalContinuations, r.approvalId = a → r.state = .failing → ∀ t, Run host (.retiring a) s t →
        (∀ r' ∈ t.approvalContinuations, r'.approvalId = a → r'.state = .failing) ∧
        ∀ p g op, ¬ Op.ClaimsRun p a g t op) ∧
    (∀ p g op, Op.ClaimsRun p a g s op → ∀ t, Run host (.retiring a) (step host p op s) t →
      ∀ p' op', ¬ Op.ClaimsRun p' a g t op') := by
  refine ⟨?_, ?_, ?_⟩
  · have hgated : s.Gated := hs.invariant Scope.pausingRuns_covers gated_init
      fun _ _ hst h => hst.gated (fun _ hc => hc) h
    rintro r hr hx ⟨call, hcall, hp, ha, hg, hnone⟩
    exact hgated.decided r hr hx call hcall hp ha hg hnone
  · intro r hr ha hfailing t hrun
    have hplace : runPlace s a = ⊤ := by
      rw [← ha, runPlace_of_row hr]
      unfold ContinuationRow.place
      rw [if_pos hfailing]
    have htop : runPlace t a = ⊤ := top_le_iff.mp (hplace ▸ hrun.runPlace_le)
    constructor
    · intro r' hr' ha'
      by_contra hno
      rw [← ha', runPlace_of_row hr'] at htop
      unfold ContinuationRow.place at htop
      rw [if_neg hno] at htop
      exact WithTop.coe_ne_top htop
    · intro p g op hclaim
      have hplace' := (@Op.ClaimsRun.place host _ _ _ _ _ hclaim).1
      rw [htop] at hplace'
      exact WithTop.top_ne_coe hplace'
  · intro p g op hclaim t hrun p' op' hclaim'
    have hclaimed := (@Op.ClaimsRun.place host _ _ _ _ _ hclaim).2
    have hready := (@Op.ClaimsRun.place host _ _ _ _ _ hclaim').1
    have hle := hrun.runPlace_le
    rw [hclaimed, hready] at hle
    rcases Prod.Lex.toLex_le_toLex.mp (WithTop.coe_le_coe.mp hle) with hlt | ⟨_, hstage⟩
    · exact lt_irrefl g hlt
    · have hback : (2 : ℕ) ≤ 1 := hstage
      omega

/-! ## Decisions -/

/-- A statement keeps a call that is decided, or only deletes calls. -/
theorem Statement.decided {b : Scope} {db db' : DB} (h : Statement b db db') {call : ContinuationCallRow}
    (hcall : call ∈ db.approvalContinuationCalls) (hdecided : call.decision ≠ none) :
    call ∈ db'.approvalContinuationCalls ∨ ∀ r ∈ db'.approvalContinuationCalls, r ∈ db.approvalContinuationCalls := by
  rcases h.amends_or with h | h
  · cases h with
    | pause p c now sources calls _ _ _ hcalls => exact .inl ((Table.mem_insertAll? hcalls call).mpr (.inl hcall))
    | advance p a g next runtimeGeneration context calls _ _ hcalls =>
      exact .inl ((Table.mem_insertAll? hcalls call).mpr (.inl hcall))
    | release => exact .inr fun r hr => (Table.mem_delete.mp hr).1
    | decide => exact .inl (Table.mem_update_of_not (by intro _; rfl) hcall fun hq => hdecided hq.2)
    | approve => exact .inl (Table.mem_update_of_not (by intro _; rfl) hcall fun hq => hdecided hq.2.1)
    | deny => exact .inl (Table.mem_update_of_not (by intro _; rfl) hcall fun hq => hdecided hq.2.2.2)
    | _ => exact .inl hcall
  · have hcalls : db'.approvalContinuationCalls = db.approvalContinuationCalls := congrArg Rest.calls h
    exact .inl (hcalls ▸ hcall)

/-- A decision is final: through any statements of the store the row of a decided call stays as it is while there is a
row of that call. -/
theorem decision_final {b : Scope} {s t : DB} (call : ContinuationCallRow) (hcall : call ∈ s.approvalContinuationCalls)
    (hdecided : call.decision ≠ none) (hrun : Relation.ReflTransGen (fun u v => Statement b u v ∧
      ∃ r ∈ v.approvalContinuationCalls, key r = key call) s t) : call ∈ t.approvalContinuationCalls := by
  induction hrun with
  | refl => exact hcall
  | tail _ hs ih =>
    rcases hs with ⟨hs, r, hr, hkey⟩
    rcases hs.decided ih hdecided with hkept | hsub
    · exact hkept
    · have heq : r = call := Table.eq_of_key_eq (hsub r hr) ih hkey
      exact heq ▸ hr

/-! ## One pause -/

namespace OnePause

def host : Host := ⟨id, id, fun _ => "", fun _ => ""⟩

def message : InboundEvent := ⟨"$m", "!r", none, .message, .actionable, "@u", 1, []⟩

/-- A run paused on the message, whose one call policy has approved. -/
def continuation : ApprovalContinuation where
  approvalId := "a"
  entityName := "agent"
  context := ⟨"run", "session", "!r", none, "@u", "$answer", "", [], [], some true, []⟩
  sourceEventIds := ["$m"]
  calls := [⟨"call", "tool", "agent", 10, some .approved, none, some false⟩]
  state := .ready
  runtimeGeneration := none
  failureReason := none
  generation := 0

def admitted : DB := step host "@a" (.admitEvent message none) (DB.init fun _ => 0)

def paused : DB := step host "@a" (.createApprovalContinuation continuation) admitted

def claimRun : Op := .claimApprovalContinuation "a" "runtime" none

/-- The ready run is claimed once. -/
theorem gating_claimed : claimRun.ClaimsRun "@a" "a" 0 paused ∧
    ∀ p op, ¬ Op.ClaimsRun p "a" 0 (step host "@a" claimRun paused) op := by
  have hpaused : continuation.Paused := .inr ⟨rfl, by decide⟩
  have hreach : Reachable host .pausingRuns paused :=
    ⟨fun _ => 0, .tail (.single (.op "@a" (.admitEvent message none) fun _ h => nomatch h))
      (.op "@a" (.createApprovalContinuation continuation) fun _ => hpaused)⟩
  have hclaim : claimRun.ClaimsRun "@a" "a" 0 paused :=
    ⟨rfl, _, _, rfl, by decide +kernel⟩
  obtain ⟨_, _, hgate⟩ := approval_gating hreach "a"
  exact ⟨hclaim, hgate "@a" 0 claimRun hclaim _ .refl⟩

/-- The room of the call's card is left once policy has approved the call. -/
theorem decision_stays : ∃ call ∈ (Approvals.denyCallIfUndecided ⟨"@p", "d", "a", 0, "call", 0⟩ "" paused).approvalContinuationCalls,
    call.decision = some .approved := by
  have hdecided : ∃ call ∈ paused.approvalContinuationCalls, call.decision = some .approved ∧
      ∃ r ∈ (Approvals.denyCallIfUndecided ⟨"@p", "d", "a", 0, "call", 0⟩ "" paused).approvalContinuationCalls,
        key r = key call := by decide +kernel
  obtain ⟨call, hcall, hdecision, hrow⟩ := hdecided
  have hne : call.decision ≠ none := by
    rw [hdecision]
    exact Option.some_ne_none _
  exact ⟨call, decision_final (b := .any) call hcall hne (.single ⟨.amend (.deny _ ""), hrow⟩), hdecision⟩

end OnePause

end MindRoom
