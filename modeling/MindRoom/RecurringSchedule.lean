import MindRoom.Systems
import Mathlib.Data.List.Nodup
import Mathlib.Data.Option.Basic
import Mathlib.Order.Basic

/-! # Recurring schedules

`recurring_schedule.py`: a recurring task keeps one durable checkpoint, the cursor of its next
occurrence with at most one prepared delivery. Planning loads the checkpoint and moves the cursor
over what downtime missed, preparing freezes the delivery, and completing moves the cursor on.
Times are in microseconds, the precision of the host's clock; the cron library is a parameter,
known by the neighbours it finds in the set of its times.
-/

namespace MindRoom

/-- The times of one cron expression, as `croniter` walks them. -/
structure CronTimes where
  times : Set Int
  getNext : Int → Int
  getPrev : Int → Int
  next_mem : ∀ t, getNext t ∈ times
  lt_next : ∀ t, t < getNext t
  next_le : ∀ t c, c ∈ times → t < c → getNext t ≤ c
  prev_mem : ∀ t, getPrev t ∈ times
  prev_lt : ∀ t, getPrev t < t
  le_prev : ∀ t c, c ∈ times → c < t → c ≤ getPrev t

/-- Freeze content and the device whose Matrix transaction namespace owns it. -/
structure PreparedRecurringDelivery where
  content : String
  deviceId : String
deriving DecidableEq

/-- One timer cursor, with at most one unacknowledged trigger. -/
structure RecurringCheckpoint where
  workflowKey : String
  nextRunAt : Int
  prepared : Option PreparedRecurringDelivery := none
  lastSkippedAt : Option Int := none
  skipReason : Option String := none
deriving DecidableEq

def microsecondsPerSecond : Int := 1000000

namespace RecurringCheckpoint

variable (cron : CronTimes)

/-- The greatest cron time that is not after `t`. -/
def latest (t : Int) : Int := cron.getPrev (t + 1)

/-- `_plan`: the checkpoint it saves and returns. -/
def plan (workflowKey : String) (now graceSeconds : Int) (file : Option RecurringCheckpoint) :
    RecurringCheckpoint :=
  match file with
  | none => { workflowKey, nextRunAt := cron.getNext now }
  | some checkpoint =>
    -- first adoption and edits establish a future cursor
    if checkpoint.workflowKey ≠ workflowKey then { workflowKey, nextRunAt := cron.getNext now }
    else if checkpoint.prepared = none ∧ checkpoint.nextRunAt ≤ now then
      if now - latest cron now > graceSeconds * microsecondsPerSecond then
        { checkpoint with
          nextRunAt := cron.getNext now
          lastSkippedAt := some (latest cron now)
          skipReason := some "outside catch-up grace window" }
      else if latest cron now > checkpoint.nextRunAt then
        { checkpoint with
          nextRunAt := latest cron now
          lastSkippedAt := some (cron.getPrev (latest cron now))
          skipReason := some "coalesced missed occurrences into latest run" }
      else checkpoint
    else checkpoint

/-- `prepare_recurring_delivery`: commit the exact trigger; the device must be known. -/
def prepare (checkpoint : RecurringCheckpoint) (content : String) (deviceId : Option String) :
    Except String RecurringCheckpoint :=
  match deviceId with
  | none => .error "Recurring delivery requires an authenticated Matrix device"
  | some deviceId =>
    if deviceId = "" then .error "Recurring delivery requires an authenticated Matrix device"
    else .ok { checkpoint with prepared := some ⟨content, deviceId⟩ }

/-- `complete_recurring_occurrence`: advance after delivery, suppression or terminal failure. -/
def complete (checkpoint : RecurringCheckpoint) (now : Int) : RecurringCheckpoint :=
  let completedAt := max now checkpoint.nextRunAt
  let advanced := { checkpoint with nextRunAt := cron.getNext completedAt, prepared := none }
  if latest cron completedAt > checkpoint.nextRunAt then
    { advanced with
      lastSkippedAt := some (latest cron completedAt)
      skipReason := some "coalesced while previous trigger was pending" }
  else advanced

/-- `RecurringOccurrence.transaction_id`, for the schedule file's stem. -/
def transactionId (sha256 : String → String) (isoformat : Int → String) (stem : String)
    (nextRunAt : Int) : String :=
  "schedule_" ++ sha256 (stem ++ ":" ++ isoformat nextRunAt)

variable {cron}

/-- Freezing a delivery needs a device, and changes nothing else. -/
theorem prepare_eq_ok {checkpoint p : RecurringCheckpoint} {content : String} {deviceId : Option String}
    (h : checkpoint.prepare content deviceId = .ok p) :
    ∃ device, p = { checkpoint with prepared := some ⟨content, device⟩ } := by
  unfold prepare at h
  cases deviceId with
  | none => cases h
  | some device =>
    dsimp only at h
    by_cases hempty : device = ""
    · rw [if_pos hempty] at h
      cases h
    · rw [if_neg hempty] at h
      exact ⟨device, (Except.ok.inj h).symm⟩

theorem latest_mem (t : Int) : latest cron t ∈ cron.times := cron.prev_mem (t + 1)

theorem latest_le (t : Int) : latest cron t ≤ t := by
  have := cron.prev_lt (t + 1)
  unfold latest
  omega

theorem le_latest {t c : Int} (hc : c ∈ cron.times) (h : c ≤ t) : c ≤ latest cron t :=
  cron.le_prev (t + 1) c hc (by omega)

/-- Before the next cron time after `t`, every cron time is at most `t`. -/
theorem le_of_lt_next {t c : Int} (hc : c ∈ cron.times) (h : c < cron.getNext t) : c ≤ t := by
  by_contra hlt
  have := cron.next_le t c hc (by omega)
  omega

/-! ## What planning does -/

/-- Planning adopts the workflow, leaves its checkpoint alone, or moves an unprepared cursor that
is due: to the next time when the latest is out of grace, or to the latest. -/
theorem plan_cases (key : String) (now grace : Int) (file : Option RecurringCheckpoint) :
    ((∀ checkpoint, file = some checkpoint → checkpoint.workflowKey ≠ key) ∧
        plan cron key now grace file = { workflowKey := key, nextRunAt := cron.getNext now }) ∨
      ∃ checkpoint, file = some checkpoint ∧ checkpoint.workflowKey = key ∧
        (((checkpoint.prepared ≠ none ∨ now < checkpoint.nextRunAt) ∧
            plan cron key now grace file = checkpoint) ∨
          (checkpoint.prepared = none ∧ checkpoint.nextRunAt ≤ now ∧
            ((now - latest cron now > grace * microsecondsPerSecond ∧
                plan cron key now grace file = { checkpoint with
                  nextRunAt := cron.getNext now
                  lastSkippedAt := some (latest cron now)
                  skipReason := some "outside catch-up grace window" }) ∨
              (now - latest cron now ≤ grace * microsecondsPerSecond ∧
                latest cron now > checkpoint.nextRunAt ∧
                plan cron key now grace file = { checkpoint with
                  nextRunAt := latest cron now
                  lastSkippedAt := some (cron.getPrev (latest cron now))
                  skipReason := some "coalesced missed occurrences into latest run" }) ∨
              (now - latest cron now ≤ grace * microsecondsPerSecond ∧
                latest cron now ≤ checkpoint.nextRunAt ∧
                plan cron key now grace file = checkpoint)))) := by
  cases file with
  | none => exact .inl ⟨nofun, rfl⟩
  | some checkpoint =>
    by_cases hkey : checkpoint.workflowKey = key
    · refine .inr ⟨checkpoint, rfl, hkey, ?_⟩
      unfold plan
      dsimp only
      rw [if_neg (not_not.mpr hkey)]
      by_cases hdue : checkpoint.prepared = none ∧ checkpoint.nextRunAt ≤ now
      · right
        refine ⟨hdue.1, hdue.2, ?_⟩
        rw [if_pos hdue]
        by_cases hgrace : now - latest cron now > grace * microsecondsPerSecond
        · exact .inl ⟨hgrace, if_pos hgrace⟩
        · right
          rw [if_neg hgrace]
          by_cases hlater : latest cron now > checkpoint.nextRunAt
          · exact .inl ⟨by omega, hlater, if_pos hlater⟩
          · exact .inr ⟨by omega, by omega, if_neg hlater⟩
      · left
        refine ⟨?_, if_neg hdue⟩
        by_cases hprepared : checkpoint.prepared = none
        · right
          by_contra hle
          exact hdue ⟨hprepared, by omega⟩
        · exact .inl hprepared
    · left
      refine ⟨?_, ?_⟩
      · intro checkpoint' h
        cases h
        exact hkey
      · unfold plan
        dsimp only
        rw [if_pos hkey]

end RecurringCheckpoint

/-! ## The timer -/

/-- One schedule: the times of its cron expression and the key of its unchanged workflow. -/
structure RecurringTimer where
  cron : CronTimes
  workflowKey : String

/-- The schedule's file, the occurrence its runner holds, and what the run has done: when it
adopted the schedule and the times it completed, last one first. -/
structure TimerWorld where
  file : Option RecurringCheckpoint
  held : Option RecurringCheckpoint
  adoptedAt : Int
  completed : List Int

/-- One step of the runner. A prepared delivery may or may not reach the occurrence it holds. -/
inductive TimerStep where
  | plan (now graceSeconds : Int)
  | prepare (content : String) (deviceId : Option String) (returned : Bool)
  | complete (now : Int)
  | restart

namespace RecurringTimer

open RecurringCheckpoint

variable (t : RecurringTimer)

def Has (w : TimerWorld) (checkpoint : RecurringCheckpoint) : Prop :=
  w.file = some checkpoint ∧ checkpoint.workflowKey = t.workflowKey

/-- Load or advance the timer. A plan that finds no checkpoint of the workflow adopts it. -/
def planned (now graceSeconds : Int) (w : TimerWorld) : TimerWorld :=
  let checkpoint := RecurringCheckpoint.plan t.cron t.workflowKey now graceSeconds w.file
  { w with
    file := some checkpoint
    held := some checkpoint
    adoptedAt := if w.file.all fun f => f.workflowKey ≠ t.workflowKey then now else w.adoptedAt }

/-- Every sequence of plan, prepare and complete steps, each on the occurrence the runner holds,
with restarts anywhere. -/
def system : System TimerWorld TimerStep where
  start w := (∀ f, w.file = some f → f.workflowKey ≠ t.workflowKey) ∧ w.held = none ∧ w.completed = []
  step a w w' :=
    match a with
    | .plan now graceSeconds => w' = t.planned now graceSeconds w
    | .prepare content deviceId returned =>
      ∃ checkpoint prepared, w.held = some checkpoint ∧
        checkpoint.prepare content deviceId = .ok prepared ∧
        w' = { w with file := some prepared, held := some (if returned then prepared else checkpoint) }
    | .complete now =>
      ∃ checkpoint, w.held = some checkpoint ∧
        w' = { w with
          file := some (checkpoint.complete t.cron now)
          held := none
          completed := checkpoint.nextRunAt :: w.completed }
    | .restart => w' = { w with held := none }

/-- What every run keeps of a timer. -/
structure Tracked (w : TimerWorld) : Prop where
  fresh : (∀ f, ¬ t.Has w f) → w.held = none ∧ w.completed = []
  held : ∀ c, w.held = some c →
    ∃ f, t.Has w f ∧ c.workflowKey = f.workflowKey ∧ c.nextRunAt = f.nextRunAt ∧
      c.lastSkippedAt = f.lastSkippedAt
  cursor : ∀ f, t.Has w f → f.nextRunAt ∈ t.cron.times
  before : ∀ f, t.Has w f → ∀ time ∈ w.completed, time < f.nextRunAt
  ordered : w.completed.Pairwise (· > ·)
  covered : ∀ f, t.Has w f → ∀ c ∈ t.cron.times, w.adoptedAt < c → c < f.nextRunAt →
    c ∈ w.completed ∨ ∃ skipped, f.lastSkippedAt = some skipped ∧ c ≤ skipped

variable {t} {w w' : TimerWorld} {f : RecurringCheckpoint}

theorem Has.eq {f' : RecurringCheckpoint} (h : t.Has w f) (h' : t.Has w f') : f = f' :=
  Option.mem_unique h.1 h'.1

/-- What a completion does to the cursor. -/
theorem complete_cases (cron : CronTimes) (c : RecurringCheckpoint) (now : Int) :
    (c.complete cron now).workflowKey = c.workflowKey ∧ c.nextRunAt < (c.complete cron now).nextRunAt ∧
      (c.complete cron now).nextRunAt ∈ cron.times ∧
      ∀ time ∈ cron.times, time < (c.complete cron now).nextRunAt →
        time ≤ c.nextRunAt ∧ (c.complete cron now).lastSkippedAt = c.lastSkippedAt ∨
          ∃ skipped, (c.complete cron now).lastSkippedAt = some skipped ∧ time ≤ skipped := by
  have hnext : (c.complete cron now).nextRunAt = cron.getNext (max now c.nextRunAt) := by
    unfold RecurringCheckpoint.complete
    dsimp only
    split <;> rfl
  have hkey : (c.complete cron now).workflowKey = c.workflowKey := by
    unfold RecurringCheckpoint.complete
    dsimp only
    split <;> rfl
  have hlt := cron.lt_next (max now c.nextRunAt)
  refine ⟨hkey, ?_, ?_, ?_⟩
  · rw [hnext]
    omega
  · rw [hnext]
    exact cron.next_mem _
  · intro time htime hbefore
    rw [hnext] at hbefore
    have hlatest := le_latest htime (le_of_lt_next htime hbefore)
    by_cases hlater : latest cron (max now c.nextRunAt) > c.nextRunAt
    · right
      refine ⟨latest cron (max now c.nextRunAt), ?_, hlatest⟩
      unfold RecurringCheckpoint.complete
      dsimp only
      rw [if_pos hlater]
    · left
      refine ⟨by omega, ?_⟩
      unfold RecurringCheckpoint.complete
      dsimp only
      rw [if_neg hlater]

/-- A plan that finds the workflow's checkpoint keeps the workflow, moves its cursor forward to a
cron time, and records what it skipped. -/
theorem plan_moves {now grace : Int} (hkey : f.workflowKey = t.workflowKey) (hcursor : f.nextRunAt ∈ t.cron.times) :
    let p := RecurringCheckpoint.plan t.cron t.workflowKey now grace (some f)
    p.workflowKey = t.workflowKey ∧ f.nextRunAt ≤ p.nextRunAt ∧ p.nextRunAt ∈ t.cron.times ∧
      (p.nextRunAt = f.nextRunAt ∧ p.lastSkippedAt = f.lastSkippedAt ∨
        ∀ time ∈ t.cron.times, time < p.nextRunAt →
          ∃ skipped, p.lastSkippedAt = some skipped ∧ time ≤ skipped) := by
  intro p
  rcases @RecurringCheckpoint.plan_cases t.cron t.workflowKey now grace (some f) with
    ⟨hother, -⟩ | ⟨f', hf', -, hmove⟩
  · exact absurd hkey (hother f rfl)
  · cases hf'
    rcases hmove with ⟨-, hsame⟩ | ⟨-, hdue, ⟨-, hskip⟩ | ⟨-, hlater, hcoalesce⟩ | ⟨-, -, hsame⟩⟩
    · rw [show p = f from hsame]
      exact ⟨hkey, Int.le_refl _, hcursor, .inl ⟨rfl, rfl⟩⟩
    · rw [show p = _ from hskip]
      have hlt := t.cron.lt_next now
      refine ⟨hkey, by dsimp only; omega, t.cron.next_mem now, .inr ?_⟩
      intro time htime hbefore
      exact ⟨_, rfl, le_latest htime (le_of_lt_next htime hbefore)⟩
    · rw [show p = _ from hcoalesce]
      refine ⟨hkey, by dsimp only; omega, latest_mem now, .inr ?_⟩
      intro time htime hbefore
      exact ⟨_, rfl, t.cron.le_prev _ time htime hbefore⟩
    · rw [show p = f from hsame]
      exact ⟨hkey, Int.le_refl _, hcursor, .inl ⟨rfl, rfl⟩⟩

/-- The checkpoint a plan adopts, when the file holds none of the workflow. -/
theorem plan_adopts {now grace : Int} (h : ∀ f, ¬ t.Has w f) :
    RecurringCheckpoint.plan t.cron t.workflowKey now grace w.file =
      { workflowKey := t.workflowKey, nextRunAt := t.cron.getNext now } := by
  rcases @RecurringCheckpoint.plan_cases t.cron t.workflowKey now grace w.file with
    ⟨-, hadopt⟩ | ⟨f, hfile, hkey, -⟩
  · exact hadopt
  · exact absurd ⟨hfile, hkey⟩ (h f)

theorem adoptedAt_planned {now grace : Int} : (t.planned now grace w).adoptedAt =
      if w.file.all fun f => f.workflowKey ≠ t.workflowKey then now else w.adoptedAt := rfl

theorem Tracked.planned {now grace : Int} (h : t.Tracked w) : t.Tracked (t.planned now grace w) := by
  by_cases hhas : ∃ f, t.Has w f
  · rcases hhas with ⟨f, hfile, hkey⟩
    have hcursor := h.cursor f ⟨hfile, hkey⟩
    rcases @plan_moves t f now grace hkey hcursor with ⟨hpkey, hforward, hpcursor, hskip⟩
    have hadopted : (t.planned now grace w).adoptedAt = w.adoptedAt := by
      rw [adoptedAt_planned, hfile]
      simp [hkey]
    have hplan : (t.planned now grace w).file =
        some (RecurringCheckpoint.plan t.cron t.workflowKey now grace (some f)) := by
      show some (RecurringCheckpoint.plan t.cron t.workflowKey now grace w.file) = _
      rw [hfile]
    have heq : ∀ f', t.Has (t.planned now grace w) f' →
        f' = RecurringCheckpoint.plan t.cron t.workflowKey now grace (some f) := by
      intro f' hf'
      exact Option.mem_unique hf'.1 hplan
    generalize RecurringCheckpoint.plan t.cron t.workflowKey now grace (some f) = p at *
    refine ⟨?_, ?_, ?_, ?_, h.ordered, ?_⟩
    · intro hnone
      exact absurd ⟨hplan, hpkey⟩ (hnone p)
    · intro c hc
      have hcp : c = p := Option.mem_unique hc hplan
      rw [hcp]
      exact ⟨p, ⟨hplan, hpkey⟩, rfl, rfl, rfl⟩
    · intro f' hf'
      rw [heq f' hf']
      exact hpcursor
    · intro f' hf' time htime
      rw [heq f' hf']
      have := h.before f ⟨hfile, hkey⟩ time htime
      omega
    · intro f' hf' c hc hafter hbefore
      rw [heq f' hf'] at hbefore ⊢
      rw [hadopted] at hafter
      rcases hskip with ⟨hnext, hlast⟩ | hskipped
      · rw [hnext] at hbefore
        rw [hlast]
        exact h.covered f ⟨hfile, hkey⟩ c hc hafter hbefore
      · exact .inr (hskipped c hc hbefore)
  · have hnone : ∀ f, ¬ t.Has w f := fun f hf => hhas ⟨f, hf⟩
    have hplan : (t.planned now grace w).file =
        some { workflowKey := t.workflowKey, nextRunAt := t.cron.getNext now } :=
      congrArg some (plan_adopts hnone)
    have hadopted : (t.planned now grace w).adoptedAt = now := by
      rw [adoptedAt_planned]
      cases hfile : w.file with
      | none => rfl
      | some f =>
        have hkey : f.workflowKey ≠ t.workflowKey := fun hkey => hnone f ⟨hfile, hkey⟩
        simp [hkey]
    have hcompleted : (t.planned now grace w).completed = [] := (h.fresh hnone).2
    have heq : ∀ f', t.Has (t.planned now grace w) f' →
        f' = { workflowKey := t.workflowKey, nextRunAt := t.cron.getNext now } := by
      intro f' hf'
      exact Option.mem_unique hf'.1 hplan
    refine ⟨?_, ?_, ?_, ?_, ?_, ?_⟩
    · intro hnot
      exact absurd ⟨hplan, rfl⟩ (hnot _)
    · intro c hc
      have hcp := Option.mem_unique hc hplan
      rw [hcp]
      exact ⟨_, ⟨hplan, rfl⟩, rfl, rfl, rfl⟩
    · intro f' hf'
      rw [heq f' hf']
      exact t.cron.next_mem now
    · intro f' _ time htime
      rw [hcompleted] at htime
      cases htime
    · rw [hcompleted]
      exact List.Pairwise.nil
    · intro f' hf' c hc hafter hbefore
      rw [heq f' hf'] at hbefore
      rw [hadopted] at hafter
      have := le_of_lt_next hc hbefore
      omega

theorem Tracked.prepared {c p : RecurringCheckpoint} {content : String} {deviceId : Option String}
    {returned : Bool} (h : t.Tracked w) (hheld : w.held = some c) (hprepare : c.prepare content deviceId = .ok p) :
    t.Tracked { w with file := some p, held := some (if returned then p else c) } := by
  have hp : p.workflowKey = c.workflowKey ∧ p.nextRunAt = c.nextRunAt ∧
      p.lastSkippedAt = c.lastSkippedAt := by
    rcases RecurringCheckpoint.prepare_eq_ok hprepare with ⟨device, rfl⟩
    exact ⟨rfl, rfl, rfl⟩
  rcases h.held c hheld with ⟨f, hf, hkey, hnext, hlast⟩
  have hhas : ∀ f', t.Has { w with file := some p, held := some (if returned then p else c) } f' →
      f' = p := fun f' hf' => (Option.some.inj hf'.1).symm
  have hpkey : p.workflowKey = t.workflowKey := by
    rw [hp.1, hkey]
    exact hf.2
  refine ⟨?_, ?_, ?_, ?_, h.ordered, ?_⟩
  · intro hnone
    exact absurd ⟨rfl, hpkey⟩ (hnone p)
  · intro c' hc'
    have hc' : (if returned then p else c) = c' := Option.some.inj hc'
    refine ⟨p, ⟨rfl, hpkey⟩, ?_⟩
    cases returned with
    | true =>
      cases hc'
      exact ⟨rfl, rfl, rfl⟩
    | false =>
      cases hc'
      exact ⟨hp.1.symm, hp.2.1.symm, hp.2.2.symm⟩
  · intro f' hf'
    rw [hhas f' hf', hp.2.1, hnext]
    exact h.cursor f hf
  · intro f' hf' time htime
    rw [hhas f' hf', hp.2.1, hnext]
    exact h.before f hf time htime
  · intro f' hf' time htime hafter hbefore
    rw [hhas f' hf', hp.2.1, hnext] at hbefore
    rw [hhas f' hf', hp.2.2, hlast]
    exact h.covered f hf time htime hafter hbefore

theorem Tracked.completed {c : RecurringCheckpoint} {now : Int} (h : t.Tracked w) (hheld : w.held = some c) :
    t.Tracked { w with
      file := some (c.complete t.cron now)
      held := none
      completed := c.nextRunAt :: w.completed } := by
  rcases h.held c hheld with ⟨f, hf, hkey, hnext, hlast⟩
  rcases complete_cases t.cron c now with ⟨hckey, hforward, hcursor, hskip⟩
  have hckey : (c.complete t.cron now).workflowKey = t.workflowKey := by
    rw [hckey, hkey]
    exact hf.2
  generalize c.complete t.cron now = p at *
  have hhas : ∀ f', t.Has { w with
      file := some p, held := none, completed := c.nextRunAt :: w.completed } f' → f' = p :=
    fun f' hf' => (Option.some.inj hf'.1).symm
  refine ⟨?_, nofun, ?_, ?_, ?_, ?_⟩
  · intro hnone
    exact absurd ⟨rfl, hckey⟩ (hnone p)
  · intro f' hf'
    rw [hhas f' hf']
    exact hcursor
  · intro f' hf' time htime
    rw [hhas f' hf']
    rcases List.mem_cons.mp htime with rfl | htime
    · exact hforward
    · have := h.before f hf time htime
      omega
  · refine List.Pairwise.cons ?_ h.ordered
    intro time htime
    have := h.before f hf time htime
    omega
  · intro f' hf' time htime hafter hbefore
    rw [hhas f' hf'] at hbefore ⊢
    rcases hskip time htime hbefore with ⟨hle, hsame⟩ | hskipped
    · by_cases hnow : time = c.nextRunAt
      · left
        rw [hnow]
        exact List.mem_cons_self
      · rw [hsame, hlast]
        rcases h.covered f hf time htime hafter (by omega) with hdone | hold
        · exact .inl (List.mem_cons_of_mem _ hdone)
        · exact .inr hold
    · exact .inr hskipped

theorem tracked : t.system.Invariant t.Tracked where
  start w hw := by
    rcases hw with ⟨hother, hheld, hcompleted⟩
    have hnone : ∀ f, ¬ t.Has w f := fun f hf => hother f hf.1 hf.2
    refine ⟨fun _ => ⟨hheld, hcompleted⟩, ?_, fun f hf => absurd hf (hnone f),
      fun f hf => absurd hf (hnone f), ?_, fun f hf => absurd hf (hnone f)⟩
    · intro c hc
      rw [hheld] at hc
      cases hc
    · rw [hcompleted]
      exact List.Pairwise.nil
  step a w w' h hstep := by
    cases a with
    | plan now grace =>
      have hstep : w' = t.planned now grace w := hstep
      rw [hstep]
      exact h.planned
    | prepare content deviceId returned =>
      rcases hstep with ⟨c, p, hheld, hprepare, rfl⟩
      exact h.prepared hheld hprepare
    | complete now =>
      rcases hstep with ⟨c, hheld, rfl⟩
      exact h.completed hheld
    | restart =>
      have hstep : w' = { w with held := none } := hstep
      rw [hstep]
      exact ⟨fun hnone => ⟨rfl, (h.fresh hnone).2⟩, nofun, h.cursor, h.before, h.ordered, h.covered⟩

/-- What a schedule does, seen from a state of its timer. -/
structure Reliable (t : RecurringTimer) (w : TimerWorld) : Prop where
  /-- No step moves the cursor back, and a completion moves it forward. -/
  advances : ∀ a w' f, t.Has w f → t.system.step a w w' →
    ∃ f', t.Has w' f' ∧ f.nextRunAt ≤ f'.nextRunAt ∧
      ∀ now, a = .complete now → f.nextRunAt < f'.nextRunAt
  /-- So no run moves the cursor back. -/
  monotone : ∀ w' f, t.Has w f → t.system.Run w w' → ∃ f', t.Has w' f' ∧ f.nextRunAt ≤ f'.nextRunAt
  /-- Each completed time is later than those before, and the cursor is later than all. -/
  once : ∀ f, t.Has w f → (f.nextRunAt :: w.completed).Pairwise (· > ·)
  /-- So no transaction id repeats. -/
  distinct : ∀ f sha256 isoformat stem, t.Has w f → Function.Injective sha256 →
    Function.Injective isoformat →
    ((f.nextRunAt :: w.completed).map (transactionId sha256 isoformat stem)).Nodup
  /-- A plan leaves a prepared delivery alone. -/
  untouched : ∀ f now grace, t.Has w f → f.prepared ≠ none →
    RecurringCheckpoint.plan t.cron t.workflowKey now grace w.file = f
  /-- An unprepared occurrence a plan returns as due is the latest, and in grace. -/
  due : ∀ p now grace, RecurringCheckpoint.plan t.cron t.workflowKey now grace w.file = p →
    p.prepared = none → p.nextRunAt ≤ now →
    p.nextRunAt ∈ t.cron.times ∧ (∀ c ∈ t.cron.times, c ≤ now → c ≤ p.nextRunAt) ∧
      now - p.nextRunAt ≤ grace * microsecondsPerSecond
  /-- Every time since the adoption and before the cursor was completed or skipped on record. -/
  covered : ∀ f, t.Has w f → ∀ c ∈ t.cron.times, w.adoptedAt < c → c < f.nextRunAt →
    c ∈ w.completed ∨ ∃ skipped, f.lastSkippedAt = some skipped ∧ c ≤ skipped

theorem transactionId_injective {sha256 : String → String} {isoformat : Int → String}
    {stem : String} (hsha : Function.Injective sha256) (hiso : Function.Injective isoformat) :
    Function.Injective (transactionId sha256 isoformat stem) := by
  intro time time' h
  unfold transactionId at h
  have hdigest := hsha ((String.append_right_inj _).mp h)
  exact hiso ((String.append_right_inj _).mp hdigest)

theorem Tracked.advances {a : TimerStep} (h : t.Tracked w) (hf : t.Has w f) (hstep : t.system.step a w w') :
    ∃ f', t.Has w' f' ∧ f.nextRunAt ≤ f'.nextRunAt ∧ ∀ now, a = .complete now → f.nextRunAt < f'.nextRunAt := by
  cases a with
  | plan now grace =>
    have hstep : w' = t.planned now grace w := hstep
    rcases @plan_moves t f now grace hf.2 (h.cursor f hf) with ⟨hkey, hforward, -, -⟩
    refine ⟨_, ⟨?_, hkey⟩, hforward, nofun⟩
    rw [hstep]
    show some (RecurringCheckpoint.plan t.cron t.workflowKey now grace w.file) = _
    rw [hf.1]
  | prepare content deviceId returned =>
    rcases hstep with ⟨c, p, hheld, hprepare, rfl⟩
    rcases h.held c hheld with ⟨f', hf', hkey, hnext, -⟩
    rw [hf.eq hf']
    have hp : p.workflowKey = c.workflowKey ∧ p.nextRunAt = c.nextRunAt := by
      rcases RecurringCheckpoint.prepare_eq_ok hprepare with ⟨device, rfl⟩
      exact ⟨rfl, rfl⟩
    refine ⟨p, ⟨rfl, ?_⟩, ?_, nofun⟩
    · rw [hp.1, hkey]
      exact hf'.2
    · exact Int.le_of_eq (hnext.symm.trans hp.2.symm)
  | complete now =>
    rcases hstep with ⟨c, hheld, rfl⟩
    rcases h.held c hheld with ⟨f', hf', hkey, hnext, -⟩
    rw [hf.eq hf']
    rcases complete_cases t.cron c now with ⟨hckey, hforward, -, -⟩
    refine ⟨c.complete t.cron now, ⟨rfl, ?_⟩, ?_, ?_⟩
    · rw [hckey, hkey]
      exact hf'.2
    · omega
    · intro _ _
      omega
  | restart =>
    have hstep : w' = { w with held := none } := hstep
    rw [hstep]
    exact ⟨f, hf, Int.le_refl _, nofun⟩

theorem Tracked.monotone (h : t.Tracked w) (hf : t.Has w f) (hrun : t.system.Run w w') :
    ∃ f', t.Has w' f' ∧ f.nextRunAt ≤ f'.nextRunAt := by
  have hboth : t.Tracked w' ∧ ∃ f', t.Has w' f' ∧ f.nextRunAt ≤ f'.nextRunAt := by
    refine @System.Run.preserves _ _ _
      (fun u => t.Tracked u ∧ ∃ f', t.Has u f' ∧ f.nextRunAt ≤ f'.nextRunAt) _ _ hrun ?_
      ⟨h, f, hf, Int.le_refl _⟩
    rintro a u u' ⟨hu, f₁, hf₁, hle₁⟩ hstep
    rcases hu.advances hf₁ hstep with ⟨f₂, hf₂, hle₂, -⟩
    exact ⟨tracked.step a u u' hu hstep, f₂, hf₂, Int.le_trans hle₁ hle₂⟩
  exact hboth.2

theorem Tracked.reliable (h : t.Tracked w) : t.Reliable w where
  advances _ _ _ hf hstep := h.advances hf hstep
  monotone _ _ hf hrun := h.monotone hf hrun
  once f hf := List.Pairwise.cons (fun time htime => h.before f hf time htime) h.ordered
  distinct f sha256 isoformat stem hf hsha hiso := by
    refine List.Nodup.map (transactionId_injective hsha hiso) ?_
    have honce : (f.nextRunAt :: w.completed).Pairwise (· > ·) :=
      List.Pairwise.cons (fun time htime => h.before f hf time htime) h.ordered
    exact honce.imp fun hgt => by omega
  untouched f now grace hf hprepared := by
    rcases @RecurringCheckpoint.plan_cases t.cron t.workflowKey now grace w.file with
      ⟨hother, -⟩ | ⟨f', hfile, -, ⟨-, hsame⟩ | ⟨hnone, -⟩⟩
    · exact absurd hf.2 (hother f hf.1)
    · rw [hsame]
      exact Option.mem_unique hfile hf.1
    · rw [Option.mem_unique hf.1 hfile] at hprepared
      exact absurd hnone hprepared
  due p now grace hp hprepared hdue := by
    rcases @RecurringCheckpoint.plan_cases t.cron t.workflowKey now grace w.file with
      ⟨-, hadopt⟩ | ⟨f, hfile, hkey, hmove⟩
    · -- an adopted cursor is in the future
      rw [hadopt] at hp
      rw [← hp] at hdue
      have := t.cron.lt_next now
      dsimp only at hdue
      omega
    · have hcursor := h.cursor f ⟨hfile, hkey⟩
      rcases hmove with ⟨hnot, hsame⟩ | ⟨-, hle, ⟨-, hskip⟩ | ⟨hgrace, -, hcoalesce⟩ | ⟨hgrace, hlast, hsame⟩⟩
      · rw [hsame] at hp
        subst hp
        rcases hnot with hprepared' | hfuture
        · exact absurd hprepared hprepared'
        · omega
      · rw [hskip] at hp
        rw [← hp] at hdue
        have := t.cron.lt_next now
        dsimp only at hdue
        omega
      · rw [hcoalesce] at hp
        rw [← hp]
        exact ⟨latest_mem now, fun c hc hcle => le_latest hc hcle, hgrace⟩
      · rw [hsame] at hp
        subst hp
        have heq : f.nextRunAt = latest t.cron now := by
          have := le_latest hcursor hle
          omega
        rw [heq]
        exact ⟨latest_mem now, fun c hc hcle => le_latest hc hcle, hgrace⟩
  covered := h.covered

end RecurringTimer

/-- Every run of a schedule's timer is reliable. -/
theorem recurring_timer_reliable (t : RecurringTimer) {w : TimerWorld} (h : t.system.Reachable w) : t.Reliable w :=
  (RecurringTimer.tracked.reachable h).reliable

namespace EveryMinute

def minute : Int := 60 * microsecondsPerSecond

/-- The times of `* * * * *`. -/
def times : CronTimes where
  times := {time | ∃ n, time = n * minute}
  getNext time := (time / minute + 1) * minute
  getPrev time := (time - 1) / minute * minute
  next_mem time := ⟨_, rfl⟩
  lt_next time := by
    unfold minute microsecondsPerSecond
    omega
  next_le time c hc hlt := by
    rcases hc with ⟨n, rfl⟩
    unfold minute microsecondsPerSecond at *
    omega
  prev_mem time := ⟨_, rfl⟩
  prev_lt time := by
    unfold minute microsecondsPerSecond
    omega
  le_prev time c hc hlt := by
    rcases hc with ⟨n, rfl⟩
    unfold minute microsecondsPerSecond at *
    omega

def timer : RecurringTimer := ⟨times, "reminder"⟩

/-- Adopted at time zero, then down past the second and the third minute. -/
def adopted : TimerWorld := timer.planned 0 60 ⟨none, none, 0, []⟩

/-- The plan after the downtime coalesces to the third minute. -/
def caughtUp : TimerWorld := timer.planned 200000000 60 adopted

def coalesced : RecurringCheckpoint :=
  ⟨"reminder", 180000000, none, some 120000000, some "coalesced missed occurrences into latest run"⟩

def frozen : RecurringCheckpoint := { coalesced with prepared := some ⟨"reminder text", "DEVICE"⟩ }

def prepared : TimerWorld := { caughtUp with file := some frozen, held := some frozen }

def delivered : TimerWorld :=
  { prepared with file := some (frozen.complete times 200000000), held := none, completed := [180000000] }

theorem delivered_reachable : timer.system.Reachable delivered := by
  have hstart : timer.system.Reachable ⟨none, none, 0, []⟩ := .start ⟨nofun, rfl, rfl⟩
  have hadopted : timer.system.Reachable adopted := hstart.next (.plan 0 60) rfl
  have hcaught : timer.system.Reachable caughtUp := hadopted.next (.plan 200000000 60) rfl
  have hprepared : timer.system.Reachable prepared :=
    hcaught.next (.prepare "reminder text" (some "DEVICE") true)
      ⟨coalesced, frozen, by decide +kernel, rfl, rfl⟩
  exact hprepared.next (.complete 200000000) ⟨frozen, rfl, rfl⟩

/-- The theorem at a timer that caught up and completed its latest time. -/
theorem delivered_reliable : timer.Reliable delivered :=
  recurring_timer_reliable timer delivered_reachable

end EveryMinute

end MindRoom
