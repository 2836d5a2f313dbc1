import MindRoom.WorkflowStore

/-! # Runs of the workflow store

Whatever a run of the store stops in, revision files stay as they are and the active revision never moves
backwards. That every readable workflow loads, and that an id can be created until its workflow is there,
holds as long as no call stops between making the directory and writing its summary and the revision
numbers fit their six digits.
-/

namespace MindRoom.DynamicWorkflow

open Transaction (except_bind_eq_ok)

/-! ## Revision numbers -/

theorem toList_revisionStem (n : Nat) :
    (revisionStem n).toList = List.replicate (6 - (Nat.toDigits 10 n).length) '0' ++ Nat.toDigits 10 n := by
  rw [revisionStem, String.toList_ofList]

theorem isDigit_of_mem_revisionStem {n : Nat} {c : Char} (h : c ∈ (revisionStem n).toList) : c.isDigit := by
  rw [toList_revisionStem, List.mem_append] at h
  rcases h with h | h
  · rw [List.eq_of_mem_replicate h]
    decide
  · exact Nat.isDigit_of_mem_toDigits (by decide) (by decide) h

theorem range_of_isDigit {c : Char} (h : c.isDigit) : 48 ≤ c.toNat ∧ c.toNat ≤ 57 := by
  unfold Char.isDigit at h
  rw [Bool.and_eq_true, decide_eq_true_iff, decide_eq_true_iff] at h
  exact ⟨h.1, h.2⟩

theorem decimalValue_of_isDigit {c : Char} (h : c.isDigit) : decimalValue c = c.toNat - '0'.toNat := by
  have hrange := range_of_isDigit h
  unfold decimalValue decimalRanges
  rw [List.find?_cons_of_pos (by simpa using hrange)]
  dsimp only
  have hzero : '0'.toNat = 48 := rfl
  omega

theorem foldl_decimalValue {chars : List Char} (h : ∀ c ∈ chars, c.isDigit) (n : Nat) :
    chars.foldl (fun n c => 10 * n + decimalValue c) n = Nat.ofDigitChars 10 chars n := by
  induction chars generalizing n with
  | nil => rfl
  | cons c chars ih =>
    rw [List.forall_mem_cons] at h
    rw [List.foldl_cons, Nat.ofDigitChars_cons, decimalValue_of_isDigit h.1, ih h.2]

/-- The number of a revision file is the number that named it. -/
theorem revisionNumber?_revisionStem (n : Nat) : revisionNumber? (revisionStem n) = some n := by
  unfold revisionNumber?
  dsimp only
  have hdigits : ∀ c ∈ (revisionStem n).toList, c.isDigit := fun c hc => isDigit_of_mem_revisionStem hc
  have hne : (revisionStem n).toList ≠ [] := by
    rw [toList_revisionStem]
    exact List.append_ne_nil_of_right_ne_nil _ Nat.toDigits_ne_nil
  have hall : (revisionStem n).toList.all (inRanges decimalRanges) = true := by
    rw [List.all_eq_true]
    intro c hc
    have hrange := range_of_isDigit (hdigits c hc)
    unfold inRanges decimalRanges
    rw [List.any_cons]
    simp [hrange.1, hrange.2]
  rw [if_pos ⟨hne, hall⟩, foldl_decimalValue hdigits, toList_revisionStem, Nat.ofDigitChars_append,
    Nat.ofDigitChars_replicate_zero, Nat.mul_zero, Nat.ofDigitChars_ten_toDigits]

theorem revisionMatches_revisionStem {n : Nat} (h : n ≤ 999999) : revisionMatches (revisionStem n) = true := by
  have hlength : (Nat.toDigits 10 n).length ≤ 6 := (Nat.length_toDigits_le_iff (by decide) (by decide)).mpr (by omega)
  unfold revisionMatches
  rw [Bool.and_eq_true, decide_eq_true_iff, List.all_eq_true]
  constructor
  · rw [toList_revisionStem, List.length_append, List.length_replicate]
    omega
  · intro c hc
    have hdigit := isDigit_of_mem_revisionStem hc
    unfold Char.isDigit at hdigit
    simpa [Char.le_def] using hdigit

theorem foldl_max_le {numbers : List Nat} : ∀ {start : Nat}, start ≤ numbers.foldl max start ∧
    ∀ n ∈ numbers, n ≤ numbers.foldl max start := by
  induction numbers with
  | nil => simp
  | cons m numbers ih =>
    intro start
    rw [List.foldl_cons]
    constructor
    · exact le_trans (Nat.le_max_left start m) ih.1
    · intro n hn
      rcases List.mem_cons.mp hn with rfl | hn
      · exact le_trans (Nat.le_max_right start n) ih.1
      · exact ih.2 n hn

/-- The next number is above those of all files. -/
theorem lt_nextNumber {dir : WorkflowDir} {n : Nat} (h : revisionStem n ∈ dir.revisions.map (·.1)) :
    n < nextNumber dir := by
  rcases List.mem_map.mp h with ⟨file, hfile, hstem⟩
  have hmem : n ∈ dir.revisions.filterMap fun file => revisionNumber? file.1 := by
    rw [List.mem_filterMap]
    refine ⟨file, hfile, ?_⟩
    rw [hstem, revisionNumber?_revisionStem]
  have hle := (@foldl_max_le _ 0).2 n hmem
  unfold nextNumber
  omega

/-! ## What a call is going to do -/

theorem nextRevision_empty : nextRevision {} = "000001" := by decide +kernel

/-- Every call writes a revision under the next number and then a summary that names it. -/
structure Planned (disk : Disk) (plan : Plan) : Prop where
  writes : ∃ data, plan.writes = [.mkdir, .revision (nextRevision ((disk plan.place).getD {})) data,
    .summary (summaryToYaml plan.summary)]
  active : plan.summary.activeRevision = nextRevision ((disk plan.place).getD {})

section

variable {env : Surroundings} {disk : Disk} {plan : Plan}

theorem planned_of_create {spec : Value} {scope ownerId createdBy : String} {reason : Option String}
    {specValidator : Fields → Option String} {now : String}
    (h : createPlan env disk spec scope ownerId createdBy reason specValidator now = .ok plan) :
    Planned disk plan ∧ disk plan.place = none := by
  unfold createPlan at h
  rcases except_bind_eq_ok.mp h with ⟨validatedSpec, _, h⟩
  rcases except_bind_eq_ok.mp h with ⟨_, _, h⟩
  rcases except_bind_eq_ok.mp h with ⟨workflowId, _, h⟩
  rcases except_bind_eq_ok.mp h with ⟨place, _, h⟩
  split at h
  · cases h
  next habsent =>
  rcases except_bind_eq_ok.mp h with ⟨name, _, h⟩
  cases h
  have hnone : disk place = none := Option.not_isSome_iff_eq_none.mp habsent
  refine ⟨⟨?_, ?_⟩, hnone⟩
  · dsimp only
    rw [hnone, Option.getD_none, nextRevision_empty]
    exact ⟨_, rfl⟩
  · dsimp only
    rw [hnone, Option.getD_none, nextRevision_empty]

theorem planned_of_update {workflowId scope ownerId : String} {patch : Fields} {updatedBy reason : String}
    {specValidator : Fields → Option String} {now : String}
    (h : updatePlan env disk workflowId scope ownerId patch updatedBy reason specValidator now = .ok plan) :
    Planned disk plan ∧ workflowPlace env scope ownerId workflowId = .ok plan.place ∧
      ∃ summary, loadSummary env (disk plan.place) = .ok summary := by
  unfold updatePlan at h
  rcases except_bind_eq_ok.mp h with ⟨place, hplace, h⟩
  rcases except_bind_eq_ok.mp h with ⟨summary, hsummary, h⟩
  rcases except_bind_eq_ok.mp h with ⟨currentSpec, _, h⟩
  rcases except_bind_eq_ok.mp h with ⟨validated, _, h⟩
  rcases except_bind_eq_ok.mp h with ⟨_, _, h⟩
  rcases except_bind_eq_ok.mp h with ⟨patchedId, _, h⟩
  split at h
  · cases h
  rcases except_bind_eq_ok.mp h with ⟨name, _, h⟩
  cases h
  exact ⟨⟨⟨_, rfl⟩, rfl⟩, hplace, summary, hsummary⟩

theorem planned_of_plan {call : Call} (h : call.plan env disk = .ok plan) : Planned disk plan := by
  cases call with
  | create spec scope ownerId createdBy reason specValidator now => exact (planned_of_create h).1
  | update workflowId scope ownerId patch updatedBy reason specValidator now => exact (planned_of_update h).1

end

/-! ## What an attempt leaves behind -/

def revisionAt (dir : Option WorkflowDir) (stem : String) : Option Fields := dir.bind (·.revisions.lookup stem)

def summaryAt (dir : Option WorkflowDir) : Option Fields := dir.bind (·.summary)

/-- A directory whose summary, if it has one, was written for a revision that is there. -/
def Sound (dir : Option WorkflowDir) : Prop :=
  ∀ data, summaryAt dir = some data → ∃ summary n, data = summaryToYaml summary ∧
    summary.activeRevision = revisionStem n ∧ (revisionAt dir (revisionStem n)).isSome

/-- A directory that has what another has, and is as far on. -/
structure Extends (dir dir' : Option WorkflowDir) : Prop where
  files : ∀ stem data, revisionAt dir stem = some data → revisionAt dir' stem = some data
  active : ∀ summary n, summaryAt dir = some (summaryToYaml summary) → summary.activeRevision = revisionStem n →
    ∃ summary' n', summaryAt dir' = some (summaryToYaml summary') ∧ summary'.activeRevision = revisionStem n' ∧ n ≤ n'

theorem Extends.refl (dir : Option WorkflowDir) : Extends dir dir where
  files := fun _ _ h => h
  active := fun summary n h hactive => ⟨summary, n, h, hactive, le_refl n⟩

theorem Extends.trans {dir dir' dir'' : Option WorkflowDir} (h : Extends dir dir') (h' : Extends dir' dir'') :
    Extends dir dir'' where
  files := fun stem data hdata => h'.files stem data (h.files stem data hdata)
  active := by
    intro summary n hsummary hactive
    rcases h.active summary n hsummary hactive with ⟨summary', n', hsummary', hactive', hle⟩
    rcases h'.active summary' n' hsummary' hactive' with ⟨summary'', n'', hsummary'', hactive'', hle'⟩
    exact ⟨summary'', n'', hsummary'', hactive'', le_trans hle hle'⟩

theorem mem_stems_of_revisionAt {dir : Option WorkflowDir} {stem : String} (h : (revisionAt dir stem).isSome) :
    stem ∈ (dir.getD {}).revisions.map (·.1) := by
  cases dir with
  | none => cases h
  | some dir =>
    rcases List.lookup_isSome_iff.mp h with ⟨file, hfile, hstem⟩
    rw [beq_iff_eq] at hstem
    exact List.mem_map.mpr ⟨file, hfile, hstem.symm⟩

theorem lookup_putFile {files : List (String × Fields)} {stem other : String} {data : Fields} :
    (putFile files stem data).lookup other = if other = stem then some data else files.lookup other := by
  unfold putFile
  rw [List.lookup_cons]
  by_cases hother : other = stem
  · rw [if_pos hother, beq_iff_eq.mpr hother]
  rw [if_neg hother, beq_eq_false_iff_ne.mpr hother]
  dsimp only
  induction files with
  | nil => rfl
  | cons file files ih =>
    by_cases hfile : file.1 = stem
    · have hne : (other == file.1) = false := by
        rw [hfile]
        exact beq_eq_false_iff_ne.mpr hother
      rw [List.filter_cons, if_neg (by simpa using hfile), ih, List.lookup_cons, hne]
    · rw [List.filter_cons, if_pos (by simpa using hfile), List.lookup_cons, List.lookup_cons, ih]

/-- Files that grow under a summary that stays. -/
theorem Extends.of_files {dir dir' : Option WorkflowDir}
    (files : ∀ stem data, revisionAt dir stem = some data → revisionAt dir' stem = some data)
    (hsummary : summaryAt dir' = summaryAt dir) : Extends dir dir' where
  files := files
  active := fun summary n hfound hactive => ⟨summary, n, hsummary.trans hfound, hactive, le_refl n⟩

theorem Sound.of_files {dir dir' : Option WorkflowDir} (h : Sound dir)
    (files : ∀ stem data, revisionAt dir stem = some data → revisionAt dir' stem = some data)
    (hsummary : summaryAt dir' = summaryAt dir) : Sound dir' := by
  intro found hfound
  rcases h found (hsummary.symm.trans hfound) with ⟨summary, n, heq, hactive, hthere⟩
  rcases Option.isSome_iff_exists.mp hthere with ⟨revision, hrevision⟩
  exact ⟨summary, n, heq, hactive, Option.isSome_iff_exists.mpr ⟨revision, files _ _ hrevision⟩⟩

def withRevision (dir : Option WorkflowDir) (data : Fields) (summary : Option Fields) : Option WorkflowDir :=
  some { revisions := putFile (dir.getD {}).revisions (nextRevision (dir.getD {})) data, summary }

theorem revisionAt_next {dir : Option WorkflowDir} {data : Fields} {summary : Option Fields} :
    revisionAt (withRevision dir data summary) (nextRevision (dir.getD {})) = some data := by
  unfold revisionAt withRevision
  rw [Option.bind_some, lookup_putFile, if_pos rfl]

/-- No file has the next number, so that none is overwritten. -/
theorem revisionAt_withRevision {dir : Option WorkflowDir} {data found : Fields} {summary : Option Fields}
    {stem : String} (h : revisionAt dir stem = some found) : revisionAt (withRevision dir data summary) stem = some found := by
  have hne : stem ≠ nextRevision (dir.getD {}) := by
    rintro rfl
    have hsome : (revisionAt dir (nextRevision (dir.getD {}))).isSome := by
      rw [h]
      rfl
    exact absurd (lt_nextNumber (mem_stems_of_revisionAt hsome)) (lt_irrefl _)
  unfold withRevision
  rw [revisionAt, Option.bind_some, lookup_putFile, if_neg hne]
  cases dir with
  | none => cases h
  | some dir => exact h

theorem get?_activeRevision {summary : Summary} :
    Fields.get? (summaryToYaml summary) "active_revision" = some (.str summary.activeRevision) := by
  simp [summaryToYaml, Fields.get?_cons]

/-- A summary that names the new revision is ahead of the one before. -/
theorem extends_publish {dir : Option WorkflowDir} {data : Fields} {summary : Summary} (h : Sound dir)
    (hactive : summary.activeRevision = nextRevision (dir.getD {})) :
    Extends dir (withRevision dir data (some (summaryToYaml summary))) where
  files := fun stem found hfound => revisionAt_withRevision hfound
  active := by
    intro before n hbefore hactiveBefore
    refine ⟨summary, nextNumber (dir.getD {}), rfl, hactive, ?_⟩
    rcases h _ hbefore with ⟨before', n', heq, hactive', hthere⟩
    have hsame := congrArg (Fields.get? · "active_revision") heq
    rw [get?_activeRevision, get?_activeRevision, hactive', hactiveBefore] at hsame
    have hstem : revisionStem n = revisionStem n' := by simpa using hsame
    rw [← hstem] at hthere
    have hlt := lt_nextNumber (mem_stems_of_revisionAt hthere)
    omega

section

variable {env : Surroundings} {disk : Disk} {plan : Plan}

/-- However far a plan goes, it leaves a sound directory that extends the one before. -/
theorem Planned.written (h : Planned disk plan) (hsound : Sound (disk plan.place)) (count : Nat) :
    Extends (disk plan.place) (writeAll (disk plan.place) (plan.writes.take count)) ∧
      Sound (writeAll (disk plan.place) (plan.writes.take count)) := by
  rcases h.writes with ⟨data, hwrites⟩
  have hactive := h.active
  rw [hwrites]
  generalize disk plan.place = dir at hsound hactive ⊢
  have hmade : ∀ stem found, revisionAt dir stem = some found → revisionAt (some (dir.getD {})) stem = some found := by
    intro stem found hfound
    cases dir with
    | none => cases hfound
    | some dir => exact hfound
  have hsummary : summaryAt (some (dir.getD {})) = summaryAt dir := by
    cases dir with
    | none => rfl
    | some dir => rfl
  match count with
  | 0 => exact ⟨.refl dir, hsound⟩
  | 1 => exact ⟨.of_files hmade hsummary, hsound.of_files hmade hsummary⟩
  | 2 =>
    -- the revision is there, and no summary names it
    have hfiles : ∀ stem found, revisionAt dir stem = some found →
        revisionAt (withRevision dir data (dir.getD {}).summary) stem = some found :=
      fun stem found hfound => revisionAt_withRevision hfound
    exact ⟨.of_files hfiles hsummary, hsound.of_files hfiles hsummary⟩
  | count + 3 =>
    rw [List.take_of_length_le (Nat.le_add_left 3 count)]
    refine ⟨extends_publish hsound hactive, ?_⟩
    intro found hfound
    refine ⟨plan.summary, nextNumber (dir.getD {}), (Option.some.inj hfound).symm, hactive, ?_⟩
    exact Option.isSome_iff_exists.mpr ⟨data, revisionAt_next⟩

/-! ## Runs -/

theorem run_of_plan {attempt : Attempt} (h : attempt.call.plan env disk = .ok plan) : attempt.run env disk =
      Function.update disk plan.place (writeAll (disk plan.place) (plan.writes.take attempt.writes)) := by
  rw [Attempt.run, h]

theorem run_of_error {attempt : Attempt} {err : StoreError} (h : attempt.call.plan env disk = .error err) :
    attempt.run env disk = disk := by
  rw [Attempt.run, h]

/-- What every attempt, however far it goes, does to every directory. -/
theorem run_extends (hsound : ∀ place, Sound (disk place)) (attempt : Attempt) (place : Place) :
    Extends (disk place) (attempt.run env disk place) ∧ Sound (attempt.run env disk place) := by
  cases hplan : attempt.call.plan env disk with
  | error err =>
    rw [run_of_error hplan]
    exact ⟨.refl _, hsound place⟩
  | ok plan =>
    rw [run_of_plan hplan]
    by_cases hplace : place = plan.place
    · rw [hplace, Function.update_self]
      exact (planned_of_plan hplan).written (hsound plan.place) attempt.writes
    · rw [Function.update_of_ne hplace]
      exact ⟨.refl _, hsound place⟩

/-- A directory whose summary is there and names a revision with six digits. -/
def Whole (dir : Option WorkflowDir) : Prop :=
  dir = none ∨ ∃ summary n, summaryAt dir = some (summaryToYaml summary) ∧ summary.activeRevision = revisionStem n ∧
    n ≤ 999999

/-- An attempt that does not stop between making the directory of a new workflow and writing its summary, and
does not number a revision beyond six digits. -/
def Attempt.Safe (env : Surroundings) (disk : Disk) (attempt : Attempt) : Prop :=
  match attempt.call with
  | .create .. => attempt.writes = 0 ∨ 3 ≤ attempt.writes
  | .update workflowId scope ownerId .. =>
    ∀ place, workflowPlace env scope ownerId workflowId = .ok place → nextNumber ((disk place).getD {}) ≤ 999999

theorem run_whole (hwhole : ∀ place, Whole (disk place)) {attempt : Attempt} (hsafe : attempt.Safe env disk)
    (place : Place) : Whole (attempt.run env disk place) := by
  cases hplan : attempt.call.plan env disk with
  | error err =>
    rw [run_of_error hplan]
    exact hwhole place
  | ok plan =>
    rw [run_of_plan hplan]
    by_cases hplace : place = plan.place
    · have hplanned := planned_of_plan hplan
      rcases hplanned.writes with ⟨data, hwrites⟩
      rw [hplace, Function.update_self, hwrites]
      rcases attempt with ⟨call, count⟩
      -- the summary that is written names a revision of six digits
      have hpublished : nextNumber ((disk plan.place).getD {}) ≤ 999999 → 3 ≤ count →
          Whole (writeAll (disk plan.place) (List.take count [.mkdir,
            .revision (nextRevision ((disk plan.place).getD {})) data, .summary (summaryToYaml plan.summary)])) := by
        intro hdigits hcount
        rw [List.take_of_length_le hcount]
        exact .inr ⟨plan.summary, nextNumber ((disk plan.place).getD {}), rfl, hplanned.active, hdigits⟩
      cases call with
      | create spec scope ownerId createdBy reason specValidator now =>
        have hnone := (planned_of_create hplan).2
        rcases hsafe with hzero | hall
        · obtain rfl : count = 0 := hzero
          exact .inl hnone
        · apply hpublished _ hall
          rw [hnone]
          decide
      | update workflowId scope ownerId patch updatedBy reason specValidator now =>
        rcases planned_of_update hplan with ⟨_, hfound, summary, hsummary⟩
        have hdigits := hsafe plan.place hfound
        by_cases hcount : 3 ≤ count
        · exact hpublished hdigits hcount
        -- the summary is still the one from before
        have hbefore : ∃ dir, disk plan.place = some dir := by
          cases hdir : disk plan.place with
          | some dir => exact ⟨dir, rfl⟩
          | none =>
            rw [hdir] at hsummary
            cases hsummary
        rcases hbefore with ⟨dir, hdir⟩
        rcases hwhole plan.place with hnone | ⟨summary, n, hsame, hactive, hn⟩
        · rw [hdir] at hnone
          cases hnone
        right
        refine ⟨summary, n, ?_, hactive, hn⟩
        rw [hdir] at hsame ⊢
        match count, hcount with
        | 0, _ => exact hsame
        | 1, _ => exact hsame
        | 2, _ => exact hsame
        | count + 3, hcount => omega
    · rw [Function.update_of_ne hplace]
      exact hwhole place

/-! ## What holds in every state of a run -/

/-- Reading a YAML file back keeps the keys of a mapping and its revision numbers. -/
structure Rereads (reread : Fields → Fields) : Prop where
  keys : ∀ data key, (Fields.get? (reread data) key).isSome = (Fields.get? data key).isSome
  stems : ∀ data key n, Fields.get? data key = some (.str (revisionStem n)) →
    Fields.get? (reread data) key = some (.str (revisionStem n))

theorem fieldText_ok {data : Fields} {key : String} (h : (Fields.get? data key).isSome) :
    fieldText env data key = .ok (spelled env.render data key "") := by
  unfold fieldText
  split
  · next hnone =>
    rw [hnone] at h
    cases h
  · rfl

/-- A summary that was written is read back with its active revision. -/
theorem loadSummary_written (hreread : Rereads env.reread) {dir : Option WorkflowDir} {summary : Summary} {n : Nat}
    (hsummary : summaryAt dir = some (summaryToYaml summary)) (hactive : summary.activeRevision = revisionStem n) :
    ∃ loaded, loadSummary env dir = .ok loaded ∧ loaded.activeRevision = revisionStem n := by
  have hkeys : ∀ key ∈ ["id", "scope", "owner_id", "active_revision", "name", "created_by", "created_at", "updated_at"],
      (Fields.get? (env.reread (summaryToYaml summary)) key).isSome := by
    intro key hkey
    rw [hreread.keys]
    simp only [List.mem_cons, List.not_mem_nil, or_false] at hkey
    rcases hkey with rfl | rfl | rfl | rfl | rfl | rfl | rfl | rfl <;> simp [summaryToYaml, Fields.get?_cons]
  have hstem : Fields.get? (env.reread (summaryToYaml summary)) "active_revision" = some (.str (revisionStem n)) := by
    apply hreread.stems
    rw [get?_activeRevision, hactive]
  have hloaded : loadSummary env dir = summaryFromYaml env (env.reread (summaryToYaml summary)) := by
    unfold summaryAt at hsummary
    rw [loadSummary, hsummary]
    rfl
  rw [hloaded]
  unfold summaryFromYaml
  rw [fieldText_ok (hkeys "id" (by decide)), fieldText_ok (hkeys "scope" (by decide)),
    fieldText_ok (hkeys "owner_id" (by decide)), fieldText_ok (hkeys "active_revision" (by decide)),
    fieldText_ok (hkeys "name" (by decide)), fieldText_ok (hkeys "created_by" (by decide)),
    fieldText_ok (hkeys "created_at" (by decide)), fieldText_ok (hkeys "updated_at" (by decide))]
  refine ⟨_, rfl, ?_⟩
  dsimp only
  rw [spelled, hstem]

/-- In a sound and whole state, what a summary names can be loaded. -/
theorem loads_active (hreread : Rereads env.reread) (hsound : ∀ place, Sound (disk place))
    (hwhole : ∀ place, Whole (disk place)) {workflowId scope ownerId : String} {summary : Summary}
    (h : getWorkflow env disk workflowId scope ownerId = .ok summary) :
    ∃ spec, loadWorkflowRevision env disk workflowId scope ownerId summary.activeRevision = .ok spec := by
  unfold getWorkflow at h
  rcases except_bind_eq_ok.mp h with ⟨place, hplace, hload⟩
  rcases hwhole place with hnone | ⟨written, n, hsummary, hactive, hdigits⟩
  · rw [hnone] at hload
    cases hload
  rcases hsound place _ hsummary with ⟨written', n', heq, hactive', hthere⟩
  have hstem : revisionStem n = revisionStem n' := by
    have hsame := congrArg (Fields.get? · "active_revision") heq
    rw [get?_activeRevision, get?_activeRevision, hactive', hactive] at hsame
    simpa using hsame
  rcases loadSummary_written hreread hsummary hactive with ⟨loaded, hloaded, hloadedActive⟩
  rw [hloaded] at hload
  obtain rfl := Except.ok.inj hload
  rw [← hstem] at hthere
  rcases Option.isSome_iff_exists.mp hthere with ⟨data, hdata⟩
  have hvalid : validateRevision (revisionStem n) = .ok () := by
    rw [validateRevision, if_pos (revisionMatches_revisionStem hdigits)]
    rfl
  refine ⟨workflowSpecPayload (env.reread data), ?_⟩
  unfold loadWorkflowRevision
  rw [hloadedActive, hvalid, except_bind_eq_ok]
  refine ⟨(), rfl, ?_⟩
  rw [hplace, except_bind_eq_ok]
  refine ⟨place, rfl, ?_⟩
  unfold revisionAt at hdata
  rw [loadRevision, hvalid, hdata]
  rfl

/-- A create that an empty store takes is taken, unless the workflow is there to be read. -/
theorem creatable (hreread : Rereads env.reread) (hwhole : ∀ place, Whole (disk place)) {spec : Value}
    {scope ownerId createdBy : String} {reason : Option String} {specValidator : Fields → Option String} {now : String}
    (h : createPlan env (fun _ => none) spec scope ownerId createdBy reason specValidator now = .ok plan) :
    createPlan env disk spec scope ownerId createdBy reason specValidator now = .ok plan ∨
      ∃ summary, getWorkflow env disk plan.summary.workflowId scope ownerId = .ok summary := by
  unfold createPlan at h
  rcases except_bind_eq_ok.mp h with ⟨validatedSpec, hspec, h⟩
  rcases except_bind_eq_ok.mp h with ⟨_, hvalidator, h⟩
  rcases except_bind_eq_ok.mp h with ⟨workflowId, hid, h⟩
  rcases except_bind_eq_ok.mp h with ⟨place, hplace, h⟩
  rw [Option.isSome_none, if_neg Bool.false_ne_true] at h
  rcases except_bind_eq_ok.mp h with ⟨name, hname, h⟩
  cases h
  rcases hwhole place with hnone | ⟨summary, n, hsummary, hactive, _⟩
  · left
    unfold createPlan
    simp only [except_bind_eq_ok]
    refine ⟨validatedSpec, hspec, (), hvalidator, workflowId, hid, place, hplace, ?_⟩
    rw [hnone, Option.isSome_none, if_neg Bool.false_ne_true, except_bind_eq_ok]
    exact ⟨name, hname, rfl⟩
  · right
    rcases loadSummary_written hreread hsummary hactive with ⟨loaded, hloaded, _⟩
    refine ⟨loaded, ?_⟩
    unfold getWorkflow
    rw [except_bind_eq_ok]
    exact ⟨place, hplace, hloaded⟩

end

def StoreStep (env : Surroundings) (disk disk' : Disk) : Prop := ∃ attempt : Attempt, disk' = attempt.run env disk

def SafeStep (env : Surroundings) (disk disk' : Disk) : Prop :=
  ∃ attempt : Attempt, attempt.Safe env disk ∧ disk' = attempt.run env disk

def emptyDisk : Disk := fun _ => none

theorem sound_empty (place : Place) : Sound (emptyDisk place) := by
  intro data h
  cases h

theorem whole_empty (place : Place) : Whole (emptyDisk place) := .inl rfl

section

variable {env : Surroundings} {disk disk' : Disk}

/-- Whatever the attempts stop in, later directories extend earlier ones. -/
theorem extends_of_run (hsound : ∀ place, Sound (disk place)) (h : Relation.ReflTransGen (StoreStep env) disk disk') :
    ∀ place, Extends (disk place) (disk' place) ∧ Sound (disk' place) := by
  induction h with
  | refl =>
    intro place
    exact ⟨.refl _, hsound place⟩
  | tail _ hstep ih =>
    rcases hstep with ⟨attempt, rfl⟩
    intro place
    rcases run_extends (fun place => (ih place).2) attempt place with ⟨hext, hsound'⟩
    exact ⟨(ih place).1.trans hext, hsound'⟩

theorem storeStep_of_safe (h : Relation.ReflTransGen (SafeStep env) disk disk') :
    Relation.ReflTransGen (StoreStep env) disk disk' := by
  induction h with
  | refl => exact .refl
  | tail _ hstep ih =>
    rcases hstep with ⟨attempt, _, hrun⟩
    exact ih.tail ⟨attempt, hrun⟩

theorem whole_of_run (hwhole : ∀ place, Whole (disk place)) (h : Relation.ReflTransGen (SafeStep env) disk disk') :
    ∀ place, Whole (disk' place) := by
  induction h with
  | refl => exact hwhole
  | tail _ hstep ih =>
    rcases hstep with ⟨attempt, hsafe, rfl⟩
    exact fun place => run_whole ih hsafe place

/-- The active revision that two states show never moves backwards, whatever was stopped in between. -/
theorem active_le (hreread : Rereads env.reread) (hsound : ∀ place, Sound (disk place))
    (h : Relation.ReflTransGen (StoreStep env) disk disk') {workflowId scope ownerId : String} {summary : Summary}
    (hsummary : getWorkflow env disk workflowId scope ownerId = .ok summary) :
    ∃ summary' n n', getWorkflow env disk' workflowId scope ownerId = .ok summary' ∧
      revisionNumber? summary.activeRevision = some n ∧ revisionNumber? summary'.activeRevision = some n' ∧ n ≤ n' := by
  unfold getWorkflow at hsummary ⊢
  rcases except_bind_eq_ok.mp hsummary with ⟨place, hplace, hload⟩
  rcases extends_of_run hsound h place with ⟨hext, _⟩
  have hwritten : ∃ data, summaryAt (disk place) = some data := by
    cases hdata : summaryAt (disk place) with
    | some data => exact ⟨data, rfl⟩
    | none =>
      unfold summaryAt at hdata
      rw [loadSummary, hdata] at hload
      cases hload
  rcases hwritten with ⟨data, hdata⟩
  rcases hsound place data hdata with ⟨written, n, rfl, hactive, _⟩
  rcases hext.active written n hdata hactive with ⟨written', n', hdata', hactive', hle⟩
  rcases loadSummary_written hreread hdata hactive with ⟨loaded, hloaded, hloadedActive⟩
  rcases loadSummary_written hreread hdata' hactive' with ⟨loaded', hloaded', hloadedActive'⟩
  rw [hloaded] at hload
  obtain rfl := Except.ok.inj hload
  refine ⟨loaded', n, n', ?_, ?_, ?_, hle⟩
  · rw [hplace, except_bind_eq_ok]
    exact ⟨place, rfl, hloaded'⟩
  · rw [hloadedActive, revisionNumber?_revisionStem]
  · rw [hloadedActive', revisionNumber?_revisionStem]

/-- What the store promises of a state and of every state after it. -/
structure Survives (env : Surroundings) (disk disk' : Disk) : Prop where
  loads : ∀ workflowId scope ownerId summary, getWorkflow env disk workflowId scope ownerId = .ok summary →
    ∃ spec, loadWorkflowRevision env disk workflowId scope ownerId summary.activeRevision = .ok spec
  forward : ∀ workflowId scope ownerId summary, getWorkflow env disk workflowId scope ownerId = .ok summary →
    ∃ summary' n n', getWorkflow env disk' workflowId scope ownerId = .ok summary' ∧
      revisionNumber? summary.activeRevision = some n ∧ revisionNumber? summary'.activeRevision = some n' ∧ n ≤ n'
  kept : ∀ place stem data, revisionAt (disk place) stem = some data → revisionAt (disk' place) stem = some data
  creatable : ∀ spec scope ownerId createdBy reason specValidator now plan,
    createPlan env emptyDisk spec scope ownerId createdBy reason specValidator now = .ok plan →
      createPlan env disk spec scope ownerId createdBy reason specValidator now = .ok plan ∨
        ∃ summary, getWorkflow env disk plan.summary.workflowId scope ownerId = .ok summary

/-- In a run whose attempts are safe, the store keeps its promises in every state. -/
theorem survives_of_run (hreread : Rereads env.reread) (h : Relation.ReflTransGen (SafeStep env) emptyDisk disk)
    (h' : Relation.ReflTransGen (SafeStep env) disk disk') : Survives env disk disk' := by
  have hsound : ∀ place, Sound (disk place) := fun place => (extends_of_run sound_empty (storeStep_of_safe h) place).2
  have hwhole := whole_of_run whole_empty h
  constructor
  · intro workflowId scope ownerId summary hsummary
    exact loads_active hreread hsound hwhole hsummary
  · intro workflowId scope ownerId summary hsummary
    exact active_le hreread hsound (storeStep_of_safe h') hsummary
  · intro place stem data hdata
    exact (extends_of_run hsound (storeStep_of_safe h') place).1.files stem data hdata
  · intro spec scope ownerId createdBy reason specValidator now plan hplan
    exact creatable hreread hwhole hplan

end

/-! ## A create that stops halfway -/

namespace StoppedCreate

/-- A store whose YAML files read back as they were dumped. -/
def plain : Surroundings where
  reread := id
  digest _ := "0"
  render _ := ""

theorem rereads_plain : Rereads plain.reread where
  keys _ _ := rfl
  stems _ _ _ h := h

def noteSpec : Value :=
  .dict [("schema_version", .int 1), ("id", .str "note"), ("name", .str "Note"), ("kind", .str "workflow"),
    ("participants", .list [.dict [("id", .str "writer")]]),
    ("workflow", .list [.dict [("id", .str "draft"), ("type", .str "transform_step"), ("text", .str "A note")]])]

/-- Creating the note, up to some of its writes. -/
def creating (writes : Nat) : Attempt where
  call := .create noteSpec "agent" "ada" "ada" none (fun _ => none) "2026-01-01T00:00:00Z"
  writes := writes

theorem survives_created : Survives plain ((creating 3).run plain emptyDisk) ((creating 3).run plain emptyDisk) :=
  survives_of_run rereads_plain (.single ⟨creating 3, .inr (le_refl 3), rfl⟩) .refl

/-- A create that stops before it writes the summary leaves an id that is neither there nor free. -/
theorem not_survives_stopped : ¬ ∀ disk disk', Relation.ReflTransGen (StoreStep plain) emptyDisk disk →
    Relation.ReflTransGen (StoreStep plain) disk disk' → Survives plain disk disk' := by
  intro h
  have hsurvives := h ((creating 2).run plain emptyDisk) _ (.single ⟨creating 2, rfl⟩) .refl
  have hempty : (createPlan plain emptyDisk noteSpec "agent" "ada" "ada" none (fun _ => none) "").toOption.any
      (·.summary.workflowId = "note") = true := by decide +kernel
  have hrefused : (createPlan plain ((creating 2).run plain emptyDisk) noteSpec "agent" "ada" "ada" none
      (fun _ => none) "").toOption.isSome = false := by decide +kernel
  have hunreadable : (getWorkflow plain ((creating 2).run plain emptyDisk) "note" "agent" "ada").toOption.isSome =
      false := by decide +kernel
  cases hplan : createPlan plain emptyDisk noteSpec "agent" "ada" "ada" none (fun _ => none) "" with
  | error err =>
    rw [hplan] at hempty
    cases hempty
  | ok plan =>
    rw [hplan] at hempty
    have hid : plan.summary.workflowId = "note" := of_decide_eq_true hempty
    rcases hsurvives.creatable _ _ _ _ _ _ _ plan hplan with hok | ⟨summary, hok⟩
    · rw [hok] at hrefused
      cases hrefused
    · rw [hid] at hok
      rw [hok] at hunreadable
      cases hunreadable

end StoppedCreate

end MindRoom.DynamicWorkflow
