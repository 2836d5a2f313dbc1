import MindRoom.Representation

/-! # Redactions are final

Once a redaction's target is tombstoned in a room, nothing readable of it is on record there
while the room's tenure lasts: no writer brings back the message, an edit of it or a prompt it
carried.
-/

namespace MindRoom

open Transaction

/-! ## Rows that carry nothing redacted

`lineage` is what each event of the server replaces: an event id names one event. `gone` is what
is tombstoned, by principal and room. -/

section

variable (lineage : String → Option String) (gone : String → String → String → Prop)

structure VisibleMessageRow.Lawful (v : VisibleMessageRow) : Prop where
  original : lineage v.logicalEventId = none
  revision : v.revisionEventId = v.logicalEventId ∨
    lineage v.revisionEventId = some v.logicalEventId
  present : ¬ gone v.principalId v.roomId v.logicalEventId
  readable : v.contentJson ≠ none → ¬ gone v.principalId v.roomId v.revisionEventId

structure UnresolvedEditRow.Lawful (u : UnresolvedEditRow) : Prop where
  target : lineage u.editEventId = some u.targetEventId
  edit : ¬ gone u.principalId u.roomId u.editEventId
  awaited : ¬ gone u.principalId u.roomId u.targetEventId

/-- The logical message that carries the question. -/
def InteractiveQuestionRow.CarriedBy (q : InteractiveQuestionRow) (v : VisibleMessageRow) : Prop :=
  key v = (q.principalId, q.roomId, q.questionEventId)

structure InteractiveQuestionRow.Lawful (visible : Table VisibleMessageRow)
    (q : InteractiveQuestionRow) : Prop where
  revision : ¬ gone q.principalId q.roomId q.revisionEventId
  carried : ∃ v ∈ visible, q.CarriedBy v

/-- Nothing redacted is on record. -/
structure Purged (visible : Table VisibleMessageRow) (unresolved : Table UnresolvedEditRow)
    (questions : Table InteractiveQuestionRow) : Prop where
  messages : ∀ v ∈ visible, v.Lawful lineage gone
  edits : ∀ u ∈ unresolved, u.Lawful lineage gone
  prompts : ∀ q ∈ questions, q.Lawful gone visible

end

/-- Nothing redacted is on record in the database. -/
def DB.Purged (lineage : String → Option String) (db : DB) : Prop :=
  MindRoom.Purged lineage (IsTombstoned db) db.visibleMessages db.unresolvedEdits
    db.interactiveQuestions

/-! ## Statements on the tables -/

/-- An update leaves every key in place. -/
theorem exists_key_update {t : Table VisibleMessageRow} {p : VisibleMessageRow → Prop}
    {_ : DecidablePred p} {f : VisibleMessageRow → VisibleMessageRow} (hf : ∀ r, key (f r) = key r)
    {k : String × String × String} (h : ∃ v ∈ t, key v = k) : ∃ v ∈ t.update p f hf, key v = k := by
  obtain ⟨v, hv, hk⟩ := h
  by_cases hp : p v
  · exact ⟨f v, Table.mem_update.mpr (.inl ⟨v, hv, hp, rfl⟩), (hf v).trans hk⟩
  · exact ⟨v, Table.mem_update.mpr (.inr ⟨hv, hp⟩), hk⟩

/-- Withholding the body of one revision leaves its rows where they are, and unreadable. -/
theorem mem_withhold {t : Table VisibleMessageRow} {p r target : String} {n : Nat} {v : VisibleMessageRow}
    (hv : v ∈ t.update
      (fun v => v.principalId = p ∧ v.roomId = r ∧ v.revisionEventId = target)
      (fun v => { v with contentJson := none, refreshToken := some n })) :
    (∃ v₀ ∈ t, key v₀ = key v) ∧ (v.principalId = p → v.roomId = r → v.contentJson ≠ none →
      v.revisionEventId ≠ target) := by
  simp only [Table.mem_update] at hv
  rcases hv with ⟨v₀, hv₀, _, rfl⟩ | ⟨hv, hother⟩
  · exact ⟨⟨v₀, hv₀, rfl⟩, fun _ _ hc => absurd rfl hc⟩
  · exact ⟨⟨v, hv, rfl⟩, fun hp hr _ ht => hother ⟨hp, hr, ht⟩⟩

namespace Purged

variable {lineage : String → Option String} {gone gone' : String → String → String → Prop}
  {visible visible' : Table VisibleMessageRow} {unresolved unresolved' : Table UnresolvedEditRow}
  {questions questions' : Table InteractiveQuestionRow}

/-- Rows leave, and no question outlives the message that carries it. -/
theorem sub (h : Purged lineage gone visible unresolved questions)
    (hg : ∀ p r t, gone' p r t → gone p r t) (hv : ∀ v ∈ visible', v ∈ visible) (hu : ∀ u ∈ unresolved', u ∈ unresolved)
    (hq : ∀ q ∈ questions', q ∈ questions ∧ ∀ v ∈ visible, q.CarriedBy v → v ∈ visible') :
    Purged lineage gone' visible' unresolved' questions' := by
  refine ⟨fun v hv' => ?_, fun u hu' => ?_, fun q hq' => ?_⟩
  · have hl := h.messages v (hv v hv')
    exact ⟨hl.original, hl.revision, fun hg' => hl.present (hg _ _ _ hg'), fun hc hg' => hl.readable hc (hg _ _ _ hg')⟩
  · have hl := h.edits u (hu u hu')
    exact ⟨hl.target, fun hg' => hl.edit (hg _ _ _ hg'), fun hg' => hl.awaited (hg _ _ _ hg')⟩
  · obtain ⟨hmem, hkept⟩ := hq q hq'
    have hl := h.prompts q hmem
    obtain ⟨v, hv, hc⟩ := hl.carried
    exact ⟨fun hg' => hl.revision (hg _ _ _ hg'), v, hkept v hv hc, hc⟩

theorem cascade {q : VisibleMessageRow → Prop} [DecidablePred q] : ∀ r ∈ questions.delete (fun r => visible.Any fun v =>
        q v ∧ key v = (r.principalId, r.roomId, r.questionEventId)),
      r ∈ questions ∧ ∀ v ∈ visible, r.CarriedBy v → v ∈ visible.delete q := by
  intro r hr
  obtain ⟨hmem, hno⟩ := Table.mem_delete.mp hr
  refine ⟨hmem, fun v hv hc => Table.mem_delete.mpr ⟨hv, fun hq => hno ?_⟩⟩
  exact ⟨v, hv, hq, hc⟩

/-- Lawful changes of rows that stay where they are. -/
theorem revise (h : Purged lineage gone visible unresolved questions)
    {p : VisibleMessageRow → Prop} {_ : DecidablePred p} {f : VisibleMessageRow → VisibleMessageRow}
    (hf : ∀ r, key (f r) = key r) (hlawful : ∀ v ∈ visible, p v → v.Lawful lineage gone → (f v).Lawful lineage gone) :
    Purged lineage gone (visible.update p f hf) unresolved questions := by
  refine ⟨fun v hv => ?_, h.edits, fun q hq => ?_⟩
  · rcases Table.mem_update.mp hv with ⟨v₀, hv₀, hp, rfl⟩ | ⟨hv', _⟩
    · exact hlawful v₀ hv₀ hp (h.messages v₀ hv₀)
    · exact h.messages v hv'
  · have hl := h.prompts q hq
    exact ⟨hl.revision, exists_key_update hf hl.carried⟩

theorem insert (h : Purged lineage gone visible unresolved questions) {row : VisibleMessageRow}
    (hrow : row.Lawful lineage gone) : Purged lineage gone (visible.insertOrIgnore row) unresolved questions := by
  refine ⟨fun v hv => ?_, h.edits, fun q hq => ?_⟩
  · rcases Table.mem_insertOrIgnore.mp hv with hv' | ⟨rfl, _⟩
    · exact h.messages v hv'
    · exact hrow
  · have hl := h.prompts q hq
    obtain ⟨v, hv, hc⟩ := hl.carried
    exact ⟨hl.revision, v, Table.mem_insertOrIgnore.mpr (.inl hv), hc⟩

theorem hold (h : Purged lineage gone visible unresolved questions)
    (hu : ∀ u ∈ unresolved', u ∈ unresolved ∨ u.Lawful lineage gone) :
    Purged lineage gone visible unresolved' questions where
  messages := h.messages
  edits u hu' := (hu u hu').elim (h.edits u) id
  prompts := h.prompts

theorem ask (h : Purged lineage gone visible unresolved questions)
    (hq : ∀ q' ∈ questions', (∃ q ∈ questions, key q' = key q ∧ q'.roomId = q.roomId) ∨ q'.Lawful gone visible) :
    Purged lineage gone visible unresolved questions' where
  messages := h.messages
  edits := h.edits
  prompts q' hq' := by
    rcases hq q' hq' with ⟨q, hmem, hk, hroom⟩ | hl
    · have hl := h.prompts q hmem
      have hp : q'.principalId = q.principalId := congrArg (·.1) hk
      have hid : q'.questionEventId = q.questionEventId := congrArg (·.2.1) hk
      have hrev : q'.revisionEventId = q.revisionEventId := congrArg (·.2.2) hk
      obtain ⟨v, hv, hc⟩ := hl.carried
      refine ⟨?_, v, hv, ?_⟩
      · rw [hp, hroom, hrev]
        exact hl.revision
      · show key v = _
        rw [hp, hroom, hid]
        exact hc
    · exact hl

/-- A redaction: the target is gone, and so is everything readable of it. -/
theorem redact (h : Purged lineage gone visible unresolved questions) (p r target : String)
    (hgone : ∀ p' r' t, gone' p' r' t → gone p' r' t ∨ (p' = p ∧ r' = r ∧ t = target))
    (hv : ∀ v ∈ visible', v ∈ visible) (hu : ∀ u ∈ unresolved', u ∈ unresolved)
    (hq : ∀ q ∈ questions', q ∈ questions ∧ ∀ v ∈ visible, q.CarriedBy v → v ∈ visible')
    (hlogical : ∀ v ∈ visible', v.principalId = p → v.roomId = r → v.logicalEventId ≠ target)
    (hreadable : ∀ v ∈ visible', v.principalId = p → v.roomId = r → v.contentJson ≠ none → v.revisionEventId ≠ target)
    (hheld : ∀ u ∈ unresolved', u.principalId = p → u.roomId = r → u.editEventId ≠ target ∧ u.targetEventId ≠ target)
    (hasked : ∀ q ∈ questions', q.principalId = p → q.roomId = r → q.revisionEventId ≠ target) :
    Purged lineage gone' visible' unresolved' questions' := by
  refine ⟨fun v hv' => ?_, fun u hu' => ?_, fun q hq' => ?_⟩
  · have hl := h.messages v (hv v hv')
    refine ⟨hl.original, hl.revision, fun hg => ?_, fun hc hg => ?_⟩
    · rcases hgone _ _ _ hg with hg | ⟨hp, hr, ht⟩
      · exact hl.present hg
      · exact hlogical v hv' hp hr ht
    · rcases hgone _ _ _ hg with hg | ⟨hp, hr, ht⟩
      · exact hl.readable hc hg
      · exact hreadable v hv' hp hr hc ht
  · have hl := h.edits u (hu u hu')
    refine ⟨hl.target, fun hg => ?_, fun hg => ?_⟩
    · rcases hgone _ _ _ hg with hg | ⟨hp, hr, ht⟩
      · exact hl.edit hg
      · exact (hheld u hu' hp hr).1 ht
    · rcases hgone _ _ _ hg with hg | ⟨hp, hr, ht⟩
      · exact hl.awaited hg
      · exact (hheld u hu' hp hr).2 ht
  · obtain ⟨hmem, hkept⟩ := hq q hq'
    have hl := h.prompts q hmem
    obtain ⟨v, hv, hc⟩ := hl.carried
    refine ⟨fun hg => ?_, v, hkept v hv hc, hc⟩
    rcases hgone _ _ _ hg with hg | ⟨hp, hr, ht⟩
    · exact hl.revision hg
    · exact hasked q hq' hp hr ht

end Purged

/-! ## Statements on the database -/

namespace DB.Purged

variable {lineage : String → Option String} {db db' : DB}

theorem congr (h : db.Purged lineage) (hv : db'.visibleMessages = db.visibleMessages)
    (hu : db'.unresolvedEdits = db.unresolvedEdits) (hq : db'.interactiveQuestions = db.interactiveQuestions)
    (ht : db'.redactionTombstones = db.redactionTombstones) : db'.Purged lineage := by
  unfold DB.Purged IsTombstoned
  rw [hv, hu, hq, ht]
  exact h

theorem deleteUnresolved (h : db.Purged lineage) (q : UnresolvedEditRow → Prop) [DecidablePred q] :
    (deleteUnresolved q db).Purged lineage :=
  h.sub (fun _ _ _ hg => hg) (fun _ hv => hv) (fun _ hu => (Table.mem_delete.mp hu).1)
    fun _ hq => ⟨hq, fun _ hv _ => hv⟩

theorem deleteVisible (h : db.Purged lineage) (q : VisibleMessageRow → Prop) [DecidablePred q] :
    (deleteVisible q db).Purged lineage :=
  h.sub (fun _ _ _ hg => hg) (fun _ hv => (Table.mem_delete.mp hv).1) (fun _ hu => hu)
    MindRoom.Purged.cascade

theorem deleteHydration (h : db.Purged lineage) (p r t : String) :
    (deleteHydration p r t db).Purged lineage := h.congr rfl rfl rfl rfl

/-- A prompt of a message on record, carried by a revision that is not redacted. -/
theorem recordProjectedPrompt (h : db.Purged lineage) {p r question revision sender : String}
    {epoch : Int} {content : Dict} (hgone : ¬ IsTombstoned db p r revision)
    (hvisible : ∃ v ∈ db.visibleMessages, key v = (p, r, question)) :
    (recordProjectedPrompt p r question revision sender epoch content db).Purged lineage := by
  rcases recordProjectedPrompt_cases (rfl : MindRoom.recordProjectedPrompt p r question revision
    sender epoch content db = _) with heq | heq | ⟨questionJson, heq⟩
  all_goals rw [heq]
  · exact h
  · exact h.congr rfl rfl rfl rfl
  · refine h.ask fun q' hq' => ?_
    rcases Table.mem_insertOrIgnore.mp hq' with hold | ⟨rfl, _⟩
    · exact .inl ⟨q', hold, rfl, rfl⟩
    · exact .inr ⟨hgone, hvisible⟩

theorem installRevision (h : db.Purged lineage) {p r id revision : String} {ts : Int}
    {content : Dict} {n : Nat} (hgone : ¬ IsTombstoned db p r revision)
    (hrevision : revision = id ∨ lineage revision = some id) :
    (installRevision p r id revision ts content n db).Purged lineage := by
  apply MindRoom.Purged.revise h
  · exact fun _ => rfl
  intro v _ hk hv
  have hp : v.principalId = p := congrArg (·.1) hk
  have hr : v.roomId = r := congrArg (·.2.1) hk
  have hid : v.logicalEventId = id := congrArg (·.2.2) hk
  refine ⟨hv.original, ?_, hv.present, fun _ => ?_⟩
  · show revision = v.logicalEventId ∨ lineage revision = some v.logicalEventId
    rw [hid]
    exact hrevision
  · show ¬ IsTombstoned db v.principalId v.roomId revision
    rw [hp, hr]
    exact hgone

/-! ### Folds -/

variable {event : ProjectedEvent}

theorem holdUnresolvedEdit (h : db.Purged lineage) {p : String}
    {target : String} (hlineage : lineage event.eventId = some target)
    (hedit : ¬ IsTombstoned db p event.roomId event.eventId) (htarget : ¬ IsTombstoned db p event.roomId target) :
    (holdUnresolvedEdit p event target db).Purged lineage := by
  unfold MindRoom.holdUnresolvedEdit
  split
  · split
    · exact h
    · refine h.hold fun u hu => ?_
      simp only [Table.mem_upsert] at hu
      rcases hu with ⟨u₀, _, hk, _, rfl⟩ | ⟨hu, _⟩ | ⟨rfl, _⟩
      · have hp : u₀.principalId = p := congrArg (·.1) hk
        have hr : u₀.roomId = event.roomId := congrArg (·.2.1) hk
        have ht : u₀.targetEventId = target := congrArg (·.2.2.1) hk
        refine .inr ⟨ht ▸ hlineage, ?_, ?_⟩
        · show ¬ IsTombstoned db u₀.principalId u₀.roomId event.eventId
          rw [hp, hr]
          exact hedit
        · show ¬ IsTombstoned db u₀.principalId u₀.roomId u₀.targetEventId
          rw [hp, hr, ht]
          exact htarget
      · exact .inl hu
      · exact .inr ⟨hlineage, hedit, htarget⟩
  · refine h.hold fun u hu => ?_
    rcases Table.mem_insertOrIgnore.mp hu with hu | ⟨rfl, _⟩
    · exact .inl hu
    · exact .inr ⟨hlineage, hedit, htarget⟩

theorem insertVisible_carries (row : VisibleMessageRow) (db : DB) :
    ∃ v ∈ (insertVisible row db).visibleMessages, key v = key row := by
  by_cases hk : ∃ v ∈ db.visibleMessages, key v = key row
  · obtain ⟨v, hv, hk⟩ := hk
    exact ⟨v, Table.mem_insertOrIgnore.mpr (.inl hv), hk⟩
  · refine ⟨row, Table.mem_insertOrIgnore.mpr (.inr ⟨rfl, fun v hv hkv => hk ⟨v, hv, hkv⟩⟩), rfl⟩

theorem visibleMessages_recordProjectedPrompt (p r question revision sender : String) (epoch : Int)
    (content : Dict) (db : DB) :
    (MindRoom.recordProjectedPrompt p r question revision sender epoch content db).visibleMessages =
      db.visibleMessages := by
  rcases recordProjectedPrompt_cases (rfl : MindRoom.recordProjectedPrompt p r question revision
    sender epoch content db = _) with heq | heq | ⟨_, heq⟩
  all_goals
    rw [heq]
    try rfl

theorem isTombstoned_recordProjectedPrompt (p r question revision sender : String) (epoch : Int)
    (content : Dict) (db : DB) :
    IsTombstoned (MindRoom.recordProjectedPrompt p r question revision sender epoch content db) =
      IsTombstoned db := by
  rcases recordProjectedPrompt_cases (rfl : MindRoom.recordProjectedPrompt p r question revision
    sender epoch content db = _) with heq | heq | ⟨_, heq⟩
  all_goals
    rw [heq]
    try rfl

/-- An edit held for a message on record is installed unless it is redacted. -/
theorem applyUnresolvedEdit (h : db.Purged lineage) {p : String} {n : Nat} {epoch : Int}
    (hcarried : ∃ v ∈ db.visibleMessages, key v = (p, event.roomId, event.eventId)) :
    (applyUnresolvedEdit p event n epoch db).Purged lineage := by
  have hreleased := h.deleteUnresolved fun r => r.principalId = p ∧ r.roomId = event.roomId ∧
    r.targetEventId = event.eventId
  unfold MindRoom.applyUnresolvedEdit
  dsimp only
  split
  · exact hreleased
  · next held hheld =>
    obtain ⟨hmem, hp, hr, ht, _⟩ := heldAt_eq_some.mp hheld
    have hlineage : lineage held.editEventId = some event.eventId := ht ▸ (h.edits held hmem).target
    split
    · exact hreleased
    · next hgone =>
      refine (hreleased.recordProjectedPrompt hgone hcarried).installRevision ?_ (.inr hlineage)
      rw [isTombstoned_recordProjectedPrompt]
      exact hgone

theorem projectOriginal (h : db.Purged lineage) {p : String} (n : Nat)
    (epoch : Int) (hlineage : lineage event.eventId = none) (hgone : ¬ IsTombstoned db p event.roomId event.eventId) :
    (projectOriginal p event n epoch db).Purged lineage := by
  have hinsert : (insertVisible (originalRow p event n epoch) db).Purged lineage :=
    MindRoom.Purged.insert h ⟨hlineage, .inl rfl, hgone, fun _ => hgone⟩
  have hcarried := insertVisible_carries (originalRow p event n epoch) db
  refine applyUnresolvedEdit (hinsert.recordProjectedPrompt hgone hcarried) ?_
  rw [visibleMessages_recordProjectedPrompt]
  exact hcarried

theorem projectEdit (h : db.Purged lineage) {p : String} {target : String}
    (n : Nat) (epoch : Int) (hlineage : lineage event.eventId = some target)
    (hgone : ¬ IsTombstoned db p event.roomId event.eventId) :
    (projectEdit p event target n epoch db).Purged lineage := by
  unfold MindRoom.projectEdit
  split
  · split
    · exact h
    · next htarget => exact h.holdUnresolvedEdit hlineage hgone htarget
  · next current hcur =>
    obtain ⟨hmem, hp, hr, ht⟩ := visibleAt_eq_some.mp hcur
    have hcarried : ∃ v ∈ db.visibleMessages, key v = (p, event.roomId, target) :=
      ⟨current, hmem, by rw [← hp, ← hr, ← ht]; rfl⟩
    split
    · exact h
    · dsimp only
      split
      · refine (h.recordProjectedPrompt hgone hcarried).installRevision ?_ (.inr hlineage)
        rw [isTombstoned_recordProjectedPrompt]
        exact hgone
      · exact h.recordProjectedPrompt hgone hcarried

theorem isTombstoned_of_insert {p r target : String}
    (ht : db'.redactionTombstones = db.redactionTombstones.insertOrIgnore ⟨p, r, target⟩)
    {p' r' t : String} (h : IsTombstoned db' p' r' t) : IsTombstoned db p' r' t ∨ (p' = p ∧ r' = r ∧ t = target) := by
  rw [isTombstoned_iff, ht] at h
  rcases Table.mem_insertOrIgnore.mp h with hold | ⟨heq, _⟩
  · exact .inl (isTombstoned_iff.mpr hold)
  · exact .inr ⟨congrArg (·.principalId) heq, congrArg (·.roomId) heq, congrArg (·.redactedEventId) heq⟩

/-- A redaction deletes the message it names, or withholds the body of the revision it names. -/
theorem projectRedaction (h : db.Purged lineage) (p : String) (event : ProjectedEvent)
    (target : String) (n : Nat) : (projectRedaction p event target n db).Purged lineage := by
  have hheld : ∀ u ∈ (db.unresolvedEdits.delete fun r => r.principalId = p ∧
        r.roomId = event.roomId ∧ r.editEventId = target).delete (fun r => r.principalId = p ∧
        r.roomId = event.roomId ∧ r.targetEventId = target),
      u ∈ db.unresolvedEdits ∧ (u.principalId = p → u.roomId = event.roomId →
        u.editEventId ≠ target ∧ u.targetEventId ≠ target) := by
    intro u hu
    obtain ⟨hu, htarget⟩ := Table.mem_delete.mp hu
    obtain ⟨hu, hedit⟩ := Table.mem_delete.mp hu
    exact ⟨hu, fun hp hr => ⟨fun h => hedit ⟨hp, hr, h⟩, fun h => htarget ⟨hp, hr, h⟩⟩⟩
  have hasked : ∀ q ∈ db.interactiveQuestions.delete fun q => q.principalId = p ∧
        q.roomId = event.roomId ∧ q.revisionEventId = target,
      q ∈ db.interactiveQuestions ∧
        (q.principalId = p → q.roomId = event.roomId → q.revisionEventId ≠ target) := by
    intro q hq
    obtain ⟨hq, hrev⟩ := Table.mem_delete.mp hq
    exact ⟨hq, fun hp hr h => hrev ⟨hp, hr, h⟩⟩
  unfold MindRoom.projectRedaction
  dsimp only
  split
  · next row hrow =>
    -- the target is a message, so no other row names it as its revision
    obtain ⟨hmem, hp, hr, ht⟩ := visibleAt_eq_some.mp hrow
    have horiginal : lineage target = none := ht ▸ (h.messages row hmem).original
    apply MindRoom.Purged.redact h p event.roomId target
    · exact fun _ _ _ => isTombstoned_of_insert rfl
    · exact fun v hv => (Table.mem_delete.mp hv).1
    · exact fun u hu => (hheld u hu).1
    · intro q hq
      obtain ⟨hq, hkept⟩ := MindRoom.Purged.cascade q hq
      exact ⟨(hasked q hq).1, hkept⟩
    · intro v hv hvp hvr hvt
      refine (Table.mem_delete.mp hv).2 ?_
      show (v.principalId, v.roomId, v.logicalEventId) = _
      rw [hvp, hvr, hvt]
    · intro v hv hvp hvr _ hrev
      obtain ⟨hv, hother⟩ := Table.mem_delete.mp hv
      rcases (h.messages v hv).revision with hown | hedit
      · refine hother ?_
        show (v.principalId, v.roomId, v.logicalEventId) = _
        rw [hvp, hvr, ← hown, hrev]
      · rw [hrev, horiginal] at hedit
        cases hedit
    · exact fun u hu => (hheld u hu).2
    · exact fun q hq => (hasked q (MindRoom.Purged.cascade q hq).1).2
  · next hnone =>
    -- no message is the target, and the rows that name it as their revision are withheld
    have hwithheld : MindRoom.Purged lineage (IsTombstoned db)
        (db.visibleMessages.update (fun r => r.principalId = p ∧ r.roomId = event.roomId ∧
          r.revisionEventId = target)
          (fun r => { r with contentJson := none, refreshToken := some n }))
        db.unresolvedEdits db.interactiveQuestions := by
      apply h.revise
      exact fun v _ _ hv => ⟨hv.original, hv.revision, hv.present, fun hc => absurd rfl hc⟩
    apply hwithheld.redact p event.roomId target
    · exact fun _ _ _ => isTombstoned_of_insert rfl
    · exact fun v hv => hv
    · exact fun u hu => (hheld u hu).1
    · exact fun q hq => ⟨(hasked q hq).1, fun _ hv _ => hv⟩
    · intro v hv hvp hvr hvt
      obtain ⟨⟨v₀, hv₀, hk⟩, _⟩ := mem_withhold hv
      refine Table.get?_eq_none.mp hnone v₀ hv₀ (hk.trans ?_)
      show (v.principalId, v.roomId, v.logicalEventId) = _
      rw [hvp, hvr, hvt]
    · exact fun v hv => (mem_withhold hv).2
    · exact fun u hu => (hheld u hu).2
    · exact fun q hq => (hasked q hq).2

/-- A fold of an event whose content says what it replaces. -/
theorem foldEvent (h : db.Purged lineage) {p : String} (n : Nat) (epoch : Int) (hlineage : event.redactsEventId = none →
      replacementTarget event.content = lineage event.eventId) :
    (foldEvent p event n epoch db).2.Purged lineage := by
  unfold MindRoom.foldEvent
  split
  · exact h.projectRedaction ..
  · next hredacts =>
    have hlineage := hlineage hredacts
    split
    · exact h
    · next hgone =>
      split
      · next hnone => exact h.projectOriginal n epoch (hlineage ▸ hnone) hgone
      · next target htarget => exact h.projectEdit n epoch (hlineage ▸ htarget) hgone

/-! ### Refetches, stale deliveries and fences -/

theorem recordRefetchedRevision (h : db.Purged lineage) {p : String} {k : RefetchKey}
    {revision : RefetchedRevision} {row : VisibleMessageRow} (hrevision : revision.revisionEventId = k.logicalEventId ∨
      lineage revision.revisionEventId = some k.logicalEventId)
    (hgone : ¬ IsTombstoned db p k.roomId revision.revisionEventId)
    (hrow : db.visibleMessages.find? (k.Matches p) = some row) :
    (recordRefetchedRevision p k revision row db).Purged lineage := by
  obtain ⟨hmem, hk, _⟩ := Table.mem_of_find? hrow
  unfold MindRoom.recordRefetchedRevision
  refine DB.Purged.recordProjectedPrompt ?_ hgone ?_
  · apply MindRoom.Purged.revise h
    · exact fun _ => rfl
    intro v _ hv hl
    have hp : v.principalId = p := congrArg (·.1) hv.1
    have hr : v.roomId = k.roomId := congrArg (·.2.1) hv.1
    have hid : v.logicalEventId = k.logicalEventId := congrArg (·.2.2) hv.1
    refine ⟨hl.original, ?_, hl.present, fun _ => ?_⟩
    · show revision.revisionEventId = v.logicalEventId ∨
        lineage revision.revisionEventId = some v.logicalEventId
      rw [hid]
      exact hrevision
    · show ¬ IsTombstoned db v.principalId v.roomId revision.revisionEventId
      rw [hp, hr]
      exact hgone
  · apply exists_key_update
    · exact fun _ => rfl
    · exact ⟨row, hmem, hk⟩

theorem dropRefetchedMessage (h : db.Purged lineage) (p : String) (k : RefetchKey) :
    (dropRefetchedMessage p k db).2.Purged lineage := by
  unfold MindRoom.dropRefetchedMessage
  split
  · exact h
  · exact (h.deleteVisible _).deleteHydration ..

theorem discardDeliveryEvent (h : db.Purged lineage) (p e : String) : (discardDeliveryEvent p e db).Purged lineage := by
  unfold MindRoom.discardDeliveryEvent
  dsimp only
  split
  · exact (h.deleteUnresolved _).deleteVisible _
  · exact ((h.deleteUnresolved _).deleteVisible _).deleteHydration ..

theorem dropProjection (h : db.Purged lineage) (p r : String) : (dropProjection p r db).Purged lineage := by
  have hdropped := h.deleteVisible fun v => v.principalId = p ∧ v.roomId = r
  refine hdropped.sub (fun p' r' t ht => ?_) (fun _ hv => hv)
    (fun _ hu => (Table.mem_delete.mp hu).1) fun _ hq => ⟨hq, fun _ hv _ => hv⟩
  exact isTombstoned_iff.mpr (Table.mem_delete.mp (isTombstoned_iff.mp ht)).1

end DB.Purged

/-! ## Tombstones of one tenure -/

section

variable {db : DB} {x : TombstoneRow}

theorem redactionTombstones_recordProjectedPrompt (p r question revision sender : String)
    (epoch : Int) (content : Dict) (db : DB) :
    (recordProjectedPrompt p r question revision sender epoch content db).redactionTombstones =
      db.redactionTombstones := by
  rcases recordProjectedPrompt_cases (rfl : MindRoom.recordProjectedPrompt p r question revision
    sender epoch content db = _) with heq | heq | ⟨_, heq⟩
  all_goals
    rw [heq]
    try rfl

theorem redactionTombstones_projectOriginal (p : String) (event : ProjectedEvent) (n : Nat) (epoch : Int) (db : DB) :
    (projectOriginal p event n epoch db).redactionTombstones = db.redactionTombstones := by
  have hprompt := redactionTombstones_recordProjectedPrompt p event.roomId event.eventId
    event.eventId event.sender epoch event.content (insertVisible (originalRow p event n epoch) db)
  unfold projectOriginal applyUnresolvedEdit
  dsimp only
  split
  · exact hprompt
  · split
    · exact hprompt
    · exact (redactionTombstones_recordProjectedPrompt ..).trans hprompt

theorem redactionTombstones_projectEdit (p : String) (event : ProjectedEvent) (target : String)
    (n : Nat) (epoch : Int) (db : DB) :
    (projectEdit p event target n epoch db).redactionTombstones = db.redactionTombstones := by
  unfold projectEdit
  split
  · split
    · rfl
    · obtain ⟨edits, heq⟩ := holdUnresolvedEdit_eq p event target db
      rw [heq]
  · split
    · rfl
    · dsimp only
      split
      · exact redactionTombstones_recordProjectedPrompt ..
      · exact redactionTombstones_recordProjectedPrompt ..

/-- No fold forgets a redaction. -/
theorem mem_redactionTombstones_foldEvent (p : String) (event : ProjectedEvent) (n : Nat)
    (epoch : Int) (hx : x ∈ db.redactionTombstones) : x ∈ (foldEvent p event n epoch db).2.redactionTombstones := by
  unfold foldEvent
  split
  · next target _ =>
    have hrecorded : (projectRedaction p event target n db).redactionTombstones =
        db.redactionTombstones.insertOrIgnore ⟨p, event.roomId, target⟩ := by
      unfold projectRedaction
      dsimp only
      split <;> rfl
    show x ∈ (projectRedaction p event target n db).redactionTombstones
    rw [hrecorded]
    exact Table.mem_insertOrIgnore.mpr (.inl hx)
  · split
    · exact hx
    · split
      · rw [redactionTombstones_projectOriginal]
        exact hx
      · rw [redactionTombstones_projectEdit]
        exact hx

end

/-- Tenures only move on, and while one lasts a redaction in its room is remembered. -/
structure Remembers (p r t : String) (db db' : DB) : Prop where
  epoch : currentMembershipEpoch db p r ≤ currentMembershipEpoch db' p r
  tombstone : currentMembershipEpoch db' p r = currentMembershipEpoch db p r →
    IsTombstoned db p r t → IsTombstoned db' p r t

instance (p r t : String) : IsPreorder DB (Remembers p r t) where
  refl _ := ⟨le_refl _, fun _ h => h⟩
  trans a b c hab hbc := by
    refine ⟨hab.epoch.trans hbc.epoch, fun hepoch ht => ?_⟩
    have hle := hab.epoch
    have hle' := hbc.epoch
    exact hbc.tombstone (by omega) (hab.tombstone (by omega) ht)

section

variable {b : Scope} {db db' : DB}

theorem remembers_of_sub {p r t : String} (ht : tenures db' = tenures db)
    (hsub : ∀ x ∈ db.redactionTombstones, x ∈ db'.redactionTombstones) : Remembers p r t db db' where
  epoch := le_of_eq (currentMembershipEpoch_of_tenures ht p r).symm
  tombstone _ hx := isTombstoned_iff.mpr (hsub _ (isTombstoned_iff.mp hx))

/-- Only a fence forgets a redaction, and it ends the tenure. -/
theorem Statement.remembers (h : Statement b db db') (p r t : String) : Remembers p r t db db' := by
  have hbeside : db'.core.tombstones = db.core.tombstones ∧
      db'.core.membership = db.core.membership → Remembers p r t db db' := fun hc =>
    remembers_of_sub (tenures_of_core hc.2) fun _ hx =>
      (congrArg (_ ∈ ·) (hc.1 : db'.redactionTombstones = db.redactionTombstones)).mpr hx
  cases h with
  | amend h => exact hbeside ⟨congrArg Core.tombstones h.core, congrArg Core.membership h.core⟩
  | outbox h =>
    rw [h.eq]
    exact remembers_of_sub rfl fun _ hx => hx
  | gap p' r' _ =>
    obtain ⟨rows, heq⟩ := recordRoomHistoryRecoveryLocked_eq p' r'
      ⟨currentMembershipEpoch db p' r', MindRoom.departureFenced db p' r'⟩ db
    rw [heq]
    exact remembers_of_sub rfl fun _ hx => hx
  | settle p' recovery exhausted rank _ _ =>
    obtain ⟨rows, heq⟩ := settleRoomHistoryRecovery_eq p' recovery exhausted rank db
    rw [heq]
    exact remembers_of_sub rfl fun _ hx => hx
  | claimed p' r' => exact remembers_of_sub (ProjectionFrame.claim p' r' db).tenures fun _ hx => hx
  | deleteOutbox | journal | snapshot | unselect | consume | consumers =>
    exact remembers_of_sub rfl fun _ hx => hx
  | fold p' event n epoch _ _ =>
    exact remembers_of_sub (ProjectionFrame.fold p' event n epoch db).tenures
      fun _ hx => mem_redactionTombstones_foldEvent p' event n epoch hx
  | install p' k revision row _ _ _ _ =>
    refine remembers_of_sub
      (ProjectionFrame.recordRefetchedRevision p' k revision row db).tenures fun x hx => ?_
    unfold recordRefetchedRevision
    rw [redactionTombstones_recordProjectedPrompt]
    exact hx
  | drop p' k =>
    refine remembers_of_sub (ProjectionFrame.dropRefetchedMessage p' k db).tenures fun x hx => ?_
    unfold dropRefetchedMessage
    split <;> exact hx
  | discard p' e =>
    refine remembers_of_sub (ProjectionFrame.discardDeliveryEvent p' e db).tenures fun x hx => ?_
    unfold discardDeliveryEvent
    dsimp only
    split <;> exact hx
  | hydrate row _ => exact remembers_of_sub rfl fun _ hx => hx
  | producer p' effect _ => exact remembers_of_sub rfl fun _ hx => hx
  | departureFenced p' r' fenced _ =>
    have he := currentMembershipEpoch_setDepartureFenced p' r' fenced db p r
    exact ⟨le_of_eq he.symm, fun _ hx => hx⟩
  | fence p' r' _ =>
    have he := currentMembershipEpoch_setMembershipEpoch p' r'
      (currentMembershipEpoch db p' r' + 1) db p r
    by_cases hroom : (p', r') = (p, r)
    · rw [if_pos hroom] at he
      obtain ⟨rfl, rfl⟩ := Prod.mk.injEq _ _ _ _ ▸ hroom
      constructor
      · show _ ≤ currentMembershipEpoch (setMembershipEpoch p' r' _ db) p' r'
        omega
      · intro hsame
        have hsame : currentMembershipEpoch (setMembershipEpoch p' r'
          (currentMembershipEpoch db p' r' + 1) db) p' r' = currentMembershipEpoch db p' r' :=
          hsame
        omega
    · rw [if_neg hroom] at he
      refine ⟨le_of_eq he.symm, fun _ hx => isTombstoned_iff.mpr (Table.mem_delete.mpr ?_)⟩
      refine ⟨isTombstoned_iff.mp hx, fun hin => hroom ?_⟩
      rw [← hin.1, ← hin.2]

/-- What the callers promise of events and revisions: each says of its event what `lineage` has. -/
def Scope.following (lineage : String → Option String) : Scope :=
  .run (fun e => e.redactsEventId = none → replacementTarget e.content = lineage e.eventId) False
    fun k revision => revision.revisionEventId = k.logicalEventId ∨
      lineage revision.revisionEventId = some k.logicalEventId

variable {lineage : String → Option String}

/-- No statement brings back what is redacted. -/
theorem Statement.purged (hs : Statement (.following lineage) db db') (h : db.Purged lineage) :
    db'.Purged lineage := by
  have hbeside : db'.core.visible = db.core.visible ∧ db'.core.unresolved = db.core.unresolved ∧
      db'.core.questions = db.core.questions ∧ db'.core.tombstones = db.core.tombstones →
      db'.Purged lineage := fun hc => h.congr hc.1 hc.2.1 hc.2.2.1 hc.2.2.2
  cases hs with
  | amend hs =>
    exact hbeside ⟨congrArg Core.visible hs.core, congrArg Core.unresolved hs.core,
      congrArg Core.questions hs.core, congrArg Core.tombstones hs.core⟩
  | outbox hs =>
    rw [hs.eq]
    exact h.congr rfl rfl rfl rfl
  | gap p r _ =>
    obtain ⟨rows, heq⟩ := recordRoomHistoryRecoveryLocked_eq p r
      ⟨currentMembershipEpoch db p r, MindRoom.departureFenced db p r⟩ db
    rw [heq]
    exact h.congr rfl rfl rfl rfl
  | settle p recovery exhausted rank _ _ =>
    obtain ⟨rows, heq⟩ := settleRoomHistoryRecovery_eq p recovery exhausted rank db
    rw [heq]
    exact h.congr rfl rfl rfl rfl
  | consume p e source stored question _ _ _ _ _ =>
    have hasked : DB.Purged lineage { db with
        interactiveQuestions := (consumeRevision p e stored db).interactiveQuestions } := by
      refine h.ask fun q' hq' => .inl ?_
      simp only [consumeRevision, Table.mem_update] at hq'
      rcases hq' with ⟨q, hq, _, rfl⟩ | ⟨hq, _⟩
      · exact ⟨q, hq, rfl, rfl⟩
      · exact ⟨q', hq, rfl, rfl⟩
    exact hasked.congr rfl rfl rfl rfl
  | claimed | deleteOutbox | journal | snapshot | unselect | consumers =>
    exact h.congr rfl rfl rfl rfl
  | fold p event n epoch hb _ =>
    have h' : DB.Purged lineage { db with folded := db.folded ++ [(p, event)] } :=
      h.congr rfl rfl rfl rfl
    exact h'.foldEvent n epoch hb
  | install p k revision row hb _ hgone hrow => exact h.recordRefetchedRevision hb hgone hrow
  | drop p k => exact h.dropRefetchedMessage ..
  | discard p e => exact h.discardDeliveryEvent ..
  | hydrate row _ => exact h.congr rfl rfl rfl rfl
  | producer p effect _ => exact h.congr rfl rfl rfl rfl
  | departureFenced p r fenced _ => exact h.congr rfl rfl rfl rfl
  | fence p r _ =>
    have h' : (setMembershipEpoch p r (currentMembershipEpoch db p r + 1) db).Purged lineage :=
      h.congr rfl rfl rfl rfl
    exact h'.dropProjection p r

end

/-! ## Finality -/

/-- From the redaction of an event on, in every later state of the room's tenure, no readable
row, held edit or question names it. -/
theorem redaction_final {lineage : String → Option String} {host : Host} {s s' : DB}
    (hs : Reachable host (.following lineage) s) (hrun : Run host (.following lineage) s s')
    {p r t : String} (ht : IsTombstoned s p r t)
    (hepoch : currentMembershipEpoch s' p r = currentMembershipEpoch s p r) :
    (∀ v ∈ s'.visibleMessages, v.principalId = p → v.roomId = r → v.contentJson ≠ none →
      v.logicalEventId ≠ t ∧ v.revisionEventId ≠ t) ∧
    (∀ u ∈ s'.unresolvedEdits, u.principalId = p → u.roomId = r → u.editEventId ≠ t ∧ u.targetEventId ≠ t) ∧
    ∀ q ∈ s'.interactiveQuestions, q.principalId = p → q.roomId = r →
      q.revisionEventId ≠ t ∧ q.questionEventId ≠ t := by
  have hcovers : ∀ op, (Scope.following lineage).Covers op := Scope.run_covers _ _ _
  have hpurged : s'.Purged lineage := by
    have hreach : Reachable host (.following lineage) s' := by
      obtain ⟨clock, hinit⟩ := hs
      exact ⟨clock, hinit.trans hrun⟩
    refine hreach.invariant hcovers (fun clock => ?_) fun _ _ hst => hst.purged
    exact ⟨fun _ hv => absurd hv Table.not_mem_empty, fun _ hu => absurd hu Table.not_mem_empty,
      fun _ hq => absurd hq Table.not_mem_empty⟩
  have htomb : IsTombstoned s' p r t := by
    have hremembers : Remembers p r t s s' :=
      statements_within (fun _ _ hst => hst.remembers p r t) (hrun.statements hcovers hs)
    exact hremembers.tombstone hepoch ht
  refine ⟨?_, ?_, ?_⟩
  · rintro v hv rfl rfl hc
    have hl := hpurged.messages v hv
    exact ⟨fun h => hl.present (h ▸ htomb), fun h => hl.readable hc (h ▸ htomb)⟩
  · rintro u hu rfl rfl
    have hl := hpurged.edits u hu
    exact ⟨fun h => hl.edit (h ▸ htomb), fun h => hl.awaited (h ▸ htomb)⟩
  · rintro q hq rfl rfl
    have hl := hpurged.prompts q hq
    refine ⟨fun h => hl.revision (h ▸ htomb), fun h => ?_⟩
    -- the message that carries the question would be the redacted one
    obtain ⟨v, hv, hc⟩ := hl.carried
    have hp : v.principalId = q.principalId := congrArg (·.1) hc
    have hr : v.roomId = q.roomId := congrArg (·.2.1) hc
    have hid : v.logicalEventId = t := (congrArg (·.2.2) hc : _ = q.questionEventId).trans h
    refine (hpurged.messages v hv).present ?_
    rw [hp, hr, hid]
    exact htomb

/-! ## One run -/

namespace ReplayedEdit

open WithheldAnswer

def lineage (eventId : String) : Option String :=
  if eventId = "$e" then some "$o" else if eventId = "$x" then some "$q" else none

def replayed : DB := step host "@p" (.installHydrationChunk "!r" [edit "$e" "$o" 2] 0) walked

def request : RefreshRequest where
  roomId := "!r"
  threadId := none
  logicalEventId := "$o"
  revisionEventId := "$e"
  refreshToken := 0
  membershipEpoch := 0

/-- The refetch brings back the message as it was before the redacted edit. -/
def answer : RefetchedRevision where
  revisionEventId := "$o"
  revisionTs := 1
  revisionSender := "@a"
  revisionTransactionId := none
  content := (message "$o" 1).content

def refetched : DB := step host "@p" (.installRefetchedRevision request answer) replayed

theorem reachable_walked : Reachable host (.following lineage) walked := by
  refine ⟨fun _ => 0, .single (.op "@p" _ ?_)⟩
  intro event hevent
  have hlineage : ∀ e ∈ walk, e.redactsEventId = none →
      replacementTarget e.content = lineage e.eventId := by decide +kernel
  exact ⟨hlineage event hevent, fun h => nomatch h⟩

theorem run_refetched : Run host (.following lineage) walked refetched := by
  refine .tail (.single (.op "@p" _ ?_)) (.op "@p" _ (.inl rfl))
  intro event hevent
  obtain rfl := List.mem_singleton.mp hevent
  exact ⟨fun _ => by decide +kernel, fun h => nomatch h⟩

/-- The redacted edit is replayed and its message refetched, and the edit stays away. -/
theorem final_replayed : (∀ v ∈ refetched.visibleMessages, v.principalId = "@p" → v.roomId = "!r" →
      v.contentJson ≠ none → v.logicalEventId ≠ "$e" ∧ v.revisionEventId ≠ "$e") ∧
    (∀ u ∈ refetched.unresolvedEdits, u.principalId = "@p" → u.roomId = "!r" →
      u.editEventId ≠ "$e" ∧ u.targetEventId ≠ "$e") ∧
    ∀ q ∈ refetched.interactiveQuestions, q.principalId = "@p" → q.roomId = "!r" →
      q.revisionEventId ≠ "$e" ∧ q.questionEventId ≠ "$e" :=
  redaction_final reachable_walked run_refetched (by decide +kernel) (by decide +kernel)

example : (refetched.visibleMessages.rows.map fun v => (v.revisionEventId, v.contentJson)) =
    [("$o", some [("body", .str "answer")])] := by decide +kernel

end ReplayedEdit

end MindRoom
