import MindRoom.ProjectionFrame
import Mathlib.Data.List.MinMax

/-! # What a fold knows about the events it has folded

`Folded S l v` relates the view `v` of a room to the events `l` folded into it, `l` being part
of a set `S` of events with distinct IDs. Every row shows its original or one of the edits of
it by its own sender; every hold is one of the folded edits; and an edit that is the newest of
its sender for its target in all of `S`, and that nothing in `S` redacts, is shown once its
target is there and held until then.
-/

namespace MindRoom

open Function

/-! ## Originals, edits, redactions -/

namespace ProjectedEvent

/-- The revision an event is, in the order that decides which one is visible. -/
def revision (e : ProjectedEvent) : Int × String := (e.originServerTs, e.eventId)

/-- `revision` in its linear order. -/
def rank (e : ProjectedEvent) : Revision := toLex e.revision

/-- A new logical message. -/
def IsOriginal (e : ProjectedEvent) : Prop :=
  e.redactsEventId = none ∧ replacementTarget e.content = none

/-- An `m.replace` edit of `target`. -/
def Edits (e : ProjectedEvent) (target : String) : Prop :=
  e.redactsEventId = none ∧ replacementTarget e.content = some target

/-- An edit of `o` by the sender of `o`. -/
def OwnEdit (o e : ProjectedEvent) : Prop := e.Edits o.eventId ∧ e.sender = o.sender

def body (e : ProjectedEvent) : Dict :=
  if replacementTarget e.content = none then e.content else visibleContent e.content

/-- No text of the event is the preview of a sidecar. -/
def NoSidecar (e : ProjectedEvent) : Prop :=
  holdsUnresolvedSidecar e.content = false ∧
    holdsUnresolvedSidecar (visibleContent e.content) = false

instance (e : ProjectedEvent) : Decidable e.IsOriginal := inferInstanceAs (Decidable (_ ∧ _))

instance (e : ProjectedEvent) (target : String) : Decidable (e.Edits target) :=
  inferInstanceAs (Decidable (_ ∧ _))

instance (o e : ProjectedEvent) : Decidable (OwnEdit o e) := inferInstanceAs (Decidable (_ ∧ _))

theorem isNewerRevision_iff {e r : ProjectedEvent} : IsNewerRevision e.revision r.revision ↔ r.rank < e.rank := Iff.rfl

theorem eventId_eq_of_rank_eq {e r : ProjectedEvent} (h : e.rank = r.rank) :
    e.eventId = r.eventId := congrArg (fun x => (ofLex x).2) h

theorem Edits.not_original {e : ProjectedEvent} {target : String} (h : e.Edits target) :
    ¬ e.IsOriginal := fun ho => Option.some_ne_none target (h.2.symm.trans ho.2)

theorem Edits.target_eq {e : ProjectedEvent} {t t' : String} (h : e.Edits t) (h' : e.Edits t') :
    t = t' := Option.mem_unique h.2 h'.2

end ProjectedEvent

open ProjectedEvent

/-- A set of events of one room: distinct IDs, no sidecar content. -/
structure EventSet (roomId : String) (S : List ProjectedEvent) : Prop where
  inRoom : ∀ e ∈ S, e.roomId = roomId
  distinct : (S.map (·.eventId)).Nodup
  noSidecar : ∀ e ∈ S, e.NoSidecar

/-- Some event of the set redacts `id`. -/
def Redacted (S : List ProjectedEvent) (id : String) : Prop := ∃ d ∈ S, d.redactsEventId = some id

def NewestEdit (S : List ProjectedEvent) (x : ProjectedEvent) (target : String) : Prop :=
  x.Edits target ∧ ∀ e ∈ S, e.Edits target → e.sender = x.sender → e.rank ≤ x.rank

theorem EventSet.eq_of_eventId {roomId : String} {S : List ProjectedEvent} (hS : EventSet roomId S)
    {e r : ProjectedEvent} (he : e ∈ S) (hr : r ∈ S) (h : e.eventId = r.eventId) : e = r :=
  List.inj_on_of_nodup_map hS.distinct he hr h

/-- Every edit has a newest one for its target and sender. -/
theorem exists_newestEdit {S : List ProjectedEvent} {e : ProjectedEvent} {target : String}
    (he : e ∈ S) (ht : e.Edits target) : ∃ x ∈ S, NewestEdit S x target ∧ x.sender = e.sender := by
  have hmem : e ∈ S.filter (fun e' => e'.Edits target ∧ e'.sender = e.sender) := by
    simp [he, ht]
  cases hx : (S.filter (fun e' => e'.Edits target ∧ e'.sender = e.sender)).argmax rank with
  | none =>
    rw [List.argmax_eq_none.mp hx] at hmem
    cases hmem
  | some x =>
    have hxm := List.argmax_mem hx
    simp only [List.mem_filter, decide_eq_true_eq] at hxm
    refine ⟨x, hxm.1, ⟨hxm.2.1, fun e' he' ht' hs' => ?_⟩, hxm.2.2⟩
    refine List.le_of_mem_argmax ?_ hx
    simp [he', ht', hs', hxm.2.2]

/-! ## The invariant -/

section

variable (principalId : String) (epoch : Int)

/-- The row that shows the revision `r` of the logical message `o`. -/
def revisionRow (o r : ProjectedEvent) : VisibleMessageRow where
  principalId := principalId
  roomId := o.roomId
  logicalEventId := o.eventId
  threadId := encodeThreadId o.threadId
  sender := o.sender
  createdTs := o.originServerTs
  revisionEventId := r.eventId
  revisionTs := r.originServerTs
  contentJson := some r.body
  refreshToken := none
  membershipEpoch := epoch

/-- The row whose visible revision `r` was redacted. -/
def withheldRow (o r : ProjectedEvent) (token : Nat) : VisibleMessageRow :=
  { revisionRow principalId epoch o r with contentJson := none, refreshToken := some token }

/-- The row shows `r` for `o`, readable unless `r` was redacted. -/
def Shows (gone : Set String) (o r : ProjectedEvent) (row : VisibleMessageRow) : Prop :=
  (r.eventId ∉ gone ∧ row = revisionRow principalId epoch o r) ∨
    (r.eventId ∈ gone ∧ ∃ token, row = withheldRow principalId epoch o r token)

/-- The view after folding the events `l` of the set `S`. -/
structure Folded (S l : List ProjectedEvent) (v : View) : Prop where
  gone : ∀ id, id ∈ v.gone ↔ Redacted l id
  visible_some : ∀ id row, v.visible id = some row →
    id ∉ v.gone ∧ ∃ o ∈ l, o.IsOriginal ∧ o.eventId = id ∧
      ∃ r ∈ l, (r = o ∨ OwnEdit o r) ∧ Shows principalId epoch v.gone o r row
  visible_ne_none : ∀ o ∈ l, o.IsOriginal → o.eventId ∉ v.gone → v.visible o.eventId ≠ none
  held_some : ∀ target sender h, v.held target sender = some h →
    target ∉ v.gone ∧ (∀ o ∈ l, o.IsOriginal → o.eventId ≠ target) ∧
      ∃ e ∈ l, e.Edits target ∧ e.sender = sender ∧ e.eventId ∉ v.gone ∧
        h = heldRow principalId e target
  newest : ∀ x ∈ l, ∀ target, NewestEdit S x target → ¬ Redacted S x.eventId →
    ¬ Redacted S target →
    (∀ o ∈ l, o.IsOriginal → o.eventId = target → o.sender = x.sender → o.rank < x.rank →
      v.visible target = some (revisionRow principalId epoch o x)) ∧
    ((∀ o ∈ l, o.IsOriginal → o.eventId ≠ target) →
      v.held target x.sender = some (heldRow principalId x target))

variable {principalId epoch} {roomId : String} {S l : List ProjectedEvent} {v : View}

theorem folded_empty : Folded principalId epoch S [] View.empty where
  gone id := by simp [View.empty, Redacted]
  visible_some id row h := by cases h
  visible_ne_none o ho := by cases ho
  held_some target sender h hh := by cases hh
  newest x hx := by cases hx

theorem Redacted.mono {l l' : List ProjectedEvent} {id : String} (h : Redacted l id)
    (hsub : ∀ e ∈ l, e ∈ l') : Redacted l' id := by
  obtain ⟨d, hd, hr⟩ := h
  exact ⟨d, hsub d hd, hr⟩

variable {e : ProjectedEvent} {row : VisibleMessageRow} {gone : Set String}

/-- A further event that redacts nothing leaves the redacted set as it is. -/
theorem redacted_append_of_none (he : e.redactsEventId = none) (id : String) :
    Redacted (l ++ [e]) id ↔ Redacted l id := by
  constructor
  · rintro ⟨d, hd, hr⟩
    rcases List.mem_append.mp hd with hd | hd
    · exact ⟨d, hd, hr⟩
    · obtain rfl := List.mem_singleton.mp hd
      rw [he] at hr
      cases hr
  · exact fun h => h.mono fun d hd => List.mem_append_left _ hd

theorem redacted_append_of_some {t : String} (he : e.redactsEventId = some t)
    (id : String) : Redacted (l ++ [e]) id ↔ id = t ∨ Redacted l id := by
  constructor
  · rintro ⟨d, hd, hr⟩
    rcases List.mem_append.mp hd with hd | hd
    · exact .inr ⟨d, hd, hr⟩
    · obtain rfl := List.mem_singleton.mp hd
      exact .inl (Option.mem_unique hr he)
  · rintro (rfl | h)
    · exact ⟨e, by simp, he⟩
    · exact h.mono fun d hd => List.mem_append_left _ hd

/-- Where the next event stands in the set: it is one of the set, and none of `l`. -/
structure Next (roomId : String) (S l : List ProjectedEvent) (e : ProjectedEvent) : Prop where
  set : EventSet roomId S
  sub : ∀ e' ∈ l, e' ∈ S
  mem : e ∈ S
  fresh : e ∉ l

theorem Next.ne_of_mem {e e' : ProjectedEvent} (hn : Next roomId S l e) (he' : e' ∈ l) :
    e'.eventId ≠ e.eventId := fun h =>
  hn.fresh (hn.set.eq_of_eventId (hn.sub e' he') hn.mem h ▸ he')

/-- What a fold that changes neither the view nor the redactions still has to check about the
event it skipped. -/
theorem Folded.skip (hf : Folded principalId epoch S l v)
    (he : e.redactsEventId = none) (horig : e.IsOriginal → e.eventId ∈ v.gone)
    (hgone : ∀ id, id ∈ v.gone → Redacted S id)
    (hnewest : ∀ target, NewestEdit S e target → ¬ Redacted S e.eventId → ¬ Redacted S target →
      (∀ o ∈ l, o.IsOriginal → o.eventId = target → o.sender = e.sender → o.rank < e.rank →
        v.visible target = some (revisionRow principalId epoch o e)) ∧
      ((∀ o ∈ l, o.IsOriginal → o.eventId ≠ target) → v.held target e.sender = some (heldRow principalId e target))) :
    Folded principalId epoch S (l ++ [e]) v where
  gone id := by rw [redacted_append_of_none he, hf.gone]
  visible_some id row h := by
    obtain ⟨hid, o, ho, hoo, hk, r, hr, hrest⟩ := hf.visible_some id row h
    exact ⟨hid, o, List.mem_append_left _ ho, hoo, hk, r, List.mem_append_left _ hr, hrest⟩
  visible_ne_none o ho hoo hid := by
    rcases List.mem_append.mp ho with ho | ho
    · exact hf.visible_ne_none o ho hoo hid
    · obtain rfl := List.mem_singleton.mp ho
      exact absurd (horig hoo) hid
  held_some target sender h hh := by
    obtain ⟨ht, hno, e', he', hrest⟩ := hf.held_some target sender h hh
    refine ⟨ht, fun o ho hoo hk => ?_, e', List.mem_append_left _ he', hrest⟩
    rcases List.mem_append.mp ho with ho | ho
    · exact hno o ho hoo hk
    · obtain rfl := List.mem_singleton.mp ho
      exact ht (hk ▸ horig hoo)
  newest x hx target hnew hxr htr := by
    have hold : ∀ o ∈ l ++ [e], o.IsOriginal → o.eventId = target → o ∈ l := fun o ho hoo hk => by
      rcases List.mem_append.mp ho with ho | ho
      · exact ho
      · obtain rfl := List.mem_singleton.mp ho
        exact absurd (hgone _ (hk ▸ horig hoo)) htr
    have hx' : (∀ o ∈ l, o.IsOriginal → o.eventId = target → o.sender = x.sender →
          o.rank < x.rank → v.visible target = some (revisionRow principalId epoch o x)) ∧
        ((∀ o ∈ l, o.IsOriginal → o.eventId ≠ target) →
          v.held target x.sender = some (heldRow principalId x target)) := by
      rcases List.mem_append.mp hx with hx | hx
      · exact hf.newest x hx target hnew hxr htr
      · obtain rfl := List.mem_singleton.mp hx
        exact hnewest target hnew hxr htr
    exact ⟨fun o ho hoo hk => hx'.1 o (hold o ho hoo hk) hoo hk,
      fun hno => hx'.2 fun o ho => hno o (List.mem_append_left _ ho)⟩

theorem Folded.gone_sub (hf : Folded principalId epoch S l v) (hsub : ∀ e ∈ l, e ∈ S) (id : String)
    (h : id ∈ v.gone) : Redacted S id := ((hf.gone id).mp h).mono hsub

/-- An event that was redacted before it arrived. -/
theorem Folded.tombstoned (hf : Folded principalId epoch S l v)
    (hn : Next roomId S l e) (he : e.redactsEventId = none) (hg : e.eventId ∈ v.gone) :
    Folded principalId epoch S (l ++ [e]) v :=
  hf.skip he (fun _ => hg) (hf.gone_sub hn.sub) fun _ _ hxr =>
    absurd (hf.gone_sub hn.sub _ hg) hxr

/-! ### Originals -/

theorem storedBody_of_noSidecar {content : Dict} (h : holdsUnresolvedSidecar content = false)
    (n : Nat) : storedBody content n = (some content, none) := by
  rw [storedBody, h]
  rfl

theorem originalRow_eq (ho : e.IsOriginal) (hs : e.NoSidecar) (n : Nat) :
    originalRow principalId e n epoch = revisionRow principalId epoch e e := by
  rw [originalRow, revisionRow, storedBody_of_noSidecar hs.1, body, if_pos ho.2]

/-- Installing one of its edits on a row of `o`. -/
theorem install_row {o r e : ProjectedEvent} {target : String}
    (hrow : Shows principalId epoch gone o r row) (he : e.Edits target) (hs : e.NoSidecar) (n : Nat) : { row with
      revisionEventId := e.eventId
      revisionTs := e.originServerTs
      contentJson := (storedBody (visibleContent e.content) n).1
      refreshToken := (storedBody (visibleContent e.content) n).2 } =
      revisionRow principalId epoch o e := by
  have hbody : e.body = visibleContent e.content := by
    rw [body, he.2]
    rfl
  rw [storedBody_of_noSidecar hs.2]
  rcases hrow with ⟨-, rfl⟩ | ⟨-, token, rfl⟩
  · rw [revisionRow, revisionRow, hbody]
  · rw [withheldRow, revisionRow, revisionRow, hbody]

/-- A new original finds no row, and shows itself or the edit held for its sender. -/
theorem foldOriginal_eq (hf : Folded principalId epoch S l v)
    (hn : Next roomId S l e) (ho : e.IsOriginal) (hg : e.eventId ∉ v.gone) (n : Nat) :
    ∃ r ∈ l ++ [e], (r = e ∨ OwnEdit e r) ∧ r.eventId ∉ v.gone ∧
      (∀ h, v.held e.eventId e.sender = some h → h = heldRow principalId r e.eventId) ∧
      v.foldOriginal principalId e n epoch =
        { v with
          visible := update v.visible e.eventId (some (revisionRow principalId epoch e r))
          held := update v.held e.eventId (fun _ => none) } := by
  have hvis : v.visible e.eventId = none := by
    cases hrow : v.visible e.eventId with
    | none => rfl
    | some row =>
      obtain ⟨-, o, hol, -, hk, -⟩ := hf.visible_some _ row hrow
      exact absurd hk (hn.ne_of_mem hol)
  have harrive : v.arrive (originalRow principalId e n epoch) =
      { v with visible := update v.visible e.eventId (some (revisionRow principalId epoch e e)) } := by
    rw [originalRow_eq ho (hn.set.noSidecar e hn.mem), View.arrive]
    change { v with visible := update v.visible e.eventId (some ((v.visible e.eventId).getD _)) } = _
    rw [hvis, Option.getD_none]
  rw [View.foldOriginal, harrive, View.applyHeld]
  cases hh : v.held e.eventId e.sender with
  | none =>
    exact ⟨e, by simp, .inl rfl, hg, fun h hc => (Option.some_ne_none h hc.symm).elim, rfl⟩
  | some h =>
    obtain ⟨-, -, r, hr, hre, hrs, hrg, rfl⟩ := hf.held_some _ _ h hh
    refine ⟨r, by simp [hr], .inr ⟨hre, hrs⟩, hrg, fun h hc => (Option.some.inj hc).symm, ?_⟩
    have hrow : Shows principalId epoch v.gone e e (revisionRow principalId epoch e e) :=
      .inl ⟨hg, rfl⟩
    have hinst := install_row hrow hre (hn.set.noSidecar r (hn.sub r hr)) n
    simp only
    refine (if_neg hrg).trans (View.ext ?_ rfl rfl)
    simp only [View.install, View.release, update_self, update_idem, Option.map_some]
    exact congrArg (fun row => update v.visible e.eventId (some row)) hinst

theorem Folded.original (hf : Folded principalId epoch S l v)
    (hn : Next roomId S l e) (ho : e.IsOriginal) (hg : e.eventId ∉ v.gone) (n : Nat) :
    Folded principalId epoch S (l ++ [e]) (v.foldOriginal principalId e n epoch) := by
  obtain ⟨r, hr, hre, hrg, hheld, heq⟩ := foldOriginal_eq hf hn ho hg n
  rw [heq]
  constructor
  case gone =>
    intro id
    rw [redacted_append_of_none ho.1]
    exact hf.gone id
  case visible_some =>
    intro id row h
    by_cases hid : id = e.eventId
    · subst hid
      simp only [update_self, Option.some.injEq] at h
      exact ⟨hg, e, by simp, ho, rfl, r, hr, hre, .inl ⟨hrg, h.symm⟩⟩
    · simp only [update_of_ne hid] at h
      obtain ⟨hg', o, hol, hoo, hk, r', hr', hrest⟩ := hf.visible_some id row h
      exact ⟨hg', o, List.mem_append_left _ hol, hoo, hk, r', List.mem_append_left _ hr', hrest⟩
  case visible_ne_none =>
    intro o hol hoo hg'
    by_cases hid : o.eventId = e.eventId
    · simp [hid]
    · simp only [update_of_ne hid]
      rcases List.mem_append.mp hol with hol | hol
      · exact hf.visible_ne_none o hol hoo hg'
      · exact absurd (congrArg eventId (List.mem_singleton.mp hol)) hid
  case held_some =>
    intro target sender h hh
    by_cases hid : target = e.eventId
    · subst hid
      simp at hh
    · simp only [update_of_ne hid] at hh
      obtain ⟨ht, hno, e', he', hrest⟩ := hf.held_some target sender h hh
      refine ⟨ht, fun o hol hoo hk => ?_, e', List.mem_append_left _ he', hrest⟩
      rcases List.mem_append.mp hol with hol | hol
      · exact hno o hol hoo hk
      · exact hid (hk ▸ congrArg eventId (List.mem_singleton.mp hol))
  case newest =>
    intro x hx target hnew hxr htr
    have hxl : x ∈ l := by
      rcases List.mem_append.mp hx with hx | hx
      · exact hx
      · exact absurd ho (List.mem_singleton.mp hx ▸ hnew.1.not_original)
    obtain ⟨hshown, hholds⟩ := hf.newest x hxl target hnew hxr htr
    constructor
    · intro o hol hoo hk hs hlt
      rcases List.mem_append.mp hol with hol | hol
      · have hne : target ≠ e.eventId := hk ▸ hn.ne_of_mem hol
        simp only [update_of_ne hne]
        exact hshown o hol hoo hk hs hlt
      · -- the original has just arrived: `x` was held for it
        obtain rfl := List.mem_singleton.mp hol
        subst hk
        have hx' := hholds fun o' ho' _ => hn.ne_of_mem ho'
        rw [← hs] at hx'
        have hid : x.eventId = r.eventId :=
          congrArg UnresolvedEditRow.editEventId (hheld _ hx')
        have hrS : r ∈ S := by
          rcases List.mem_append.mp hr with hr | hr
          · exact hn.sub r hr
          · exact List.mem_singleton.mp hr ▸ hn.mem
        obtain rfl := hn.set.eq_of_eventId (hn.sub x hxl) hrS hid
        simp
    · intro hno
      have hne : target ≠ e.eventId := Ne.symm (hno e (by simp) ho)
      simp only [update_of_ne hne]
      exact hholds fun o hol => hno o (List.mem_append_left _ hol)

/-! ### Edits -/

/-- The row of an original the set knows is a row of that original. -/
theorem Folded.row_of_original (hS : EventSet roomId S) (hsub : ∀ e ∈ l, e ∈ S)
    (hf : Folded principalId epoch S l v) {o : ProjectedEvent} (ho : o ∈ l) (h : v.visible o.eventId = some row) :
    o.IsOriginal ∧ o.eventId ∉ v.gone ∧ ∃ r ∈ l, (r = o ∨ OwnEdit o r) ∧ Shows principalId epoch v.gone o r row := by
  obtain ⟨hg, o', ho', hoo, hk, hrest⟩ := hf.visible_some _ row h
  obtain rfl := hS.eq_of_eventId (hsub o' ho') (hsub o ho) hk
  exact ⟨hoo, hg, hrest⟩

theorem Shows.sender {o r : ProjectedEvent} (h : Shows principalId epoch gone o r row) : row.sender = o.sender := by
  rcases h with ⟨-, rfl⟩ | ⟨-, _, rfl⟩ <;> rfl

theorem Shows.revision {o r : ProjectedEvent} (h : Shows principalId epoch gone o r row) :
    (row.revisionTs, row.revisionEventId) = r.revision := by
  rcases h with ⟨-, rfl⟩ | ⟨-, _, rfl⟩ <;> rfl

/-- The newest edit, skipped over a row of its target: the row already shows something at
least as new, which cannot be another of the sender's edits. -/
theorem Folded.shown_of_skipped {e o : ProjectedEvent} {target : String}
    (hf : Folded principalId epoch S l v) (hn : Next roomId S l e) (hnew : NewestEdit S e target)
    (hrow : v.visible target = some row) (hskip : row.sender ≠ e.sender ∨
      ¬ IsNewerRevision e.revision (row.revisionTs, row.revisionEventId))
    (ho : o ∈ l) (hk : o.eventId = target) (hs : o.sender = e.sender) (hlt : o.rank < e.rank) :
    False := by
  subst hk
  obtain ⟨-, -, r, hr, hre, hshows⟩ := hf.row_of_original hn.set hn.sub ho hrow
  rcases hskip with hskip | hskip
  · exact hskip (hshows.sender.trans hs)
  · rw [hshows.revision, isNewerRevision_iff, not_lt] at hskip
    rcases hre with rfl | ⟨hre, hrs⟩
    · exact absurd hlt (not_lt.mpr hskip)
    · have hle := hnew.2 r (hn.sub r hr) hre (hrs.trans hs)
      exact hn.ne_of_mem hr (eventId_eq_of_rank_eq (le_antisymm hle hskip))

theorem mem_of_original {e o : ProjectedEvent} (he : ¬ e.IsOriginal) (ho : o ∈ l ++ [e])
    (hoo : o.IsOriginal) : o ∈ l := by
  rcases List.mem_append.mp ho with ho | ho
  · exact ho
  · exact absurd (List.mem_singleton.mp ho ▸ hoo) he

theorem Next.mem_set {e r : ProjectedEvent} (hn : Next roomId S l e) (hr : r ∈ l ++ [e]) : r ∈ S := by
  rcases List.mem_append.mp hr with hr | hr
  · exact hn.sub r hr
  · exact List.mem_singleton.mp hr ▸ hn.mem

/-- The hold after an edit for an absent target is the one there was or the edit itself,
whichever is newer. -/
theorem Folded.newerHeld {t : String} (hf : Folded principalId epoch S l v)
    (hn : Next roomId S l e) (he : e.Edits t) (hg : e.eventId ∉ v.gone) :
    ∃ r ∈ l ++ [e], r.Edits t ∧ r.sender = e.sender ∧ r.eventId ∉ v.gone ∧
      View.newerHeld principalId e t (v.held t e.sender) = heldRow principalId r t ∧
      e.rank ≤ r.rank ∧
      (∀ x ∈ l, v.held t e.sender = some (heldRow principalId x t) → e.rank ≤ x.rank → r = x) := by
  cases hh : v.held t e.sender with
  | none =>
    exact ⟨e, by simp, he, rfl, hg, rfl, le_rfl, fun x _ hx => (Option.some_ne_none _ hx.symm).elim⟩
  | some h =>
    obtain ⟨-, -, r, hr, hre, hrs, hrg, rfl⟩ := hf.held_some t e.sender h hh
    have hinj : ∀ x ∈ l, some (heldRow principalId r t) = some (heldRow principalId x t) →
        r = x := fun x hx hk =>
      hn.set.eq_of_eventId (hn.sub r hr) (hn.sub x hx)
        (congrArg UnresolvedEditRow.editEventId (Option.some.inj hk))
    by_cases hy : HeldEditYieldsTo (heldRow principalId r t) e
    · refine ⟨e, by simp, he, rfl, hg, if_pos hy, le_rfl, fun x hx hk hle => ?_⟩
      obtain rfl := hinj x hx hk
      exact absurd hle (not_le.mpr (isNewerRevision_iff.mp hy))
    · exact ⟨r, by simp [hr], hre, hrs, hrg, if_neg hy,
        not_lt.mp fun h => hy (isNewerRevision_iff.mpr h), fun x hx hk _ => hinj x hx hk⟩

/-- An edit whose target has neither arrived nor been redacted is held. -/
theorem Folded.hold {t : String} (hf : Folded principalId epoch S l v)
    (hn : Next roomId S l e) (he : e.Edits t) (hg : e.eventId ∉ v.gone) (hrow : v.visible t = none) (ht : t ∉ v.gone) :
    Folded principalId epoch S (l ++ [e]) { v with
        held := update v.held t (update (v.held t) e.sender
          (some (View.newerHeld principalId e t (v.held t e.sender)))) } := by
  have hno : ∀ o ∈ l, o.IsOriginal → o.eventId ≠ t := fun o ho hoo hk =>
    hf.visible_ne_none o ho hoo (hk ▸ ht) (hk ▸ hrow)
  obtain ⟨r, hr, hre, hrs, hrg, hrow', hle, hrx⟩ := hf.newerHeld hn he hg
  rw [hrow']
  -- every other hold is as before
  have hother : ∀ target sender, ¬ (target = t ∧ sender = e.sender) →
      update v.held t (update (v.held t) e.sender (some (heldRow principalId r t))) target sender =
        v.held target sender := fun target sender hkey => by
    by_cases htt : target = t
    · subst htt
      rw [update_self, update_of_ne fun hs => hkey ⟨rfl, hs⟩]
    · rw [update_of_ne htt]
  constructor
  case gone =>
    intro id
    rw [redacted_append_of_none he.1]
    exact hf.gone id
  case visible_some =>
    intro id row h
    obtain ⟨hid, o, ho, hoo, hk, r', hr', hrest⟩ := hf.visible_some id row h
    exact ⟨hid, o, List.mem_append_left _ ho, hoo, hk, r', List.mem_append_left _ hr', hrest⟩
  case visible_ne_none =>
    exact fun o ho hoo hid => hf.visible_ne_none o (mem_of_original he.not_original ho hoo) hoo hid
  case held_some =>
    intro target sender h hh
    by_cases hkey : target = t ∧ sender = e.sender
    · obtain ⟨rfl, rfl⟩ := hkey
      simp only [update_self, Option.some.injEq] at hh
      exact ⟨ht, fun o ho hoo => hno o (mem_of_original he.not_original ho hoo) hoo, r, hr, hre, hrs, hrg, hh.symm⟩
    · obtain ⟨ht', hno', e', he', hrest⟩ :=
        hf.held_some target sender h ((hother target sender hkey).symm.trans hh)
      exact ⟨ht', fun o ho hoo => hno' o (mem_of_original he.not_original ho hoo) hoo, e',
        List.mem_append_left _ he', hrest⟩
  case newest =>
    intro x hx target hnew hxr htr
    constructor
    · intro o ho hoo hk hs hlt
      have hol := mem_of_original he.not_original ho hoo
      rcases List.mem_append.mp hx with hx | hx
      · exact (hf.newest x hx target hnew hxr htr).1 o hol hoo hk hs hlt
      · obtain rfl := List.mem_singleton.mp hx
        exact absurd (hk.trans (hnew.1.target_eq he)) (hno o hol hoo)
    · intro hno'
      have hno'' : ∀ o ∈ l, o.IsOriginal → o.eventId ≠ target := fun o ho =>
        hno' o (List.mem_append_left _ ho)
      by_cases hkey : target = t ∧ x.sender = e.sender
      · obtain ⟨rfl, hxs⟩ := hkey
        have hrx' : r = x := by
          rcases List.mem_append.mp hx with hx | hx
          · exact hrx x hx (hxs ▸ (hf.newest x hx target hnew hxr htr).2 hno'')
              (hnew.2 e hn.mem he hxs.symm)
          · obtain rfl := List.mem_singleton.mp hx
            have hrS := hn.mem_set hr
            exact hn.set.eq_of_eventId hrS hn.mem
              (eventId_eq_of_rank_eq (le_antisymm (hnew.2 r hrS hre hrs) hle))
        rw [hxs, hrx']
        simp
      · refine (hother target x.sender hkey).trans ?_
        rcases List.mem_append.mp hx with hx | hx
        · exact (hf.newest x hx target hnew hxr htr).2 hno''
        · obtain rfl := List.mem_singleton.mp hx
          exact absurd ⟨hnew.1.target_eq he, rfl⟩ hkey

/-- An edit newer than what its target shows is shown instead. -/
theorem Folded.install {t : String} (hf : Folded principalId epoch S l v) (hn : Next roomId S l e) (he : e.Edits t)
    (hg : e.eventId ∉ v.gone) (hrow : v.visible t = some row) (hs : row.sender = e.sender)
    (hnewer : IsNewerRevision e.revision (row.revisionTs, row.revisionEventId)) (n : Nat) :
    Folded principalId epoch S (l ++ [e]) (v.install t e.eventId e.originServerTs (visibleContent e.content) n) := by
  obtain ⟨htg, o, ho, hoo, rfl, r, hr, hre, hshows⟩ := hf.visible_some _ row hrow
  have hown : OwnEdit o e := ⟨he, hs.symm.trans hshows.sender⟩
  have heq : v.install o.eventId e.eventId e.originServerTs (visibleContent e.content) n =
      { v with visible := update v.visible o.eventId (some (revisionRow principalId epoch o e)) } := by
    refine View.ext ?_ rfl rfl
    rw [View.install, hrow]
    exact congrArg (fun x => update v.visible o.eventId (some x))
      (install_row hshows he (hn.set.noSidecar e hn.mem) n)
  rw [heq]
  constructor
  case gone =>
    intro id
    rw [redacted_append_of_none he.1]
    exact hf.gone id
  case visible_some =>
    intro id row' h
    by_cases hid : id = o.eventId
    · subst hid
      simp only [update_self, Option.some.injEq] at h
      exact ⟨htg, o, List.mem_append_left _ ho, hoo, rfl, e, by simp, .inr hown, .inl ⟨hg, h.symm⟩⟩
    · simp only [update_of_ne hid] at h
      obtain ⟨hg', o', ho', hoo', hk, r', hr', hrest⟩ := hf.visible_some id row' h
      exact ⟨hg', o', List.mem_append_left _ ho', hoo', hk, r', List.mem_append_left _ hr', hrest⟩
  case visible_ne_none =>
    intro o' ho' hoo' hg'
    by_cases hid : o'.eventId = o.eventId
    · simp [hid]
    · simp only [update_of_ne hid]
      exact hf.visible_ne_none o' (mem_of_original he.not_original ho' hoo') hoo' hg'
  case held_some =>
    intro target sender h hh
    obtain ⟨ht', hno, e', he', hrest⟩ := hf.held_some target sender h hh
    exact ⟨ht', fun o' ho' hoo' => hno o' (mem_of_original he.not_original ho' hoo') hoo', e',
      List.mem_append_left _ he', hrest⟩
  case newest =>
    intro x hx target hnew hxr htr
    constructor
    · intro o' ho' hoo' hk hxs hlt
      have hol := mem_of_original he.not_original ho' hoo'
      by_cases hid : target = o.eventId
      · subst hid
        obtain rfl := hn.set.eq_of_eventId (hn.sub o' hol) (hn.sub o ho) hk
        have hxe : x = e := by
          rcases List.mem_append.mp hx with hx | hx
          · -- the row already showed `x`, which `e` cannot be newer than
            have hold := (hf.newest x hx _ hnew hxr htr).1 o' hol hoo' rfl hxs hlt
            obtain rfl := Option.mem_unique hrow hold
            have hlt' : x.rank < e.rank := hnewer
            exact absurd (hnew.2 e hn.mem he (hown.2.trans hxs)) (not_le.mpr hlt')
          · exact List.mem_singleton.mp hx
        simp [hxe]
      · simp only [update_of_ne hid]
        rcases List.mem_append.mp hx with hx | hx
        · exact (hf.newest x hx target hnew hxr htr).1 o' hol hoo' hk hxs hlt
        · obtain rfl := List.mem_singleton.mp hx
          exact absurd (hnew.1.target_eq he) hid
    · intro hno
      rcases List.mem_append.mp hx with hx | hx
      · exact (hf.newest x hx target hnew hxr htr).2 fun o' ho' => hno o' (List.mem_append_left _ ho')
      · obtain rfl := List.mem_singleton.mp hx
        exact absurd (he.target_eq hnew.1) (hno o (List.mem_append_left _ ho) hoo)

theorem Folded.edit {t : String} (hf : Folded principalId epoch S l v)
    (hn : Next roomId S l e) (he : e.Edits t) (hg : e.eventId ∉ v.gone) (n : Nat) :
    Folded principalId epoch S (l ++ [e]) (v.foldEdit principalId e t n) := by
  have hgone := hf.gone_sub hn.sub
  have horig : e.IsOriginal → e.eventId ∈ v.gone := fun ho => absurd ho he.not_original
  unfold View.foldEdit
  cases hrow : v.visible t with
  | none =>
    simp only
    by_cases ht : t ∈ v.gone
    · rw [if_pos ht]
      refine hf.skip he.1 horig hgone fun target hnew _ htr => ?_
      exact absurd (hgone t ht) (hnew.1.target_eq he ▸ htr)
    · rw [if_neg ht]
      exact hf.hold hn he hg hrow ht
  | some row =>
    have hskip : (row.sender ≠ e.sender ∨
        ¬ IsNewerRevision e.revision (row.revisionTs, row.revisionEventId)) →
        Folded principalId epoch S (l ++ [e]) v := fun hskip => by
      refine hf.skip he.1 horig hgone fun target hnew _ _ => ?_
      obtain rfl := hnew.1.target_eq he
      refine ⟨fun o ho _ hk hs hlt => ?_, fun hno => ?_⟩
      · exact (hf.shown_of_skipped hn hnew hrow hskip ho hk hs hlt).elim
      · obtain ⟨-, o, ho, hoo, hk, -⟩ := hf.visible_some _ row hrow
        exact absurd hk (hno o ho hoo)
    simp only
    by_cases hs : row.sender ≠ e.sender
    · rw [if_pos hs]
      exact hskip (.inl hs)
    · rw [if_neg hs]
      by_cases hnewer : IsNewerRevision e.revision (row.revisionTs, row.revisionEventId)
      · exact (if_pos hnewer).symm ▸ hf.install hn he hg hrow (not_not.mp hs) hnewer n
      · exact (if_neg hnewer).symm ▸ hskip (.inr hnewer)

/-! ### Redactions -/

theorem Shows.revisionEventId {o r : ProjectedEvent}
    (h : Shows principalId epoch gone o r row) : row.revisionEventId = r.eventId :=
  congrArg Prod.snd h.revision

/-- A redaction removes the message it names, and withholds the row that shows it. Both cannot
be: the visible revision of another message is no message of its own. -/
theorem Folded.foldRedaction_visible (hS : EventSet roomId S) (hsub : ∀ e ∈ l, e ∈ S)
    (hf : Folded principalId epoch S l v) (t : String) (n : Nat) (id : String) : (v.foldRedaction t n).visible id =
      if id = t then none else (v.visible id).map (View.withhold t n) := by
  unfold View.foldRedaction
  by_cases hid : id = t
  · subst hid
    rw [if_pos rfl]
    cases hrow : v.visible id with
    | none => simp [hrow]
    | some row => simp
  · rw [if_neg hid]
    cases hrow : v.visible t with
    | none => rfl
    | some row =>
      simp only [update_of_ne hid]
      cases hrow' : v.visible id with
      | none => rfl
      | some row' =>
        obtain ⟨-, o, ho, hoo, rfl, -⟩ := hf.visible_some t row hrow
        obtain ⟨-, o', ho', -, rfl, r, hr, hre, hshows⟩ := hf.visible_some id row' hrow'
        have hne : row'.revisionEventId ≠ o.eventId := fun h => by
          obtain rfl := hS.eq_of_eventId (hsub r hr) (hsub o ho)
            (hshows.revisionEventId.symm.trans h)
          rcases hre with rfl | hre
          · exact hid rfl
          · exact hre.1.not_original hoo
        rw [Option.map_some, View.withhold, if_neg hne]

theorem Shows.withhold {o r : ProjectedEvent} (h : Shows principalId epoch gone o r row) (t : String) (n : Nat) :
    Shows principalId epoch (insert t gone) o r (View.withhold t n row) := by
  rw [View.withhold, h.revisionEventId]
  by_cases hr : r.eventId = t
  · rw [if_pos hr]
    refine .inr ⟨.inl hr, n, ?_⟩
    rcases h with ⟨-, rfl⟩ | ⟨-, _, rfl⟩ <;> rfl
  · rw [if_neg hr]
    rcases h with ⟨hg, rfl⟩ | ⟨hg, token, rfl⟩
    · exact .inl ⟨fun h => h.elim hr hg, rfl⟩
    · exact .inr ⟨.inr hg, token, rfl⟩

theorem Folded.redaction {t : String} (hf : Folded principalId epoch S l v)
    (hn : Next roomId S l e) (he : e.redactsEventId = some t) (n : Nat) :
    Folded principalId epoch S (l ++ [e]) (v.foldRedaction t n) := by
  have hnot : ¬ e.IsOriginal := fun ho => Option.some_ne_none t (he.symm.trans ho.1)
  have htS : Redacted S t := ⟨e, hn.mem, he⟩
  have hvis := hf.foldRedaction_visible hn.set hn.sub t n
  constructor
  case gone =>
    intro id
    rw [redacted_append_of_some he, ← hf.gone]
    rfl
  case visible_some =>
    intro id row h
    rw [hvis] at h
    split at h
    · cases h
    · next hid =>
      obtain ⟨row', hrow', rfl⟩ := Option.map_eq_some_iff.mp h
      obtain ⟨hg, o, ho, hoo, hk, r, hr, hre, hshows⟩ := hf.visible_some id row' hrow'
      exact ⟨fun h => h.elim hid hg, o, List.mem_append_left _ ho, hoo, hk, r,
        List.mem_append_left _ hr, hre, hshows.withhold t n⟩
  case visible_ne_none =>
    intro o ho hoo hg
    have hid : o.eventId ≠ t := fun h => hg (.inl h)
    rw [hvis, if_neg hid, Ne, Option.map_eq_none_iff]
    exact hf.visible_ne_none o (mem_of_original hnot ho hoo) hoo fun h => hg (.inr h)
  case held_some =>
    intro target sender h hh
    simp only [View.foldRedaction] at hh
    split at hh
    · cases hh
    · next hid =>
      obtain ⟨hh', hedit⟩ := Option.filter_eq_some_iff.mp hh
      obtain ⟨htg, hno, r, hr, hre, hrs, hrg, rfl⟩ := hf.held_some target sender h hh'
      have hrt : r.eventId ≠ t := of_decide_eq_true hedit
      exact ⟨fun h => h.elim hid htg, fun o ho hoo => hno o (mem_of_original hnot ho hoo) hoo, r,
        List.mem_append_left _ hr, hre, hrs, fun h => h.elim hrt hrg, rfl⟩
  case newest =>
    intro x hx target hnew hxr htr
    have hxl : x ∈ l := by
      rcases List.mem_append.mp hx with hx | hx
      · exact hx
      · obtain rfl := List.mem_singleton.mp hx
        exact absurd (he.symm.trans hnew.1.1) (Option.some_ne_none t)
    have hxt : x.eventId ≠ t := fun h => hxr (h ▸ htS)
    have htt : target ≠ t := fun h => htr (h ▸ htS)
    obtain ⟨hshown, hheld⟩ := hf.newest x hxl target hnew hxr htr
    constructor
    · intro o ho hoo hk hs hlt
      rw [hvis, if_neg htt, hshown o (mem_of_original hnot ho hoo) hoo hk hs hlt, Option.map_some, View.withhold]
      exact congrArg some (if_neg hxt)
    · intro hno
      have hold := hheld fun o ho => hno o (List.mem_append_left _ ho)
      simp only [View.foldRedaction, if_neg htt, hold]
      exact Option.filter_eq_some_iff.mpr ⟨rfl, decide_eq_true hxt⟩

/-! ### Any event, any run -/

theorem Folded.step (hf : Folded principalId epoch S l v) (hn : Next roomId S l e) (n : Nat) :
    Folded principalId epoch S (l ++ [e]) (v.fold principalId e n epoch) := by
  unfold View.fold
  cases he : e.redactsEventId with
  | some t => exact hf.redaction hn he n
  | none =>
    by_cases hg : e.eventId ∈ v.gone
    · exact (if_pos hg).symm ▸ hf.tombstoned hn he hg
    · refine (if_neg hg).symm ▸ ?_
      cases ht : replacementTarget e.content with
      | none => exact hf.original hn ⟨he, ht⟩ hg n
      | some t => exact hf.edit hn ⟨he, ht⟩ hg n

/-- Events folded one after the other, each with the receipt order it was folded at. -/
noncomputable def View.foldAll (principalId : String) (epoch : Int)
    (l : List (ProjectedEvent × Nat)) (v : View) : View :=
  l.foldl (fun v e => v.fold principalId e.1 e.2 epoch) v

theorem View.foldAll_append (l l' : List (ProjectedEvent × Nat)) (v : View) : v.foldAll principalId epoch (l ++ l') =
      (v.foldAll principalId epoch l).foldAll principalId epoch l' := List.foldl_append

/-- An original that nothing redacted takes the branch of originals. -/
theorem View.foldAll_original (ho : e.IsOriginal) (hg : e.eventId ∉ v.gone)
    (n : Nat) : v.foldAll principalId epoch [(e, n)] = v.foldOriginal principalId e n epoch := by
  change v.fold principalId e n epoch = _
  rw [View.fold, ho.1]
  refine (if_neg hg).trans ?_
  rw [ho.2]

theorem folded_foldAll (hS : EventSet roomId S) (l : List (ProjectedEvent × Nat))
    (hsub : ∀ e ∈ l.map Prod.fst, e ∈ S) (hnd : (l.map Prod.fst).Nodup) :
    Folded principalId epoch S (l.map Prod.fst) (View.empty.foldAll principalId epoch l) := by
  induction l using List.reverseRecOn with
  | nil => exact folded_empty
  | append_singleton l e ih =>
    rw [List.map_append, List.map_singleton] at hsub hnd ⊢
    obtain ⟨hndl, -, hdisj⟩ := List.nodup_append.mp hnd
    have hf := ih (fun e' he' => hsub e' (List.mem_append_left _ he')) hndl
    rw [View.foldAll, List.foldl_append]
    exact hf.step ⟨hS, fun e' he' => hsub e' (List.mem_append_left _ he'), hsub e.1 (by simp),
      fun h => hdisj _ h _ (List.mem_singleton_self _) rfl⟩ e.2

end

end MindRoom
