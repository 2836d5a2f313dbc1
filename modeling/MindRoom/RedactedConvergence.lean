import MindRoom.Convergence

/-! # Convergence with redactions

What every order of a set agrees on once some of it is redacted: which messages are still
there, and which revision a message shows wherever its body is still readable.
-/

namespace MindRoom

open Function ProjectedEvent

/-- Both databases have the message or neither does, and they show one revision of it wherever
both still have a body to show. -/
def AgreeWhereReadable (principalId roomId : String) (db db' : DB) : Prop :=
  ∀ id, ((visibleAt db principalId roomId id).isSome ↔ (visibleAt db' principalId roomId id).isSome) ∧
    ∀ row row', visibleAt db principalId roomId id = some row →
      visibleAt db' principalId roomId id = some row' →
      row.contentJson ≠ none → row'.contentJson ≠ none →
      row.revisionEventId = row'.revisionEventId ∧ row.revisionTs = row'.revisionTs ∧
        row.contentJson = row'.contentJson

/-- Any two orders of the set agree wherever both are readable. -/
def Agrees (principalId roomId : String) (epoch : Int) (db : DB) (S : List ProjectedEvent) : Prop :=
  ∀ l₁ l₂ : List (ProjectedEvent × Nat), (l₁.map Prod.fst).Perm S → (l₂.map Prod.fst).Perm S →
    AgreeWhereReadable principalId roomId (projectAll principalId epoch l₁ db)
      (projectAll principalId epoch l₂ db)

/-- Every edit by its own sender is newer than the original. -/
def EditsAreNewer (S : List ProjectedEvent) : Prop :=
  ∀ o ∈ S, o.IsOriginal → ∀ e ∈ S, OwnEdit o e → o.rank < e.rank

/-- Of a message nothing redacted, the newest edit by its own sender is redacted only if all
edits by its own sender are. -/
def NewestSurvives (S : List ProjectedEvent) : Prop :=
  ∀ o ∈ S, o.IsOriginal → ¬ Redacted S o.eventId →
    ∀ x ∈ S, x.sender = o.sender → NewestEdit S x o.eventId → Redacted S x.eventId →
      ∀ e ∈ S, OwnEdit o e → Redacted S e.eventId

/-- The greatest revision of `o` by its own sender that nothing redacted. -/
def Survivor (S : List ProjectedEvent) (o r : ProjectedEvent) : Prop :=
  r ∈ S ∧ (r = o ∨ OwnEdit o r) ∧ ¬ Redacted S r.eventId ∧
    ∀ e ∈ S, e = o ∨ OwnEdit o e → ¬ Redacted S e.eventId → e.rank ≤ r.rank

instance (S : List ProjectedEvent) (id : String) : Decidable (Redacted S id) :=
  inferInstanceAs (Decidable (∃ d ∈ S, d.redactsEventId = some id))

theorem Survivor.unique {roomId : String} {S : List ProjectedEvent} (hS : EventSet roomId S)
    {o r r' : ProjectedEvent} (h : Survivor S o r) (h' : Survivor S o r') : r = r' :=
  hS.eq_of_eventId h.1 h'.1 (eventId_eq_of_rank_eq
    (le_antisymm (h'.2.2.2 r h.1 h.2.1 h.2.2.1) (h.2.2.2 r' h'.1 h'.2.1 h'.2.2.1)))

section

variable {principalId roomId : String} {epoch : Int} {db : DB} {S l : List ProjectedEvent} {v : View}

/-! ## What every order shows -/

theorem Folded.gone_iff (hmem : ∀ e, e ∈ l ↔ e ∈ S) (hf : Folded principalId epoch S l v)
    (id : String) : id ∈ v.gone ↔ Redacted S id := by
  rw [hf.gone]
  exact ⟨fun h => h.mono fun e => (hmem e).mp, fun h => h.mono fun e => (hmem e).mpr⟩

/-- The messages shown are the originals nothing redacted. -/
theorem Folded.isSome_iff (hmem : ∀ e, e ∈ l ↔ e ∈ S) (hf : Folded principalId epoch S l v) (id : String) :
    (v.visible id).isSome ↔ ∃ o ∈ S, o.IsOriginal ∧ o.eventId = id ∧ ¬ Redacted S id := by
  constructor
  · intro h
    obtain ⟨row, hrow⟩ := Option.isSome_iff_exists.mp h
    obtain ⟨hg, o, ho, hoo, hk, -⟩ := hf.visible_some id row hrow
    exact ⟨o, (hmem o).mp ho, hoo, hk, fun hr => hg ((hf.gone_iff hmem id).mpr hr)⟩
  · rintro ⟨o, ho, hoo, rfl, hr⟩
    rw [Option.isSome_iff_ne_none]
    exact hf.visible_ne_none o ((hmem o).mpr ho) hoo fun hg => hr ((hf.gone_iff hmem _).mp hg)

/-- A readable row shows the survivor of its message. -/
theorem Folded.readable (hnewer : EditsAreNewer S) (hsurvives : NewestSurvives S)
    (hmem : ∀ e, e ∈ l ↔ e ∈ S) (hf : Folded principalId epoch S l v) {id : String}
    {row : VisibleMessageRow} (hrow : v.visible id = some row) (hbody : row.contentJson ≠ none) :
    ∃ o ∈ S, o.eventId = id ∧ ∃ r, Survivor S o r ∧ row = revisionRow principalId epoch o r := by
  obtain ⟨hg, o, ho, hoo, rfl, r, hr, hre, hshows⟩ := hf.visible_some id row hrow
  have hoS := (hmem o).mp ho
  have hor : ¬ Redacted S o.eventId := fun h => hg ((hf.gone_iff hmem _).mpr h)
  obtain ⟨hrg, rfl⟩ : r.eventId ∉ v.gone ∧ row = revisionRow principalId epoch o r := by
    rcases hshows with h | ⟨-, token, rfl⟩
    · exact h
    · exact absurd rfl hbody
  have hrr : ¬ Redacted S r.eventId := fun h => hrg ((hf.gone_iff hmem _).mpr h)
  refine ⟨o, hoS, rfl, ?_⟩
  by_cases hedit : ∃ e ∈ S, OwnEdit o e ∧ ¬ Redacted S e.eventId
  · obtain ⟨e, he, hown, her⟩ := hedit
    obtain ⟨x, hx, hnew, hxs⟩ := exists_newestEdit he hown.1
    have hs := hxs.trans hown.2
    have hxr : ¬ Redacted S x.eventId := fun h =>
      her (hsurvives o hoS hoo hor x hx hs hnew h e he hown)
    have hlt := hnewer o hoS hoo x hx ⟨hnew.1, hs⟩
    refine ⟨x, ⟨hx, .inr ⟨hnew.1, hs⟩, hxr, fun e' he' h _ => ?_⟩, ?_⟩
    · rcases h with rfl | h
      · exact le_of_lt hlt
      · exact hnew.2 e' he' h.1 (h.2.trans hs.symm)
    · exact Option.some.inj (hrow.symm.trans
        ((hf.newest x ((hmem x).mpr hx) _ hnew hxr hor).1 o ho hoo rfl hs.symm hlt))
  · obtain rfl : r = o := hre.resolve_right fun h => hedit ⟨r, (hmem r).mp hr, h, hrr⟩
    refine ⟨r, ⟨hoS, .inl rfl, hor, fun e he h her => ?_⟩, rfl⟩
    rcases h with rfl | h
    · exact le_rfl
    · exact absurd ⟨e, he, h, her⟩ hedit

theorem agrees_of_newestSurvives (hS : EventSet roomId S) (hdb : EmptyProjection db)
    (hnewer : EditsAreNewer S) (hsurvives : NewestSurvives S) :
    Agrees principalId roomId epoch db S := by
  intro l₁ l₂ h₁ h₂ id
  have hf₁ : Folded principalId epoch S _ (viewOf principalId roomId _) := folded_of_perm hS hdb h₁
  have hf₂ : Folded principalId epoch S _ (viewOf principalId roomId _) := folded_of_perm hS hdb h₂
  have hmem₁ : ∀ e, e ∈ l₁.map Prod.fst ↔ e ∈ S := fun _ => h₁.mem_iff
  have hmem₂ : ∀ e, e ∈ l₂.map Prod.fst ↔ e ∈ S := fun _ => h₂.mem_iff
  constructor
  · exact (hf₁.isSome_iff hmem₁ id).trans (hf₂.isSome_iff hmem₂ id).symm
  · intro row row' hrow hrow' hbody hbody'
    obtain ⟨o, ho, hk, r, hr, rfl⟩ := hf₁.readable hnewer hsurvives hmem₁ hrow hbody
    obtain ⟨o', ho', hk', r', hr', rfl⟩ := hf₂.readable hnewer hsurvives hmem₂ hrow' hbody'
    obtain rfl := hS.eq_of_eventId ho ho' (hk.trans hk'.symm)
    obtain rfl := hr.unique hS hr'
    exact ⟨rfl, rfl, rfl⟩

/-! ## A run of redactions -/

/-- What redactions leave of a view: no new message, and no hold of a redacted edit. -/
structure Cleared (R : List ProjectedEvent) (v v' : View) : Prop where
  gone : ∀ id, id ∈ v'.gone ↔ id ∈ v.gone ∨ Redacted R id
  visible : ∀ id, v.visible id = none → v'.visible id = none
  held : ∀ target sender h, v'.held target sender = some h →
    v.held target sender = some h ∧ ¬ Redacted R h.editEventId

theorem redacted_cons {e : ProjectedEvent} {t : String} (he : e.redactsEventId = some t)
    (R : List ProjectedEvent) (id : String) : Redacted (e :: R) id ↔ id = t ∨ Redacted R id := by
  simp only [Redacted, List.mem_cons, or_and_right, exists_or, exists_eq_left, he, Option.some.injEq]
  exact or_congr_left eq_comm

theorem View.foldAll_redactions {R : List ProjectedEvent} (hR : ∀ e ∈ R, e.redactsEventId ≠ none)
    (v : View) : Cleared R v (v.foldAll principalId epoch (run R)) := by
  induction R generalizing v with
  | nil =>
    exact ⟨fun id => by simp [run, View.foldAll, Redacted], fun _ h => h,
      fun _ _ _ h => ⟨h, fun ⟨_, hd, _⟩ => absurd hd List.not_mem_nil⟩⟩
  | cons e R ih =>
    obtain ⟨t, ht⟩ := Option.ne_none_iff_exists'.mp (hR e List.mem_cons_self)
    have hstep : v.foldAll principalId epoch (run (e :: R)) =
        (v.foldRedaction t 0).foldAll principalId epoch (run R) := by
      change (v.fold principalId e 0 epoch).foldAll principalId epoch (run R) = _
      rw [View.fold, ht]
    obtain ⟨hgone, hvis, hheld⟩ := ih (fun e' he' => hR e' (List.mem_cons_of_mem _ he'))
      (v.foldRedaction t 0)
    rw [hstep]
    constructor
    case gone =>
      intro id
      rw [hgone, redacted_cons ht, ← or_assoc]
      exact or_congr_left or_comm
    case visible =>
      intro id h
      refine hvis id ?_
      unfold View.foldRedaction
      cases ht' : v.visible t with
      | none => simp [h]
      | some row =>
        simp only
        rw [update_of_ne, h]
        rintro rfl
        rw [h] at ht'
        cases ht'
    case held =>
      intro target sender h hh
      obtain ⟨hv, hnr⟩ := hheld target sender h hh
      simp only [View.foldRedaction] at hv
      split at hv
      · cases hv
      · obtain ⟨hv', hne⟩ := Option.filter_eq_some_iff.mp hv
        refine ⟨hv', fun hr => ?_⟩
        rw [redacted_cons ht] at hr
        exact hr.elim (by simpa using hne) hnr

/-- A message that finds no row and no hold shows itself. -/
theorem View.foldOriginal_of_unheld {e : ProjectedEvent} (hvis : v.visible e.eventId = none)
    (hheld : v.held e.eventId e.sender = none) {n : Nat} : (v.foldOriginal principalId e n epoch).visible e.eventId =
      some (originalRow principalId e n epoch) := by
  simp [View.foldOriginal, View.applyHeld, View.arrive, View.release, hheld, hvis, originalRow]

/-! ## Redacted events that arrive late -/

/-- Only a redaction adds a tombstone. -/
theorem View.fold_gone {e : ProjectedEvent} (he : e.redactsEventId = none) (n : Nat) :
    (v.fold principalId e n epoch).gone = v.gone := by
  unfold View.fold
  rw [he]
  simp only
  split
  · rfl
  · cases replacementTarget e.content with
    | none =>
      simp only [View.foldOriginal, View.applyHeld]
      split
      · rfl
      · split <;> rfl
    | some target =>
      simp only [View.foldEdit]
      split
      · split <;> rfl
      · split
        · rfl
        · split <;> rfl

/-- Events a redaction was already seen for are skipped. -/
theorem View.foldAll_filter {N : List ProjectedEvent} {q : ProjectedEvent → Prop} [DecidablePred q]
    (hN : ∀ e ∈ N, e.redactsEventId = none) (hq : ∀ e ∈ N, ¬ q e → e.eventId ∈ v.gone) :
    v.foldAll principalId epoch (run N) = v.foldAll principalId epoch (run (N.filter q)) := by
  induction N generalizing v with
  | nil => rfl
  | cons e N ih =>
    have he := hN e List.mem_cons_self
    have hrest : ∀ w : View, w.gone = v.gone → w.foldAll principalId epoch (run N) =
        w.foldAll principalId epoch (run (N.filter q)) := fun w hw =>
      ih (fun e' he' => hN e' (List.mem_cons_of_mem _ he'))
        fun e' he' hnq => hw ▸ hq e' (List.mem_cons_of_mem _ he') hnq
    refine (hrest (v.fold principalId e 0 epoch) (View.fold_gone he 0)).trans ?_
    by_cases hqe : q e
    · rw [List.filter_cons_of_pos (by simpa using hqe)]
      rfl
    · rw [List.filter_cons_of_neg (by simpa using hqe)]
      have hskip : v.fold principalId e 0 epoch = v := by
        rw [View.fold, he]
        exact if_pos (hq e List.mem_cons_self hqe)
      rw [hskip]

/-! ## The two orders that tell a lost edit -/

theorem EventSet.filter (hS : EventSet roomId S) (q : ProjectedEvent → Prop) [DecidablePred q] :
    EventSet roomId (S.filter q) where
  inRoom e he := hS.inRoom e (List.mem_filter.mp he).1
  distinct := hS.distinct.sublist (List.filter_sublist.map _)
  noSidecar e he := hS.noSidecar e (List.mem_filter.mp he).1

/-- The events of the set that redact nothing, and those that do. -/
def folds (S : List ProjectedEvent) : List ProjectedEvent := S.filter (·.redactsEventId = none)

def redactions (S : List ProjectedEvent) : List ProjectedEvent := S.filter (¬ ·.redactsEventId = none)

theorem mem_folds {e : ProjectedEvent} : e ∈ folds S ↔ e ∈ S ∧ e.redactsEventId = none := by
  simp [folds]

theorem mem_redactions {e : ProjectedEvent} : e ∈ redactions S ↔ e ∈ S ∧ e.redactsEventId ≠ none := by
  simp [redactions]

theorem redacted_redactions (id : String) : Redacted (redactions S) id ↔ Redacted S id := by
  constructor
  · exact fun h => h.mono fun e he => (mem_redactions.mp he).1
  · rintro ⟨d, hd, hr⟩
    exact ⟨d, mem_redactions.mpr ⟨hd, by rw [hr]; exact Option.some_ne_none _⟩, hr⟩

theorem not_redacted_folds (id : String) : ¬ Redacted (folds S) id := by
  rintro ⟨d, hd, hr⟩
  rw [(mem_folds.mp hd).2] at hr
  cases hr

/-- The message last, behind every edit and every redaction. -/
def messageLast (S : List ProjectedEvent) (o : ProjectedEvent) : List ProjectedEvent :=
  (folds S).erase o ++ (redactions S ++ [o])

def redactionsFirst (S : List ProjectedEvent) : List ProjectedEvent := redactions S ++ folds S

theorem folds_perm (S : List ProjectedEvent) : (folds S ++ redactions S).Perm S := by
  refine Eq.subst (motive := fun l => (folds S ++ l).Perm S) ?_
    (List.filter_append_perm (fun e => decide (e.redactsEventId = none)) S)
  simp [redactions]

theorem messageLast_perm {o : ProjectedEvent} (ho : o ∈ S) (hoo : o.IsOriginal) : (messageLast S o).Perm S := by
  have hof : o ∈ folds S := mem_folds.mpr ⟨ho, hoo.1⟩
  calc messageLast S o
      _ |>.Perm ((folds S).erase o ++ (o :: redactions S)) :=
        (List.perm_append_singleton o _).append_left _
      _ |>.Perm (o :: ((folds S).erase o ++ redactions S)) := List.perm_middle
      _ |>.Perm (folds S ++ redactions S) := (List.perm_cons_erase hof).symm.append_right _
      _ |>.Perm S := folds_perm S

theorem redactionsFirst_perm (S : List ProjectedEvent) : (redactionsFirst S).Perm S :=
  List.perm_append_comm.trans (folds_perm S)

/-- With the message last, the redaction of its newest edit has emptied the slot that refused
its older ones: the message shows itself. -/
theorem shows_original_of_messageLast (hS : EventSet roomId S) {o x : ProjectedEvent} (ho : o ∈ S)
    (hoo : o.IsOriginal) (hor : ¬ Redacted S o.eventId) (hx : x ∈ S) (hs : x.sender = o.sender)
    (hnew : NewestEdit S x o.eventId) (hxr : Redacted S x.eventId) :
    (View.empty.foldAll principalId epoch (run (messageLast S o))).visible o.eventId =
      some (revisionRow principalId epoch o o) := by
  have hxo : x ≠ o := fun h => hnew.1.not_original (h ▸ hoo)
  have hN : EventSet roomId (folds S) := hS.filter _
  have hmem : ∀ e, e ∈ (folds S).erase o ↔ e ≠ o ∧ e ∈ folds S := fun e => hN.nodup.mem_erase_iff
  have hnext : Next roomId (folds S) ((folds S).erase o) o :=
    ⟨hN, fun e he => ((hmem e).mp he).2, mem_folds.mpr ⟨ho, hoo.1⟩, fun h => ((hmem o).mp h).1 rfl⟩
  have hf : Folded principalId epoch (folds S) ((folds S).erase o)
      (View.empty.foldAll principalId epoch (run ((folds S).erase o))) :=
    folded_run hN hnext.sub (hN.nodup.erase o)
  have hnewN : NewestEdit (folds S) x o.eventId :=
    ⟨hnew.1, fun e he => hnew.2 e (mem_folds.mp he).1⟩
  have hheld := (hf.newest x ((hmem x).mpr ⟨hxo, mem_folds.mpr ⟨hx, hnew.1.1⟩⟩) _ hnewN
    (not_redacted_folds _) (not_redacted_folds _)).2 fun o' ho' _ => hnext.ne_of_mem ho'
  have hvis : (View.empty.foldAll principalId epoch (run ((folds S).erase o))).visible o.eventId =
      none := by
    cases hrow : (View.empty.foldAll principalId epoch (run ((folds S).erase o))).visible o.eventId with
    | none => rfl
    | some row =>
      obtain ⟨-, o', ho', -, hk, -⟩ := hf.visible_some _ row hrow
      exact absurd hk (hnext.ne_of_mem ho')
  have hgone : o.eventId ∉ (View.empty.foldAll principalId epoch (run ((folds S).erase o))).gone :=
    fun h => not_redacted_folds _ (hf.gone_sub hnext.sub _ h)
  -- the redactions empty the slot, and the message arrives to find it so
  rw [messageLast, run_append, run_append, View.foldAll_append, View.foldAll_append]
  generalize View.empty.foldAll principalId epoch (run ((folds S).erase o)) = v at hheld hvis hgone
  have hclear : Cleared (redactions S) v (v.foldAll principalId epoch (run (redactions S))) :=
    View.foldAll_redactions (fun e he => (mem_redactions.mp he).2) v
  generalize v.foldAll principalId epoch (run (redactions S)) = w at hclear
  have hwg : o.eventId ∉ w.gone := fun h =>
    ((hclear.gone _).mp h).elim hgone fun h => hor ((redacted_redactions _).mp h)
  have hwv : w.visible o.eventId = none := hclear.visible _ hvis
  have hwh : w.held o.eventId o.sender = none := by
    cases hh : w.held o.eventId o.sender with
    | none => rfl
    | some h =>
      obtain ⟨hv, hnr⟩ := hclear.held _ _ h hh
      obtain rfl := Option.some.inj (hv.symm.trans (hs ▸ hheld))
      exact absurd ((redacted_redactions _).mpr hxr) hnr
  refine (congrFun (congrArg View.visible (View.foldAll_original hoo hwg 0)) _).trans ?_
  rw [View.foldOriginal_of_unheld hwv hwh, originalRow_eq hoo (hS.noSidecar o ho)]

/-- With the redactions first, an edit that nothing redacted is shown in the end, or a newer
one. -/
theorem shows_edit_of_redactionsFirst (hS : EventSet roomId S) (hnewer : EditsAreNewer S)
    {o e : ProjectedEvent} (ho : o ∈ S) (hoo : o.IsOriginal) (hor : ¬ Redacted S o.eventId)
    (he : e ∈ S) (hown : OwnEdit o e) (her : ¬ Redacted S e.eventId) : ∃ y ∈ S, OwnEdit o y ∧
      (View.empty.foldAll principalId epoch (run (redactionsFirst S))).visible o.eventId =
        some (revisionRow principalId epoch o y) := by
  -- the events a redaction is not about, and the redactions
  let T := S.filter fun e => e.redactsEventId ≠ none ∨ ¬ Redacted S e.eventId
  let l := redactions S ++ (folds S).filter fun e => ¬ Redacted S e.eventId
  have hT : ∀ e, e ∈ T ↔ e ∈ S ∧ (e.redactsEventId ≠ none ∨ ¬ Redacted S e.eventId) := by
    simp [T]
  have hl : ∀ e, e ∈ l ↔ e ∈ T := fun e => by
    simp only [l, hT, List.mem_append, mem_redactions, List.mem_filter, mem_folds, decide_eq_true_eq]
    by_cases h : e.redactsEventId = none <;> simp [h]
  have hTS : ∀ id, Redacted T id → Redacted S id := fun id h => h.mono fun e he => ((hT e).mp he).1
  have hnd : l.Nodup := by
    refine List.nodup_append.mpr ⟨hS.nodup.filter _, (hS.nodup.filter _).filter _, ?_⟩
    rintro a ha b hb rfl
    exact (mem_redactions.mp ha).2 (mem_folds.mp (List.mem_filter.mp hb).1).2
  have hfold : View.empty.foldAll principalId epoch (run (redactionsFirst S)) =
      View.empty.foldAll principalId epoch (run l) := by
    rw [redactionsFirst, run_append, run_append, View.foldAll_append, View.foldAll_append]
    have hclear : Cleared (redactions S) View.empty
        (View.empty.foldAll principalId epoch (run (redactions S))) :=
      View.foldAll_redactions (fun e he => (mem_redactions.mp he).2) _
    refine View.foldAll_filter (fun e he => (mem_folds.mp he).2) fun e _ h => ?_
    exact (hclear.gone _).mpr (.inr ((redacted_redactions _).mpr (not_not.mp h)))
  have hf : Folded principalId epoch T l (View.empty.foldAll principalId epoch (run l)) :=
    folded_run (hS.filter _) (fun e => (hl e).mp) hnd
  obtain ⟨y, hy, hnew, hys⟩ := exists_newestEdit ((hT e).mpr ⟨he, .inr her⟩) hown.1
  have hyS := (hT y).mp hy
  have hyr : ¬ Redacted S y.eventId := hyS.2.resolve_left fun h => h hnew.1.1
  have hyo : OwnEdit o y := ⟨hnew.1, hys.trans hown.2⟩
  refine ⟨y, hyS.1, hyo, ?_⟩
  rw [hfold]
  exact (hf.newest y ((hl y).mpr hy) _ hnew (fun h => hyr (hTS _ h)) (fun h => hor (hTS _ h))).1 o
    ((hl o).mpr ((hT o).mpr ⟨ho, .inr hor⟩)) hoo rfl hyo.2.symm (hnewer o ho hoo y hyS.1 hyo)

/-- Where every edit by its own sender is newer than its message, the orders of a set agree
wherever they are readable exactly when no message that keeps an edit has lost its newest. -/
theorem agrees_iff (hS : EventSet roomId S) (hdb : EmptyProjection db) (hnewer : EditsAreNewer S) :
    Agrees principalId roomId epoch db S ↔ NewestSurvives S := by
  refine ⟨fun hagree o ho hoo hor x hx hs hnew hxr e he hown => ?_, agrees_of_newestSurvives hS hdb hnewer⟩
  by_contra her
  have hlast : ((run (messageLast S o)).map Prod.fst).Perm S := by
    rw [run_fst]
    exact messageLast_perm ho hoo
  have hfirst : ((run (redactionsFirst S)).map Prod.fst).Perm S := by
    rw [run_fst]
    exact redactionsFirst_perm S
  have hview : ∀ l : List (ProjectedEvent × Nat), (l.map Prod.fst).Perm S →
      visibleAt (projectAll principalId epoch l db) principalId roomId o.eventId =
        (View.empty.foldAll principalId epoch l).visible o.eventId := fun l hl => by
    change (viewOf principalId roomId _).visible _ = _
    rw [viewOf_projectAll (hS.room_of_perm hl) hdb.matrixDeliveryOutbox, hdb.viewOf]
  obtain ⟨y, hy, hyo, hshown⟩ := shows_edit_of_redactionsFirst hS hnewer ho hoo hor he hown her
  have hrev := ((hagree _ _ hlast hfirst o.eventId).2 _ _
    ((hview _ hlast).trans (shows_original_of_messageLast hS ho hoo hor hx hs hnew hxr))
    ((hview _ hfirst).trans hshown) (Option.some_ne_none _) (Option.some_ne_none _)).1
  obtain rfl := hS.eq_of_eventId ho hy hrev
  exact hyo.1.not_original hoo

end

/-! ### A message, two edits of it, and the redaction of the newer one -/

namespace LostEdit

def edit (id : String) (ts : Int) : ProjectedEvent :=
  { OlderEdit.edit ts with eventId := id }

def redaction (target : String) : ProjectedEvent :=
  { OlderEdit.original with
    eventId := "$d"
    originServerTs := 20
    content := []
    redactsEventId := some target }

/-- Held one after the other, the newer edit crowds out the older and is then redacted away;
folded onto the message, the older one is shown. -/
theorem not_agrees : ¬ Agrees "@p" "!r" 0 (DB.init fun _ => 0)
      [OlderEdit.original, edit "$n" 15, redaction "$x", edit "$x" 18] := by
  intro h
  have hperm : [edit "$x" 18, edit "$n" 15, redaction "$x", OlderEdit.original].Perm
      [OlderEdit.original, edit "$n" 15, redaction "$x", edit "$x" 18] := by decide +kernel
  have hsame := (h (run [edit "$x" 18, edit "$n" 15, redaction "$x", OlderEdit.original])
    (run [OlderEdit.original, edit "$n" 15, redaction "$x", edit "$x" 18])
    (by rw [run_fst]; exact hperm) (by rw [run_fst]) "$o").2
    (revisionRow "@p" 0 OlderEdit.original OlderEdit.original)
    (revisionRow "@p" 0 OlderEdit.original (edit "$n" 15)) (by decide +kernel) (by decide +kernel)
    (Option.some_ne_none _) (Option.some_ne_none _)
  exact absurd hsame.1 (by decide +kernel)

theorem eventSet : EventSet "!r" [OlderEdit.original, edit "$x" 18, redaction "$x"] where
  inRoom e he := by
    simp only [List.mem_cons, List.not_mem_nil, or_false] at he
    rcases he with rfl | rfl | rfl <;> rfl
  distinct := by decide +kernel
  noSidecar e he := by
    simp only [List.mem_cons, List.not_mem_nil, or_false] at he
    rcases he with rfl | rfl | rfl <;> exact ⟨rfl, rfl⟩

/-- A message whose only edit is redacted shows that edit withheld, or itself. -/
theorem agrees_only_edit : Agrees "@p" "!r" 0 (DB.init fun _ => 0)
    [OlderEdit.original, edit "$x" 18, redaction "$x"] := by
  have hedits : ∀ o ∈ [OlderEdit.original, edit "$x" 18, redaction "$x"],
      ∀ e ∈ [OlderEdit.original, edit "$x" 18, redaction "$x"], OwnEdit o e →
        o.rank < e.rank ∧
          Redacted [OlderEdit.original, edit "$x" 18, redaction "$x"] e.eventId := by
    decide +kernel
  exact (agrees_iff eventSet OlderEdit.emptyProjection
    fun o ho _ e he hown => (hedits o ho e he hown).1).mpr
    fun o ho _ _ _ _ _ _ _ e he hown => (hedits o ho e he hown).2

end LostEdit

end MindRoom
