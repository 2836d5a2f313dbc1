import MindRoom.Convergence

/-! # The revision a refetch finds

`_reduce_current_revision` of `matrix/conversation_hydration.py` picks the current revision of a
message out of the relations the server lists, and `project` keeps one by folding live events. The
two agree on which edit won. They read the body of a message that no edit replaced differently: the
reducer looks for `m.new_content` in it, the projection stores it as it is.
-/

namespace MindRoom

open Function ProjectedEvent

/-! ## The reducer -/

/-- The revision of a logical message that is currently on the server. -/
structure CurrentRevision where
  eventId : String
  originServerTs : Int
  sender : String
  transactionId : Option String
  content : Dict
deriving DecidableEq

/-- One event as a revision: what it installs lives under `m.new_content`. -/
def currentRevision (e : ProjectedEvent) : CurrentRevision where
  eventId := e.eventId
  originServerTs := e.originServerTs
  sender := e.sender
  transactionId := e.transactionId
  content := visibleContent e.content

def reduceRelation (original : ProjectedEvent) (winner : CurrentRevision) (relation : ProjectedEvent) :
    CurrentRevision :=
  if relation.replacesEventId ≠ some original.eventId then winner
  else if relation.sender ≠ original.sender then winner
  else if ¬ IsNewerRevision (relation.originServerTs, relation.eventId)
      (winner.originServerTs, winner.eventId) then winner
  else currentRevision relation

/-- The revision the server would show for one logical message. -/
def reduceCurrentRevision (original : ProjectedEvent) (relations : List ProjectedEvent) : CurrentRevision :=
  relations.foldl (reduceRelation original) (currentRevision original)

/-! ## What the reducer picks -/

/-- An edit of `o` by its own sender that is newer than `o`. -/
def Revises (o e : ProjectedEvent) : Prop := OwnEdit o e ∧ o.rank < e.rank

instance (o e : ProjectedEvent) : Decidable (Revises o e) := inferInstanceAs (Decidable (_ ∧ _))

/-- The event as `_projected_from_event` builds it: its target is read from its content, and no
redaction is among the relations of a message that is there. -/
structure Fetched (e : ProjectedEvent) : Prop where
  replaces : e.replacesEventId = replacementTarget e.content
  notRedaction : e.redactsEventId = none

/-- The revision in the order that decides which one is visible. -/
def CurrentRevision.rank (w : CurrentRevision) : Revision := toLex (w.originServerTs, w.eventId)

section

variable {o e : ProjectedEvent} {l : List ProjectedEvent} {w : CurrentRevision}

theorem Fetched.ownEdit_iff (he : Fetched e) :
    OwnEdit o e ↔ e.replacesEventId = some o.eventId ∧ e.sender = o.sender := by
  unfold OwnEdit ProjectedEvent.Edits
  rw [he.replaces]
  constructor
  · rintro ⟨⟨-, htarget⟩, hsender⟩
    exact ⟨htarget, hsender⟩
  · rintro ⟨htarget, hsender⟩
    exact ⟨⟨he.notRedaction, htarget⟩, hsender⟩

/-- A relation wins when it is an own edit and newer than the winner so far. -/
theorem reduceRelation_eq (he : Fetched e) :
    (OwnEdit o e ∧ w.rank < e.rank ∧ reduceRelation o w e = currentRevision e) ∨
      (¬ (OwnEdit o e ∧ w.rank < e.rank) ∧ reduceRelation o w e = w) := by
  unfold reduceRelation
  split
  · next hreplaces =>
    refine .inr ⟨?_, rfl⟩
    rintro ⟨hown, -⟩
    exact hreplaces (he.ownEdit_iff.mp hown).1
  · next hreplaces =>
    split
    · next hsender =>
      refine .inr ⟨?_, rfl⟩
      rintro ⟨hown, -⟩
      exact hsender hown.2
    · next hsender =>
      have hown : OwnEdit o e := he.ownEdit_iff.mpr ⟨not_not.mp hreplaces, not_not.mp hsender⟩
      split
      · next hold => exact .inr ⟨fun h => hold h.2, rfl⟩
      · next hnewer => exact .inl ⟨hown, not_not.mp hnewer, rfl⟩

theorem reduceCurrentRevision_concat :
    reduceCurrentRevision o (l ++ [e]) = reduceRelation o (reduceCurrentRevision o l) e := by
  unfold reduceCurrentRevision
  rw [List.foldl_append]
  rfl

/-- The winner is the original, or newer than it by an edit of the list. -/
theorem reduceCurrentRevision_cases (hl : ∀ e ∈ l, Fetched e) :
    (¬ (∃ e ∈ l, Revises o e) ∧ reduceCurrentRevision o l = currentRevision o) ∨
      ((∃ e ∈ l, Revises o e) ∧ o.rank < (reduceCurrentRevision o l).rank) := by
  induction l using List.reverseRecOn with
  | nil => exact .inl ⟨by simp, rfl⟩
  | append_singleton l e ih =>
    have hfetched : Fetched e := hl e (by simp)
    have hmem : (∃ e' ∈ l ++ [e], Revises o e') ↔ (∃ e' ∈ l, Revises o e') ∨ Revises o e := by
      simp [or_and_right, exists_or]
    rw [hmem, reduceCurrentRevision_concat]
    rcases ih fun e' he' => hl e' (List.mem_append_left _ he') with ⟨hnone, heq⟩ | ⟨hsome, hlt⟩
    · rw [heq]
      rcases reduceRelation_eq hfetched with ⟨hown, hnewer, hwins⟩ | ⟨hloses, hstays⟩
      · rw [hwins]
        exact .inr ⟨.inr ⟨hown, hnewer⟩, hnewer⟩
      · rw [hstays]
        refine .inl ⟨?_, rfl⟩
        rintro (h | h)
        · exact hnone h
        · exact hloses h
    · refine .inr ⟨.inl hsome, ?_⟩
      rcases reduceRelation_eq hfetched with ⟨-, hnewer, hwins⟩ | ⟨-, hstays⟩
      · rw [hwins]
        exact hlt.trans hnewer
      · rw [hstays]
        exact hlt

end

/-! ## What the projection shows -/

/-- The view shows `o`, in the revision the reducer picks from `l`: with the body of an edit once one
revises it, and with its own content until then. -/
structure Tracks (o : ProjectedEvent) (l : List ProjectedEvent) (v : View) : Prop where
  row : ∃ row, v.visible o.eventId = some row ∧ row.sender = o.sender ∧
    row.revisionEventId = (reduceCurrentRevision o l).eventId ∧
    row.revisionTs = (reduceCurrentRevision o l).originServerTs ∧
    ((∃ e ∈ l, Revises o e) → row.contentJson = some (reduceCurrentRevision o l).content) ∧
    (¬ (∃ e ∈ l, Revises o e) → row.contentJson = some o.content)
  released : ∀ sender, v.held o.eventId sender = none
  gone : v.gone = ∅

section

variable {o e : ProjectedEvent} {l : List ProjectedEvent} {v : View} {p id : String} {epoch : Int} {n : Nat}
  {row : VisibleMessageRow}

/-- What a fold of `e` leaves alone of the message `id`. -/
structure Leaves (id : String) (v v' : View) : Prop where
  visible : v'.visible id = v.visible id
  held : (∀ sender, v.held id sender = none) → ∀ sender, v'.held id sender = none
  gone : v'.gone = v.gone

theorem leaves_install {t r : String} {ts : Int} {content : Dict} (hne : id ≠ t) :
    Leaves id v (v.install t r ts content n) where
  visible := update_of_ne hne ..
  held h := h
  gone := rfl

theorem leaves_release {t : String} : Leaves id v (v.release t) where
  visible := rfl
  held h sender := by
    change update v.held t (fun _ => none) id sender = none
    by_cases hid : id = t
    · rw [hid, update_self]
    · rw [update_of_ne hid]
      exact h sender
  gone := rfl

theorem Leaves.trans {v' v'' : View} (h : Leaves id v v') (h' : Leaves id v' v'') : Leaves id v v'' :=
  ⟨h'.visible.trans h.visible, fun hv => h'.held (h.held hv), h'.gone.trans h.gone⟩

/-- Another original, or the same one again. -/
theorem leaves_foldOriginal (hrow : v.visible id = some row) (hheld : ∀ sender, v.held id sender = none) :
    Leaves id v (v.foldOriginal p e n epoch) := by
  have harrive : Leaves id v (v.arrive (originalRow p e n epoch)) := by
    refine ⟨?_, fun h => h, rfl⟩
    change update v.visible e.eventId (some ((v.visible e.eventId).getD _)) id = v.visible id
    by_cases hid : id = e.eventId
    · rw [← hid, update_self, hrow]
      rfl
    · rw [update_of_ne hid]
  refine harrive.trans ?_
  unfold View.foldOriginal View.applyHeld
  split
  · exact leaves_release
  · next held hfound =>
    -- an edit was held, so the message is another one
    have hne : id ≠ e.eventId := by
      rintro rfl
      have hnone : (v.arrive (originalRow p e n epoch)).held e.eventId e.sender = none := harrive.held hheld e.sender
      rw [hfound] at hnone
      cases hnone
    split
    · exact leaves_release
    · exact leaves_release.trans (leaves_install hne)

/-- An edit of another message, of another sender, or an older one. -/
theorem leaves_foldEdit {t : String} (hrow : v.visible id = some row) (hlost : id = t → row.sender = e.sender →
      ¬ IsNewerRevision (e.originServerTs, e.eventId) (row.revisionTs, row.revisionEventId)) :
    Leaves id v (v.foldEdit p e t n) := by
  have hsame : Leaves id v v := ⟨rfl, fun h => h, rfl⟩
  unfold View.foldEdit
  split
  · next hnone =>
    split
    · exact hsame
    · -- the edit is held for a message that is not there
      have hne : id ≠ t := by
        rintro rfl
        rw [hrow] at hnone
        cases hnone
      refine ⟨rfl, fun h sender => ?_, rfl⟩
      change update v.held t _ id sender = none
      rw [update_of_ne hne]
      exact h sender
  · next current hcurrent =>
    split
    · exact hsame
    · next hsender =>
      split
      · next hnewer =>
        apply leaves_install
        rintro rfl
        obtain rfl : current = row := Option.mem_unique hcurrent hrow
        exact hlost rfl (not_not.mp hsender) hnewer
      · exact hsame

/-- An own edit that is newer than what is on screen. -/
theorem foldEdit_newer (hrow : v.visible id = some row) (hsender : row.sender = e.sender)
    (hnewer : IsNewerRevision (e.originServerTs, e.eventId) (row.revisionTs, row.revisionEventId)) :
    v.foldEdit p e id n = v.install id e.eventId e.originServerTs (visibleContent e.content) n := by
  unfold View.foldEdit
  rw [hrow]
  dsimp only
  rw [if_neg (not_not.mpr hsender), if_pos hnewer]

theorem fold_of_fetched (he : Fetched e) (hgone : v.gone = ∅) : v.fold p e n epoch =
      match replacementTarget e.content with
      | none => v.foldOriginal p e n epoch
      | some target => v.foldEdit p e target n := by
  unfold View.fold
  rw [he.notRedaction]
  exact if_neg (hgone ▸ Set.notMem_empty _)

/-- One relation: the row and the reducer move together. -/
theorem Tracks.step (h : Tracks o l v) (he : Fetched e) (hl : ∀ e ∈ l, Fetched e)
    (hside : e.NoSidecar) : Tracks o (l ++ [e]) (v.fold p e n epoch) := by
  rcases h.row with ⟨row, hrow, hsender, hid, hts, hedited, hplain⟩
  have hrank : IsNewerRevision (e.originServerTs, e.eventId) (row.revisionTs, row.revisionEventId) ↔
      (reduceCurrentRevision o l).rank < e.rank := by
    rw [hid, hts]
    rfl
  have hmem : (∃ e' ∈ l ++ [e], Revises o e') ↔ (∃ e' ∈ l, Revises o e') ∨ Revises o e := by
    simp [or_and_right, exists_or]
  have hle : o.rank ≤ (reduceCurrentRevision o l).rank := by
    rcases reduceCurrentRevision_cases hl with ⟨-, heq⟩ | ⟨-, hlt⟩
    · rw [heq]
      rfl
    · exact hlt.le
  rcases reduceRelation_eq (o := o) (w := reduceCurrentRevision o l) he with ⟨hown, hnewer, hwins⟩ | ⟨hloses, hstays⟩
  · -- the edit is installed, and wins
    have hfold : v.fold p e n epoch =
        v.install o.eventId e.eventId e.originServerTs (visibleContent e.content) n := by
      rw [fold_of_fetched he h.gone, hown.1.2]
      exact foldEdit_newer hrow (hsender.trans hown.2.symm) (hrank.mpr hnewer)
    have hrevised : ∃ e' ∈ l ++ [e], Revises o e' := hmem.mpr (.inr ⟨hown, hle.trans_lt hnewer⟩)
    have hbody := storedBody_of_noSidecar hside.2 n
    rw [hfold]
    refine ⟨?_, h.released, h.gone⟩
    rw [reduceCurrentRevision_concat, hwins]
    refine ⟨_, (update_self ..).trans (congrArg (Option.map _) hrow), hsender, rfl, rfl, ?_, ?_⟩
    · intro _
      exact congrArg Prod.fst hbody
    · intro hnone
      exact absurd hrevised hnone
  · -- nothing happens to the message
    have hleaves : Leaves o.eventId v (v.fold p e n epoch) := by
      rw [fold_of_fetched he h.gone]
      cases htarget : replacementTarget e.content with
      | none => exact leaves_foldOriginal hrow h.released
      | some t =>
        apply leaves_foldEdit hrow
        rintro rfl hs hnewer
        exact hloses ⟨⟨⟨he.notRedaction, htarget⟩, hs.symm.trans hsender⟩, hrank.mp hnewer⟩
    have hrevised : (∃ e' ∈ l ++ [e], Revises o e') ↔ ∃ e' ∈ l, Revises o e' := by
      rw [hmem]
      refine or_iff_left_of_imp fun hrev => ?_
      rcases reduceCurrentRevision_cases hl with ⟨-, heq⟩ | ⟨hsome, -⟩
      · rw [heq] at hloses
        exact absurd hrev hloses
      · exact hsome
    refine ⟨?_, hleaves.held h.released, hleaves.gone.trans h.gone⟩
    rw [hrevised, reduceCurrentRevision_concat, hstays]
    exact ⟨row, hleaves.visible.trans hrow, hsender, hid, hts, hedited, hplain⟩

/-- The message as it arrives in an empty room. -/
theorem tracks_original (ho : o.IsOriginal) (hside : o.NoSidecar) : Tracks o [] (View.empty.fold p o n epoch) := by
  have hfold : View.empty.fold p o n epoch = View.empty.foldOriginal p o n epoch :=
    View.foldAll_original ho (Set.notMem_empty _) n
  have harrive : View.empty.foldOriginal p o n epoch =
      (View.empty.arrive (originalRow p o n epoch)).release o.eventId := rfl
  rw [hfold, harrive]
  refine ⟨⟨originalRow p o n epoch, update_self .., rfl, rfl, rfl, ?_, ?_⟩, ?_, rfl⟩
  · rintro ⟨e, he, -⟩
    cases he
  · intro _
    exact congrArg Prod.fst (storedBody_of_noSidecar hside.1 n)
  · intro sender
    have hnone : (update View.empty.held o.eventId fun _ => none) o.eventId = fun _ => none := update_self ..
    exact congrFun hnone sender

/-- The relations one after the other. -/
theorem Tracks.run {rs : List (ProjectedEvent × Nat)} (h : Tracks o [] v) (hrs : ∀ e ∈ rs, Fetched e.1)
    (hside : ∀ e ∈ rs, e.1.NoSidecar) : Tracks o (rs.map Prod.fst) (v.foldAll p epoch rs) := by
  induction rs using List.reverseRecOn with
  | nil => exact h
  | append_singleton rs e ih =>
    have htracks := ih (fun e' he' => hrs e' (List.mem_append_left _ he'))
      fun e' he' => hside e' (List.mem_append_left _ he')
    have hfetched : ∀ e' ∈ rs.map Prod.fst, Fetched e' := by
      intro e' he'
      rcases List.mem_map.mp he' with ⟨x, hx, rfl⟩
      exact hrs x (List.mem_append_left _ hx)
    rw [List.map_append, List.map_singleton, View.foldAll_append]
    exact htracks.step (hrs e (by simp)) hfetched (hside e (by simp))

end

/-! ## Agreement -/

/-- A dictionary is none of its own values. -/
theorem obj?_ne_self {d : Dict} {k : String} : d.obj? k ≠ some d := by
  intro h
  have hlookup : d.lookup k = some (.obj d) := by
    unfold Dict.obj? Dict.get? at h
    split at h
    · next d' hfound =>
      obtain rfl : d' = d := Option.some.inj h
      exact hfound
    · cases h
  have hmem : (k, Json.obj d) ∈ d := by
    rcases List.lookup_eq_some_iff.mp hlookup with ⟨front, back, hd, -⟩
    have hin : (k, Json.obj d) ∈ front ++ (k, Json.obj d) :: back := by simp
    rwa [← hd] at hin
  have hsize := List.sizeOf_lt_of_mem hmem
  simp only [Prod.mk.sizeOf_spec, Json.obj.sizeOf_spec] at hsize
  omega

/-- What is no edit's body is the message's own content, unless it carries `m.new_content`. -/
theorem visibleContent_eq_self_iff {content : Dict} :
    visibleContent content = content ↔ content.obj? "m.new_content" = none := by
  unfold visibleContent
  cases hnew : content.obj? "m.new_content" with
  | none => simp
  | some new =>
    simp only [Option.getD_some, reduceCtorEq, iff_false]
    rintro rfl
    exact obj?_ne_self hnew

/-- The visible row of a message that was projected with its relations is in the revision the reducer
picks from them, with its body. -/
def RefetchAgrees (principalId : String) (epoch : Int) (db : DB) (o : ProjectedEvent) (n : Nat)
    (relations : List (ProjectedEvent × Nat)) : Prop :=
  ∃ row, visibleAt (projectAll principalId epoch ((o, n) :: relations) db) principalId o.roomId o.eventId = some row ∧
    row.revisionEventId = (reduceCurrentRevision o (relations.map Prod.fst)).eventId ∧
    row.revisionTs = (reduceCurrentRevision o (relations.map Prod.fst)).originServerTs ∧
    row.contentJson = some (reduceCurrentRevision o (relations.map Prod.fst)).content

/-- The reducer and the projection agree exactly when an own edit is newer than the message, or the
message carries no `m.new_content` of its own. -/
theorem refetch_agrees_iff {p : String} {epoch : Int} {db : DB} (hdb : EmptyProjection db) {o : ProjectedEvent}
    (n : Nat) {relations : List (ProjectedEvent × Nat)} (ho : o.IsOriginal) (hoside : o.NoSidecar)
    (hroom : ∀ e ∈ relations, e.1.roomId = o.roomId) (hfetched : ∀ e ∈ relations, Fetched e.1)
    (hside : ∀ e ∈ relations, e.1.NoSidecar) : RefetchAgrees p epoch db o n relations ↔
      (∃ e ∈ relations.map Prod.fst, Revises o e) ∨ o.content.obj? "m.new_content" = none := by
  have hinroom : ∀ e ∈ (o, n) :: relations, e.1.roomId = o.roomId := by
    intro e he
    rcases List.mem_cons.mp he with rfl | he
    · rfl
    · exact hroom e he
  have hview : viewOf p o.roomId (projectAll p epoch ((o, n) :: relations) db) =
      (View.empty.fold p o n epoch).foldAll p epoch relations := by
    rw [viewOf_projectAll hinroom hdb.matrixDeliveryOutbox, hdb.viewOf]
    rfl
  have htracks : Tracks o (relations.map Prod.fst)
      (viewOf p o.roomId (projectAll p epoch ((o, n) :: relations) db)) := by
    rw [hview]
    exact (tracks_original ho hoside).run hfetched hside
  rcases htracks.row with ⟨row, hrow, -, hid, hts, hedited, hplain⟩
  have hcases := reduceCurrentRevision_cases (o := o) (l := relations.map Prod.fst) (by simpa using hfetched)
  unfold RefetchAgrees
  by_cases hrev : ∃ e ∈ relations.map Prod.fst, Revises o e
  · constructor
    · intro _
      exact .inl hrev
    · intro _
      exact ⟨row, hrow, hid, hts, hedited hrev⟩
  · have hwinner : reduceCurrentRevision o (relations.map Prod.fst) = currentRevision o := by
      rcases hcases with ⟨-, heq⟩ | ⟨hsome, -⟩
      · exact heq
      · exact absurd hsome hrev
    rw [hwinner] at hid hts ⊢
    rw [or_iff_right hrev, ← visibleContent_eq_self_iff]
    constructor
    · rintro ⟨row', hrow', -, -, hbody⟩
      obtain rfl : row = row' := Option.mem_unique hrow hrow'
      exact (Option.some.inj ((hplain hrev).symm.trans hbody)).symm
    · intro heq
      refine ⟨row, hrow, hid, hts, (hplain hrev).trans (congrArg some heq.symm)⟩

/-! ### A second body in a message that revises nothing -/

namespace SecondBody

/-- A message that carries `m.new_content` and replaces nothing. -/
def original : ProjectedEvent where
  eventId := "$o"
  roomId := "!r"
  threadId := none
  sender := "@a"
  originServerTs := 10
  content := [("body", .str "what the room shows"), ("m.new_content", .obj [("body", .str "another body")])]
  replacesEventId := none
  redactsEventId := none
  transactionId := none

theorem original_wellFormed : original.IsOriginal ∧ Fetched original ∧ original.NoSidecar :=
  ⟨⟨rfl, rfl⟩, ⟨rfl, rfl⟩, ⟨rfl, rfl⟩⟩

/-- Its row keeps the content of the room, a refetch without relations finds the other body. -/
theorem not_refetchAgrees : EmptyProjection (DB.init fun _ => 0) ∧ original.IsOriginal ∧ original.NoSidecar ∧
    ¬ RefetchAgrees "@p" 0 (DB.init fun _ => 0) original 0 [] := by
  refine ⟨⟨rfl, rfl, rfl, rfl⟩, original_wellFormed.1, original_wellFormed.2.2, ?_⟩
  rintro ⟨row, hrow, -, -, hbody⟩
  have hshown : visibleAt (projectAll "@p" 0 [(original, 0)] (DB.init fun _ => 0)) "@p" "!r" "$o" =
      some (originalRow "@p" original 0 0) := by decide +kernel
  obtain rfl : row = originalRow "@p" original 0 0 := Option.mem_unique hrow hshown
  exact absurd hbody (by decide +kernel)

def edit : ProjectedEvent :=
  { original with
    eventId := "$e"
    originServerTs := 15
    content :=
      [("m.relates_to", .obj [("rel_type", .str "m.replace"), ("event_id", .str "$o")]),
        ("m.new_content", .obj [("body", .str "edited")])]
    replacesEventId := some "$o" }

theorem refetchAgrees_edited : RefetchAgrees "@p" 0 (DB.init fun _ => 0) original 0 [(edit, 1)] := by
  refine (refetch_agrees_iff ⟨rfl, rfl, rfl, rfl⟩ 0 original_wellFormed.1 original_wellFormed.2.2 ?_ ?_ ?_).mpr
    (.inl ⟨edit, by simp, by decide +kernel⟩)
  · intro e he
    rw [List.mem_singleton] at he
    rw [he]
    rfl
  · intro e he
    rw [List.mem_singleton] at he
    rw [he]
    exact ⟨rfl, rfl⟩
  · intro e he
    rw [List.mem_singleton] at he
    rw [he]
    exact ⟨rfl, rfl⟩

end SecondBody

end MindRoom
