import MindRoom.FoldInvariant

/-! # Convergence

Two replicas that fold the same events in different orders. Without redactions they agree
exactly when no message has only edits older than itself; with redactions they agree exactly
when no message still shown has lost the newest of its edits. The held slot is what breaks the
tie both times: it keeps one edit a target and sender, and installs it without comparing it
with the message that arrives.
-/

namespace MindRoom

open Function ProjectedEvent

/-- `project` over a run of events, each at the receipt order it is folded at. -/
def projectAll (principalId : String) (epoch : Int) (l : List (ProjectedEvent × Nat)) (db : DB) :
    DB :=
  l.foldl (fun db e => (project principalId e.1 e.2 epoch db).2) db

/-- Nothing projected yet, and no delivery that could disown an event. -/
structure EmptyProjection (db : DB) : Prop where
  visibleMessages : db.visibleMessages = ∅
  unresolvedEdits : db.unresolvedEdits = ∅
  redactionTombstones : db.redactionTombstones = ∅
  matrixDeliveryOutbox : db.matrixDeliveryOutbox = ∅

theorem EmptyProjection.viewOf {db : DB} (h : EmptyProjection db) (principalId roomId : String) :
    viewOf principalId roomId db = View.empty := by
  refine View.ext (funext fun id => ?_) (funext fun t => funext fun s => ?_) (Set.ext fun id => ?_)
  · change visibleAt db principalId roomId id = none
    rw [visibleAt, h.visibleMessages, Table.get?_empty]
  · change heldAt db principalId roomId t s = none
    rw [heldAt, h.unresolvedEdits, Table.get?_empty]
  · change IsTombstoned db principalId roomId id ↔ False
    rw [isTombstoned_iff, h.redactionTombstones]
    exact iff_false_intro Table.not_mem_empty

section

variable {principalId roomId : String} {epoch : Int}

/-- Without deliveries a run of one room folds the view of that room. -/
theorem viewOf_projectAll {l : List (ProjectedEvent × Nat)} (hroom : ∀ e ∈ l, e.1.roomId = roomId)
    {db : DB} (hempty : db.matrixDeliveryOutbox = ∅) : viewOf principalId roomId (projectAll principalId epoch l db) =
      (viewOf principalId roomId db).foldAll principalId epoch l := by
  induction l generalizing db with
  | nil => rfl
  | cons e l ih =>
    have hout : (project principalId e.1 e.2 epoch db).2.matrixDeliveryOutbox = ∅ :=
      (ProjectionFrame.project ..).matrixDeliveryOutbox.trans hempty
    refine (ih (fun e' he' => hroom e' (List.mem_cons_of_mem _ he')) hout).trans ?_
    rw [viewOf_project (hroom e List.mem_cons_self)]
    · rfl
    · rw [eventBelongsToMembership_of_empty hempty]

/-- A run of one room leaves every other room alone. -/
theorem viewOf_projectAll_other {p r : String} {l : List (ProjectedEvent × Nat)}
    (hroom : ∀ e ∈ l, e.1.roomId = roomId) (hne : (p, r) ≠ (principalId, roomId)) (db : DB) :
    viewOf p r (projectAll principalId epoch l db) = viewOf p r db := by
  induction l generalizing db with
  | nil => rfl
  | cons e l ih =>
    refine (ih (fun e' he' => hroom e' (List.mem_cons_of_mem _ he')) _).trans ?_
    exact viewOf_project_other (hroom e List.mem_cons_self ▸ hne) e.2 epoch

end

/-- The two databases hold the same visible messages and the same unresolved edits. -/
def SameRows (db db' : DB) : Prop :=
  (∀ row, row ∈ db.visibleMessages ↔ row ∈ db'.visibleMessages) ∧
    ∀ row, row ∈ db.unresolvedEdits ↔ row ∈ db'.unresolvedEdits

theorem sameRows_of_viewOf {db db' : DB} (h : ∀ p r, viewOf p r db = viewOf p r db') :
    SameRows db db' :=
  ⟨Table.mem_iff_of_get? fun k => congrFun (congrArg View.visible (h k.1 k.2.1)) k.2.2, Table.mem_iff_of_get? fun k =>
      congrFun (congrFun (congrArg View.held (h k.1 k.2.1)) k.2.2.1) k.2.2.2⟩

/-- `r` is the greatest among `o` and the edits of it by its own sender. -/
def Greatest (S : List ProjectedEvent) (o r : ProjectedEvent) : Prop :=
  r ∈ S ∧ (r = o ∨ OwnEdit o r) ∧ ∀ e ∈ S, e = o ∨ OwnEdit o e → e.rank ≤ r.rank

theorem Greatest.unique {roomId : String} {S : List ProjectedEvent} (hS : EventSet roomId S)
    {o r r' : ProjectedEvent} (h : Greatest S o r) (h' : Greatest S o r') : r = r' :=
  hS.eq_of_eventId h.1 h'.1
    (eventId_eq_of_rank_eq (le_antisymm (h'.2.2 r h.1 h.2.1) (h.2.2 r' h'.1 h'.2.1)))

/-- Every visible row shows the greatest of its original and its sender's edits. -/
def ShowsGreatest (principalId : String) (epoch : Int) (S : List ProjectedEvent) (db : DB) : Prop :=
  ∀ row ∈ db.visibleMessages, ∃ o ∈ S, o.IsOriginal ∧ ∃ r, Greatest S o r ∧
    row = revisionRow principalId epoch o r

/-- Any two orders of the set leave the same rows, and every visible row shows the greatest
revision of its sender. -/
def Converges (principalId : String) (epoch : Int) (db : DB) (S : List ProjectedEvent) : Prop :=
  ∀ l₁ l₂ : List (ProjectedEvent × Nat), (l₁.map Prod.fst).Perm S → (l₂.map Prod.fst).Perm S →
    SameRows (projectAll principalId epoch l₁ db) (projectAll principalId epoch l₂ db) ∧
      ShowsGreatest principalId epoch S (projectAll principalId epoch l₁ db)

/-- Every original with an edit by its own sender has one that is newer than itself. -/
def EditsOutdateOriginals (S : List ProjectedEvent) : Prop :=
  ∀ o ∈ S, o.IsOriginal → (∃ e ∈ S, OwnEdit o e) → ∃ e ∈ S, OwnEdit o e ∧ o.rank < e.rank

/-! ## Without redactions -/

section

variable {principalId roomId : String} {epoch : Int} {S l : List ProjectedEvent} {v : View}

theorem NewestEdit.greatest {o x : ProjectedEvent} (hx : x ∈ S) (hnew : NewestEdit S x o.eventId)
    (hs : x.sender = o.sender) (hlt : o.rank < x.rank) : Greatest S o x := by
  refine ⟨hx, .inr ⟨hnew.1, hs⟩, fun e he h => ?_⟩
  rcases h with rfl | ⟨het, hes⟩
  · exact le_of_lt hlt
  · exact hnew.2 e he het (hes.trans hs.symm)

/-- What a whole set shows, in whatever order it was folded. -/
theorem Folded.visible_iff (hS : EventSet roomId S) (hnored : ∀ id, ¬ Redacted S id)
    (hnewer : EditsOutdateOriginals S) (hmem : ∀ e, e ∈ l ↔ e ∈ S)
    (hf : Folded principalId epoch S l v) (id : String) (row : VisibleMessageRow) :
    v.visible id = some row ↔ ∃ o ∈ S, o.IsOriginal ∧ o.eventId = id ∧
      ∃ r, Greatest S o r ∧ row = revisionRow principalId epoch o r := by
  have hgone : ∀ id, id ∉ v.gone := fun id h => hnored id (hf.gone_sub (fun e => (hmem e).mp) id h)
  have hshown : ∀ row, v.visible id = some row → ∃ o ∈ S, o.IsOriginal ∧ o.eventId = id ∧
      ∃ r, Greatest S o r ∧ row = revisionRow principalId epoch o r := fun row h => by
    obtain ⟨-, o, ho, hoo, hk, r, hr, hre, hshows⟩ := hf.visible_some id row h
    refine ⟨o, (hmem o).mp ho, hoo, hk, ?_⟩
    by_cases hedit : ∃ e ∈ S, OwnEdit o e
    · obtain ⟨e, he, hown, hlt⟩ := hnewer o ((hmem o).mp ho) hoo hedit
      obtain ⟨x, hx, hnew, hxs⟩ := exists_newestEdit he hown.1
      have hlt' : o.rank < x.rank := lt_of_lt_of_le hlt (hnew.2 e he hown.1 hxs.symm)
      have hxo := hxs.trans hown.2
      refine ⟨x, hnew.greatest hx hxo hlt', ?_⟩
      have hx' := (hf.newest x ((hmem x).mpr hx) _ hnew (hnored _) (hnored _)).1 o ho hoo rfl
        hxo.symm hlt'
      exact Option.some.inj (h.symm.trans (hk ▸ hx'))
    · obtain rfl : r = o := hre.resolve_right fun hre => hedit ⟨r, (hmem r).mp hr, hre⟩
      refine ⟨r, ⟨(hmem r).mp hr, .inl rfl, fun e he h => ?_⟩, ?_⟩
      · rcases h with rfl | h
        · exact le_rfl
        · exact absurd ⟨e, he, h⟩ hedit
      · rcases hshows with ⟨-, h⟩ | ⟨hg, -⟩
        · exact h
        · exact absurd hg (hgone _)
  constructor
  · exact hshown row
  · rintro ⟨o, ho, hoo, rfl, r, hr, rfl⟩
    cases hrow : v.visible o.eventId with
    | none => exact absurd hrow (hf.visible_ne_none o ((hmem o).mpr ho) hoo (hgone _))
    | some row =>
      obtain ⟨o', ho', -, hk, r', hr', rfl⟩ := hshown row hrow
      obtain rfl := hS.eq_of_eventId ho' ho hk
      rw [hr.unique hS hr']

/-- What a whole set holds, in whatever order it was folded. -/
theorem Folded.held_iff (hnored : ∀ id, ¬ Redacted S id) (hmem : ∀ e, e ∈ l ↔ e ∈ S)
    (hf : Folded principalId epoch S l v) (target sender : String) (row : UnresolvedEditRow) :
    v.held target sender = some row ↔ (∀ o ∈ S, o.IsOriginal → o.eventId ≠ target) ∧
      ∃ x ∈ S, NewestEdit S x target ∧ x.sender = sender ∧ row = heldRow principalId x target := by
  have hheld : (∀ o ∈ S, o.IsOriginal → o.eventId ≠ target) → ∀ x ∈ S, NewestEdit S x target →
      x.sender = sender → v.held target sender = some (heldRow principalId x target) :=
    fun hno x hx hnew hxs => hxs ▸ (hf.newest x ((hmem x).mpr hx) target hnew (hnored _)
      (hnored _)).2 fun o ho => hno o ((hmem o).mp ho)
  constructor
  · intro h
    obtain ⟨-, hno, e, he, het, hes, -⟩ := hf.held_some target sender row h
    have hno' : ∀ o ∈ S, o.IsOriginal → o.eventId ≠ target := fun o ho => hno o ((hmem o).mpr ho)
    obtain ⟨x, hx, hnew, hxs⟩ := exists_newestEdit ((hmem e).mp he) het
    refine ⟨hno', x, hx, hnew, hxs.trans hes, ?_⟩
    exact Option.some.inj (h.symm.trans (hheld hno' x hx hnew (hxs.trans hes)))
  · rintro ⟨hno, x, hx, hnew, hxs, rfl⟩
    exact hheld hno x hx hnew hxs

/-- Two orders of one set end in one view. -/
theorem Folded.view_eq {l' : List ProjectedEvent} {v' : View} (hS : EventSet roomId S)
    (hnored : ∀ id, ¬ Redacted S id) (hnewer : EditsOutdateOriginals S)
    (hmem : ∀ e, e ∈ l ↔ e ∈ S) (hf : Folded principalId epoch S l v)
    (hmem' : ∀ e, e ∈ l' ↔ e ∈ S) (hf' : Folded principalId epoch S l' v') : v = v' := by
  refine View.ext (funext fun id => Option.ext fun row => ?_)
    (funext fun t => funext fun s => Option.ext fun row => ?_) (Set.ext fun id => ?_)
  · rw [hf.visible_iff hS hnored hnewer hmem, hf'.visible_iff hS hnored hnewer hmem']
  · rw [hf.held_iff hnored hmem, hf'.held_iff hnored hmem']
  · exact ⟨fun h => absurd (hf.gone_sub (fun e => (hmem e).mp) id h) (hnored id),
      fun h => absurd (hf'.gone_sub (fun e => (hmem' e).mp) id h) (hnored id)⟩

end

/-! ## Runs over a whole set -/

section

variable {principalId roomId : String} {epoch : Int} {db : DB} {S : List ProjectedEvent}

theorem EventSet.nodup (hS : EventSet roomId S) : S.Nodup := hS.distinct.of_map

theorem EventSet.room_of_perm (hS : EventSet roomId S) {l : List (ProjectedEvent × Nat)}
    (hl : (l.map Prod.fst).Perm S) : ∀ e ∈ l, e.1.roomId = roomId := fun _ he =>
  hS.inRoom _ (hl.mem_iff.mp (List.mem_map_of_mem he))

/-- A run over a permutation of the set, from an empty projection. -/
theorem folded_of_perm (hS : EventSet roomId S) (hdb : EmptyProjection db)
    {l : List (ProjectedEvent × Nat)} (hl : (l.map Prod.fst).Perm S) : Folded principalId epoch S (l.map Prod.fst)
      (viewOf principalId roomId (projectAll principalId epoch l db)) := by
  rw [viewOf_projectAll (hS.room_of_perm hl) hdb.matrixDeliveryOutbox, hdb.viewOf]
  exact folded_foldAll hS l (fun _ => hl.mem_iff.mp) (hl.nodup_iff.mpr hS.nodup)

/-- Every visible row of such a run is one of the room's. -/
theorem visible_of_mem (hS : EventSet roomId S) (hdb : EmptyProjection db)
    {l : List (ProjectedEvent × Nat)} (hl : (l.map Prod.fst).Perm S) {row : VisibleMessageRow}
    (h : row ∈ (projectAll principalId epoch l db).visibleMessages) :
    (viewOf principalId roomId (projectAll principalId epoch l db)).visible row.logicalEventId =
      some row := by
  by_cases hkey : (row.principalId, row.roomId) = (principalId, roomId)
  · rw [Prod.mk.injEq] at hkey
    exact visibleAt_eq_some.mpr ⟨h, hkey.1, hkey.2, rfl⟩
  · have hrow : (viewOf row.principalId row.roomId (projectAll principalId epoch l db)).visible
        row.logicalEventId = some row := visibleAt_eq_some.mpr ⟨h, rfl, rfl, rfl⟩
    rw [viewOf_projectAll_other (hS.room_of_perm hl) hkey, hdb.viewOf] at hrow
    cases hrow

/-- Without redactions, and with no message whose own edits are all older than itself, the
order of a run does not show. -/
theorem converges_of_editsOutdateOriginals (hS : EventSet roomId S) (hdb : EmptyProjection db)
    (hnored : ∀ e ∈ S, e.redactsEventId = none) (hnewer : EditsOutdateOriginals S) :
    Converges principalId epoch db S := by
  have hnored' : ∀ id, ¬ Redacted S id := by
    rintro id ⟨d, hd, hr⟩
    rw [hnored d hd] at hr
    cases hr
  intro l₁ l₂ h₁ h₂
  have hf₁ : Folded principalId epoch S _ (viewOf principalId roomId _) := folded_of_perm hS hdb h₁
  have hf₂ : Folded principalId epoch S _ (viewOf principalId roomId _) := folded_of_perm hS hdb h₂
  constructor
  · refine sameRows_of_viewOf fun p r => ?_
    by_cases hkey : (p, r) = (principalId, roomId)
    · obtain ⟨rfl, rfl⟩ := Prod.mk.inj hkey
      exact hf₁.view_eq hS hnored' hnewer (fun _ => h₁.mem_iff) (fun _ => h₂.mem_iff) hf₂
    · rw [viewOf_projectAll_other (hS.room_of_perm h₁) hkey, viewOf_projectAll_other (hS.room_of_perm h₂) hkey]
  · intro row hrow
    obtain ⟨o, ho, hoo, -, hshown⟩ := (hf₁.visible_iff hS hnored' hnewer (fun _ => h₁.mem_iff) _
      row).mp (visible_of_mem hS hdb h₁ hrow)
    exact ⟨o, ho, hoo, hshown⟩

/-- One order of the set as a run, every event at the same receipt order. -/
def run (l : List ProjectedEvent) : List (ProjectedEvent × Nat) := l.map fun e => (e, 0)

@[simp] theorem run_fst (l : List ProjectedEvent) : (run l).map Prod.fst = l := by
  simp [run, Function.comp_def]

theorem run_append (l l' : List ProjectedEvent) : run (l ++ l') = run l ++ run l' :=
  List.map_append

theorem folded_run (hS : EventSet roomId S) {l : List ProjectedEvent} (hsub : ∀ e ∈ l, e ∈ S) (hnd : l.Nodup) :
    Folded principalId epoch S l (View.empty.foldAll principalId epoch (run l)) := by
  have hf : _ → _ → Folded principalId epoch S ((run l).map Prod.fst) _ := folded_foldAll hS (run l)
  rw [run_fst] at hf
  exact hf hsub hnd

/-- The newest edit of a message that arrives last is shown, whatever its timestamp. -/
theorem shows_newestEdit_of_last (hS : EventSet roomId S) (hdb : EmptyProjection db)
    (hnored : ∀ id, ¬ Redacted S id) {o x : ProjectedEvent} (ho : o ∈ S) (hoo : o.IsOriginal)
    (hx : x ∈ S) (hnew : NewestEdit S x o.eventId) (hs : x.sender = o.sender) : revisionRow principalId epoch o x ∈
      (projectAll principalId epoch (run (S.erase o ++ [o])) db).visibleMessages := by
  have hxo : x ≠ o := fun h => hnew.1.not_original (h ▸ hoo)
  have hmem : ∀ e, e ∈ S.erase o ↔ e ≠ o ∧ e ∈ S := fun e => hS.nodup.mem_erase_iff
  have hnext : Next roomId S (S.erase o) o :=
    ⟨hS, fun e he => ((hmem e).mp he).2, ho, fun h => ((hmem o).mp h).1 rfl⟩
  have hperm : ((run (S.erase o ++ [o])).map Prod.fst).Perm S := by
    rw [run_fst]
    exact (List.perm_append_singleton o _).trans (List.perm_cons_erase ho).symm
  have hf : Folded principalId epoch S (S.erase o)
      (View.empty.foldAll principalId epoch (run (S.erase o))) :=
    folded_run hS hnext.sub (hS.nodup.erase o)
  have hgone : o.eventId ∉ (View.empty.foldAll principalId epoch (run (S.erase o))).gone :=
    fun h => hnored _ (hf.gone_sub hnext.sub _ h)
  -- `x` is held when `o` arrives
  have hheld := (hf.newest x ((hmem x).mpr ⟨hxo, hx⟩) _ hnew (hnored _) (hnored _)).2
    fun o' ho' _ => hnext.ne_of_mem ho'
  rw [hs] at hheld
  obtain ⟨r, hr, -, -, hr', heq⟩ := foldOriginal_eq hf hnext hoo hgone 0
  obtain rfl : x = r := hS.eq_of_eventId hx (hnext.mem_set hr)
    (congrArg UnresolvedEditRow.editEventId (hr' _ hheld))
  have hview : viewOf principalId roomId (projectAll principalId epoch (run (S.erase o ++ [o])) db) =
      (View.empty.foldAll principalId epoch (run (S.erase o))).foldOriginal principalId o 0 epoch := by
    rw [viewOf_projectAll (hS.room_of_perm hperm) hdb.matrixDeliveryOutbox, hdb.viewOf, run_append, View.foldAll_append]
    exact View.foldAll_original hoo hgone 0
  have hrow : visibleAt (projectAll principalId epoch (run (S.erase o ++ [o])) db) principalId roomId
      o.eventId = some (revisionRow principalId epoch o x) := by
    change (viewOf principalId roomId _).visible o.eventId = _
    rw [hview, heq]
    exact update_self ..
  exact (visibleAt_eq_some.mp hrow).1

/-- Without redactions, every order of the set leaves the same rows, each showing the greatest
revision of its sender, exactly when no message has only edits older than itself. -/
theorem converges_iff (hS : EventSet roomId S) (hdb : EmptyProjection db) (hnored : ∀ e ∈ S, e.redactsEventId = none) :
    Converges principalId epoch db S ↔ EditsOutdateOriginals S := by
  refine ⟨fun hconv o ho hoo hedit => ?_, converges_of_editsOutdateOriginals hS hdb hnored⟩
  have hnored' : ∀ id, ¬ Redacted S id := by
    rintro id ⟨d, hd, hr⟩
    rw [hnored d hd] at hr
    cases hr
  obtain ⟨e, he, hown⟩ := hedit
  obtain ⟨x, hx, hnew, hxs⟩ := exists_newestEdit he hown.1
  have hs := hxs.trans hown.2
  -- fold `o` last: its row shows `x`, which convergence says is the greatest
  have hperm : ((run (S.erase o ++ [o])).map Prod.fst).Perm S := by
    rw [run_fst]
    exact (List.perm_append_singleton o _).trans (List.perm_cons_erase ho).symm
  obtain ⟨o', ho', -, r, hr, hrow⟩ := (hconv _ _ hperm hperm).2 _
    (shows_newestEdit_of_last hS hdb hnored' ho hoo hx hnew hs)
  obtain rfl := hS.eq_of_eventId ho' ho (congrArg VisibleMessageRow.logicalEventId hrow).symm
  obtain rfl := hS.eq_of_eventId hx hr.1 (congrArg VisibleMessageRow.revisionEventId hrow)
  refine ⟨x, hx, ⟨hnew.1, hs⟩, lt_of_le_of_ne (hr.2.2 o' ho' (.inl rfl)) fun h => ?_⟩
  obtain rfl := hS.eq_of_eventId ho' hx (eventId_eq_of_rank_eq h)
  exact hnew.1.not_original hoo

end

/-! ### A message and an older edit of it -/

namespace OlderEdit

/-- A message. -/
def original : ProjectedEvent where
  eventId := "$o"
  roomId := "!r"
  threadId := none
  sender := "@a"
  originServerTs := 10
  content := [("body", .str "answer")]
  replacesEventId := none
  redactsEventId := none
  transactionId := none

/-- An edit of it by its sender, at an origin timestamp that is up to that sender's server. -/
def edit (ts : Int) : ProjectedEvent where
  eventId := "$e"
  roomId := "!r"
  threadId := none
  sender := "@a"
  originServerTs := ts
  content :=
    [("m.relates_to", .obj [("rel_type", .str "m.replace"), ("event_id", .str "$o")]),
      ("m.new_content", .obj [("body", .str "edited")])]
  replacesEventId := some "$o"
  redactsEventId := none
  transactionId := none

theorem eventSet (ts : Int) : EventSet "!r" [original, edit ts] where
  inRoom e he := by
    rcases List.mem_pair.mp he with rfl | rfl <;> rfl
  distinct := by simp [original, edit]
  noSidecar e he := by
    rcases List.mem_pair.mp he with rfl | rfl <;> exact ⟨rfl, rfl⟩

theorem emptyProjection : EmptyProjection (DB.init fun _ => 0) := ⟨rfl, rfl, rfl, rfl⟩

/-- The edit is older than its message: folded after it, it is refused; folded before, it is
held and installed. -/
theorem not_converges : ¬ Converges "@p" 0 (DB.init fun _ => 0) [original, edit 5] := by
  intro h
  have hsame := (h (run [edit 5, original]) (run [original, edit 5])
    (by rw [run_fst]; exact List.Perm.swap ..) (by rw [run_fst])).1.1
    (revisionRow "@p" 0 original (edit 5))
  have hheld : revisionRow "@p" 0 original (edit 5) ∈
      (projectAll "@p" 0 (run [edit 5, original]) (DB.init fun _ => 0)).visibleMessages := by
    rw [Table.mem_def]
    decide +kernel
  have hrefused : revisionRow "@p" 0 original (edit 5) ∉
      (projectAll "@p" 0 (run [original, edit 5]) (DB.init fun _ => 0)).visibleMessages := by
    rw [Table.mem_def]
    decide +kernel
  exact hrefused (hsame.mp hheld)

/-- With a newer edit the two orders agree. -/
theorem converges_newer : Converges "@p" 0 (DB.init fun _ => 0) [original, edit 15] := by
  refine (converges_iff (eventSet 15) emptyProjection fun e he => ?_).mpr fun o ho _ _ => ?_
  · rcases List.mem_pair.mp he with rfl | rfl <;> rfl
  · refine ⟨edit 15, by simp, ?_⟩
    rcases List.mem_pair.mp ho with rfl | rfl
    · decide +kernel
    · next hoo _ => exact absurd hoo (by decide +kernel)

end OlderEdit

end MindRoom
