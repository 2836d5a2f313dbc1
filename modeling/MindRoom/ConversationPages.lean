import MindRoom.Keyset
import MindRoom.Schema

/-! # Pages of a conversation

`read_conversation` of `event_journal/reads.py`: one bounded page, newest rows first, with a cursor
for what is older. A thread's root carries no thread relation of its own, so it is one row more than
the rows stored under the thread.
-/

namespace MindRoom

open Keyset (Newer Descending newest merged older)

/-! ## Reading one page -/

/-- A stable position in one conversation's chronological order. -/
structure ConversationCursor where
  createdTs : Int
  logicalEventId : String
deriving DecidableEq

def ConversationCursor.position (c : ConversationCursor) : Int ×ₗ String := toLex (c.createdTs, c.logicalEventId)

/-- The latest visible revision of one logical conversation message. -/
structure VisibleMessage where
  logicalEventId : String
  roomId : String
  threadId : Option ThreadId
  sender : String
  createdTs : Int
  revisionEventId : String
  revisionTs : Int
  content : Dict
deriving DecidableEq

structure ConversationPage where
  messages : List VisibleMessage
  refreshPending : List RefreshRequest
  nextCursor : Option ConversationCursor

def VisibleMessageRow.cursor (row : VisibleMessageRow) : ConversationCursor :=
  ⟨row.createdTs, row.logicalEventId⟩

def VisibleMessageRow.position (row : VisibleMessageRow) : Int ×ₗ String := row.cursor.position

/-- `_visible_message`, of a row whose body is not withheld. -/
def visibleMessage (row : VisibleMessageRow) : Option VisibleMessage :=
  row.contentJson.map fun content =>
    { logicalEventId := row.logicalEventId
      roomId := row.roomId
      threadId := decodeThreadId row.threadId
      sender := row.sender
      createdTs := row.createdTs
      revisionEventId := row.revisionEventId
      revisionTs := row.revisionTs
      content := content }

def requestOf (row : VisibleMessageRow) : Option RefreshRequest :=
  row.refreshToken.map fun refreshToken =>
    { roomId := row.roomId
      threadId := decodeThreadId row.threadId
      logicalEventId := row.logicalEventId
      revisionEventId := row.revisionEventId
      refreshToken := refreshToken
      membershipEpoch := row.membershipEpoch }

/-- `_refresh_request`. The token of a row is read by `int`, which takes no `None`. -/
def refreshRequest (row : VisibleMessageRow) : Except StoreError RefreshRequest :=
  match requestOf row with
  | some request => pure request
  | none => throw (.typeError
      "int() argument must be a string, a bytes-like object or a real number, not 'NoneType'")

/-- The cursor clause: everything older than one page's last row. -/
def VisibleMessageRow.OlderThan (before : Option ConversationCursor) (row : VisibleMessageRow) : Prop :=
  ∀ c ∈ before, row.cursor.position < c.position

instance (before : Option ConversationCursor) (row : VisibleMessageRow) : Decidable (row.OlderThan before) :=
  inferInstanceAs (Decidable (∀ c ∈ before, _))

/-- `_page_rows`: one page's rows, newest first. -/
def pageRows (visible : Table VisibleMessageRow) (principalId roomId : String) (threadId : Option ThreadId)
    (limit : Nat) (before : Option ConversationCursor) : List VisibleMessageRow :=
  let rows := (newest (·.position) (visible.select fun row => row.principalId = principalId ∧
    row.roomId = roomId ∧ row.threadId = encodeThreadId threadId ∧ row.OlderThan before)).take limit
  match threadId with
  | none => rows
  | some threadId =>
    match visible.find? fun row => key row = (principalId, roomId, threadId.val) ∧ row.OlderThan before with
    | none => rows
    | some root =>
      if ∀ row ∈ rows, row.logicalEventId ≠ threadId.val then
        (newest (·.position) (rows ++ [root])).take limit
      else rows

/-- One bounded page of a conversation, oldest first. -/
def readConversation (visible : Table VisibleMessageRow) (principalId roomId : String)
    (threadId : Option ThreadId) (limit : Int) (before : Option ConversationCursor) :
    Except StoreError ConversationPage :=
  if limit ≤ 0 then throw (.valueError "A conversation read requires a positive limit")
  else do
    let rows := pageRows visible principalId roomId threadId limit.toNat before
    let refreshPending ← (rows.filter (·.contentJson = none)).mapM refreshRequest
    return {
      messages := (rows.filterMap visibleMessage).reverse
      refreshPending := refreshPending
      nextCursor := Keyset.next (·.cursor) limit.toNat rows }

/-- The pages of a conversation, newest first: `next_cursor` is followed until there is none. The
fuel is enough for one page a row, and one more. -/
def readPages (visible : Table VisibleMessageRow) (principalId roomId : String) (threadId : Option ThreadId)
    (limit : Int) : Except StoreError (Option (List ConversationPage)) :=
  Keyset.follow (readConversation visible principalId roomId threadId limit) (·.nextCursor)
    (visible.rows.length + 1) none

/-! ## The rows of a conversation -/

/-- A row of the thread, or its root. -/
def VisibleMessageRow.InConversation (principalId roomId : String) (threadId : Option ThreadId)
    (row : VisibleMessageRow) : Prop :=
  row.principalId = principalId ∧ row.roomId = roomId ∧
    (row.threadId = encodeThreadId threadId ∨ ∃ root ∈ threadId, row.logicalEventId = root.val)

def conversationRows (visible : Table VisibleMessageRow) (principalId roomId : String)
    (threadId : Option ThreadId) : List VisibleMessageRow :=
  let rows := newest (·.position) (visible.select fun row => row.principalId = principalId ∧
    row.roomId = roomId ∧ row.threadId = encodeThreadId threadId)
  match threadId.bind fun root => visible.get? (principalId, roomId, root.val) with
  | none => rows
  | some root => merged (·.position) root rows

section

variable {visible : Table VisibleMessageRow} {p r : String} {t : Option ThreadId}
  {before : Option ConversationCursor} {limit : Nat} {row row' : VisibleMessageRow}

/-- The position of a row names its event. -/
theorem logicalEventId_of_position (h : row.position = row'.position) : row.logicalEventId = row'.logicalEventId := by
  have hpair : (row.createdTs, row.logicalEventId) = (row'.createdTs, row'.logicalEventId) := toLex.injective h
  exact congrArg Prod.snd hpair

/-- Two rows of one room at one position are one row. -/
theorem eq_of_position (hrow : row ∈ visible) (hrow' : row' ∈ visible) (hp : row.principalId = row'.principalId)
    (hr : row.roomId = row'.roomId) (h : row.position = row'.position) : row = row' := by
  apply Table.eq_of_key_eq hrow hrow'
  exact Prod.ext hp (Prod.ext hr (logicalEventId_of_position h))

theorem descending_select {q : VisibleMessageRow → Prop} [DecidablePred q]
    (hq : ∀ row, q row → row.principalId = p ∧ row.roomId = r) :
    Descending VisibleMessageRow.position (newest (·.position) (visible.select q)) := by
  apply Keyset.descending_newest
  apply List.Nodup.map_on
  · intro a ha b hb heq
    rw [Table.mem_select] at ha hb
    have ha' := hq a ha.2
    have hb' := hq b hb.2
    exact eq_of_position ha.1 hb.1 (ha'.1.trans hb'.1.symm) (ha'.2.trans hb'.2.symm) heq
  · exact (List.Nodup.of_map _ visible.primaryKey).filter _

/-- The root of a thread, and a row of its room at the same position. -/
theorem eq_root {root : VisibleMessageRow} {id : String} (hroot : visible.get? (p, r, id) = some root)
    {q : VisibleMessageRow → Prop} [DecidablePred q] (hq : ∀ row, q row → row.principalId = p ∧ row.roomId = r) :
    ∀ row ∈ newest (·.position) (visible.select q), row.position = root.position → row = root := by
  intro row hrow heq
  rw [Keyset.mem_newest, Table.mem_select] at hrow
  rcases Table.get?_eq_some.mp hroot with ⟨hmem, hkey⟩
  rcases hq row hrow.2 with ⟨hp, hr⟩
  exact eq_of_position hrow.1 hmem (hp.trans (congrArg Prod.fst hkey).symm)
    (hr.trans (congrArg (·.2.1) hkey).symm) heq

theorem descending_conversationRows : Descending VisibleMessageRow.position (conversationRows visible p r t) := by
  unfold conversationRows
  dsimp only
  split
  · exact descending_select fun row h => ⟨h.1, h.2.1⟩
  · next root hroot =>
    rcases Option.bind_eq_some_iff.mp hroot with ⟨id, -, hget⟩
    exact Keyset.descending_merged (descending_select fun row h => ⟨h.1, h.2.1⟩)
      (eq_root hget fun row h => ⟨h.1, h.2.1⟩)

theorem mem_conversationRows : row ∈ conversationRows visible p r t ↔ row ∈ visible ∧ row.InConversation p r t := by
  have hrows : row ∈ newest (·.position) (visible.select fun row => row.principalId = p ∧ row.roomId = r ∧
      row.threadId = encodeThreadId t) ↔ row ∈ visible ∧ row.principalId = p ∧ row.roomId = r ∧
        row.threadId = encodeThreadId t := by
    rw [Keyset.mem_newest, Table.mem_select]
  have hid : ∀ id root, visible.get? (p, r, id) = some root →
      (row = root ↔ row ∈ visible ∧ row.principalId = p ∧ row.roomId = r ∧ row.logicalEventId = id) := by
    intro id root hget
    rcases Table.get?_eq_some.mp hget with ⟨hmem, hkey⟩
    constructor
    · rintro rfl
      exact ⟨hmem, congrArg Prod.fst hkey, congrArg (·.2.1) hkey, congrArg (·.2.2) hkey⟩
    · rintro ⟨hrow, rfl, rfl, rfl⟩
      exact Table.eq_of_key_eq hrow hmem hkey.symm
  unfold conversationRows VisibleMessageRow.InConversation
  dsimp only
  split
  · next hroot =>
    rw [hrows]
    constructor
    · rintro ⟨hmem, hp, hr, ht⟩
      exact ⟨hmem, hp, hr, .inl ht⟩
    · rintro ⟨hmem, hp, hr, ht | ⟨id, hid', hlogical⟩⟩
      · exact ⟨hmem, hp, hr, ht⟩
      · -- the root would have been found
        have hnone := Option.bind_eq_none_iff.mp hroot id hid'
        rw [Table.get?_eq_none] at hnone
        exact absurd (Prod.ext hp (Prod.ext hr hlogical)) (hnone row hmem)
  · next root hroot =>
    rcases Option.bind_eq_some_iff.mp hroot with ⟨id, rfl, hget⟩
    rw [Keyset.mem_merged, hrows, hid id.val root hget]
    simp only [Option.mem_some_iff, exists_eq_left']
    tauto

/-! ## A page read is a page of the conversation -/

variable {rows : List VisibleMessageRow} {root : VisibleMessageRow}

def olderRows (before : Option ConversationCursor) (rows : List VisibleMessageRow) : List VisibleMessageRow :=
  older ConversationCursor.position VisibleMessageRow.cursor before rows

theorem mem_olderRows : row ∈ olderRows before rows ↔ row ∈ rows ∧ row.OlderThan before := Keyset.mem_older

theorem descending_olderRows (h : Descending VisibleMessageRow.position rows) :
    Descending VisibleMessageRow.position (olderRows before rows) :=
  h.sublist List.filter_sublist

theorem newest_select_older {q : VisibleMessageRow → Prop} [DecidablePred q]
    (hq : ∀ row, q row → row.principalId = p ∧ row.roomId = r) :
    newest VisibleMessageRow.position (visible.select fun row => q row ∧ row.OlderThan before) =
      olderRows before (newest VisibleMessageRow.position (visible.select q)) := by
  apply (descending_select fun row h => hq row h.1).eq_of_mem (descending_olderRows (descending_select hq))
  intro row
  rw [Keyset.mem_newest, Table.mem_select, mem_olderRows, Keyset.mem_newest, Table.mem_select, and_assoc]

/-- A root that is too new for the page changes nothing of it. -/
theorem olderRows_merged (hdesc : Descending VisibleMessageRow.position rows)
    (hroot : ∀ row ∈ rows, row.position = root.position → row = root) :
    olderRows before (merged VisibleMessageRow.position root rows) =
      if root.OlderThan before then merged VisibleMessageRow.position root (olderRows before rows)
      else olderRows before rows := by
  have hmerged : Descending VisibleMessageRow.position
      (olderRows before (merged VisibleMessageRow.position root rows)) :=
    descending_olderRows (Keyset.descending_merged hdesc hroot)
  split
  · next hold =>
    apply hmerged.eq_of_mem (Keyset.descending_merged (descending_olderRows hdesc)
      fun row h => hroot row (mem_olderRows.mp h).1)
    intro row
    rw [mem_olderRows, Keyset.mem_merged, Keyset.mem_merged, mem_olderRows]
    constructor
    · rintro ⟨rfl | hrow, h⟩
      · exact .inl rfl
      · exact .inr ⟨hrow, h⟩
    · rintro (rfl | ⟨hrow, h⟩)
      · exact ⟨.inl rfl, hold⟩
      · exact ⟨.inr hrow, h⟩
  · next hnew =>
    apply hmerged.eq_of_mem (descending_olderRows hdesc)
    intro row
    rw [mem_olderRows, Keyset.mem_merged, mem_olderRows]
    constructor
    · rintro ⟨rfl | hrow, h⟩
      · exact absurd h hnew
      · exact ⟨hrow, h⟩
    · rintro ⟨hrow, h⟩
      exact ⟨.inr hrow, h⟩

/-- Sorting one row more into sorted rows inserts it. -/
theorem newest_append_root (hdesc : Descending VisibleMessageRow.position rows)
    (hroot : ∀ row ∈ rows, row.position = root.position → row = root) (hnew : root ∉ rows) :
    newest VisibleMessageRow.position (rows ++ [root]) =
      rows.orderedInsert (Newer VisibleMessageRow.position) root := by
  have hmerged := Keyset.descending_merged hdesc hroot
  rw [merged, if_neg hnew] at hmerged
  have hnodup : ((rows ++ [root]).map VisibleMessageRow.position).Nodup := by
    have hperm : (rows ++ [root]).Perm (root :: rows) := List.perm_append_singleton root rows
    rw [(hperm.map _).nodup_iff, List.map_cons, List.nodup_cons, List.mem_map]
    refine ⟨?_, hdesc.map_nodup⟩
    rintro ⟨row, hrow, heq⟩
    exact hnew (hroot row hrow heq ▸ hrow)
  apply (Keyset.descending_newest hnodup).eq_of_mem hmerged
  intro row
  rw [Keyset.mem_newest, List.mem_append, List.mem_singleton, or_comm,
    (List.perm_orderedInsert (Newer VisibleMessageRow.position) root rows).mem_iff, List.mem_cons]

/-- The look-up of the root with the cursor clause. -/
theorem find?_root {k : String × String × String} : (visible.find? fun row => key row = k ∧ row.OlderThan before) =
      (visible.get? k).filter fun row => row.OlderThan before := by
  cases hget : visible.get? k with
  | none =>
    rw [Table.get?_eq_none] at hget
    rw [Option.filter_none, Table.find?_eq_none]
    exact fun row hrow h => hget row hrow h.1
  | some root =>
    rcases Table.get?_eq_some.mp hget with ⟨hmem, rfl⟩
    by_cases hold : root.OlderThan before
    · rw [Option.filter_some, if_pos (decide_eq_true hold), Table.find?_eq_some_of_key (fun row h => h.1) ⟨rfl, hold⟩]
      exact hmem
    · rw [Option.filter_some, if_neg (by simpa using hold), Table.find?_eq_none]
      rintro row hrow ⟨hkey, h⟩
      exact hold (Table.eq_of_key_eq hrow hmem hkey ▸ h)

/-- A page that lacks the root takes it up, and drops its oldest row if it is full. -/
theorem take_merged_root {id : String} (hdesc : Descending VisibleMessageRow.position rows)
    (hrows : ∀ row ∈ rows, row ∈ visible ∧ row.principalId = p ∧ row.roomId = r)
    (hget : visible.get? (p, r, id) = some root) : (if ∀ row ∈ rows.take limit, row.logicalEventId ≠ id then
      (newest VisibleMessageRow.position (rows.take limit ++ [root])).take limit else rows.take limit) =
      (merged VisibleMessageRow.position root rows).take limit := by
  rcases Table.get?_eq_some.mp hget with ⟨hroot, hkey⟩
  obtain ⟨rfl, rfl, rfl⟩ : root.principalId = p ∧ root.roomId = r ∧ root.logicalEventId = id :=
    ⟨congrArg Prod.fst hkey, congrArg (·.2.1) hkey, congrArg (·.2.2) hkey⟩
  have heq : ∀ row ∈ rows, row.logicalEventId = root.logicalEventId → row = root := by
    intro row hrow hid
    rcases hrows row hrow with ⟨hmem, hp, hr⟩
    exact Table.eq_of_key_eq hmem hroot (Prod.ext hp (Prod.ext hr hid))
  have hposition : ∀ row ∈ rows, row.position = root.position → row = root :=
    fun row hrow h => heq row hrow (logicalEventId_of_position h)
  rw [Keyset.take_merged hdesc hposition]
  by_cases hin : root ∈ rows.take limit
  · rw [if_pos hin, if_neg fun h => h root hin rfl]
  · have hlacks : ∀ row ∈ rows.take limit, row.logicalEventId ≠ root.logicalEventId := by
      intro row hrow hid
      exact hin (heq row (List.mem_of_mem_take hrow) hid ▸ hrow)
    rw [if_neg hin, if_pos hlacks, newest_append_root (hdesc.sublist (List.take_sublist _ _))
      (fun row h => hposition row (List.mem_of_mem_take h)) hin]

theorem pageRows_eq : pageRows visible p r t limit before =
    Keyset.page ConversationCursor.position VisibleMessageRow.cursor limit before (conversationRows visible p r t) := by
  have hq : ∀ row : VisibleMessageRow, row.principalId = p ∧ row.roomId = r ∧ row.threadId = encodeThreadId t →
      row.principalId = p ∧ row.roomId = r := fun row h => ⟨h.1, h.2.1⟩
  have hdesc : Descending VisibleMessageRow.position (newest (·.position) (visible.select _)) :=
    descending_select hq
  have hselect : ∀ row ∈ newest VisibleMessageRow.position (visible.select fun row =>
      row.principalId = p ∧ row.roomId = r ∧ row.threadId = encodeThreadId t),
      row ∈ visible ∧ row.principalId = p ∧ row.roomId = r := by
    intro row hrow
    rw [Keyset.mem_newest, Table.mem_select] at hrow
    exact ⟨hrow.1, hq row hrow.2⟩
  have hrows : newest VisibleMessageRow.position (visible.select fun row => _ ∧ row.OlderThan before) = _ :=
    newest_select_older hq
  simp only [and_assoc] at hrows
  change _ = (olderRows before (conversationRows visible p r t)).take limit
  unfold pageRows conversationRows
  dsimp only
  rw [hrows]
  cases t with
  | none => rfl
  | some id =>
    dsimp only [Option.bind_some]
    rw [find?_root]
    cases hget : visible.get? (p, r, id.val) with
    | none => rfl
    | some root =>
      dsimp only
      rw [olderRows_merged hdesc (eq_root hget hq), Option.filter_some]
      by_cases hold : root.OlderThan before
      · rw [if_pos (decide_eq_true hold), if_pos hold]
        exact take_merged_root (descending_olderRows hdesc)
          (fun row h => hselect row (mem_olderRows.mp h).1) hget
      · rw [if_neg (by simpa using hold), if_neg hold]

def pageOf (limit : Nat) (rows : List VisibleMessageRow) : ConversationPage where
  messages := (rows.filterMap visibleMessage).reverse
  refreshPending := (rows.filter (·.contentJson = none)).filterMap requestOf
  nextCursor := Keyset.next VisibleMessageRow.cursor limit rows

theorem mapM_refreshRequest (h : ∀ row ∈ rows, row.refreshToken ≠ none) :
    rows.mapM refreshRequest = .ok (rows.filterMap requestOf) := by
  induction rows with
  | nil => rfl
  | cons row rows ih =>
    have hrow := h row List.mem_cons_self
    cases htoken : row.refreshToken with
    | none => exact absurd htoken hrow
    | some n =>
      have hrequest : requestOf row = some ⟨row.roomId, decodeThreadId row.threadId, row.logicalEventId,
          row.revisionEventId, n, row.membershipEpoch⟩ := by
        unfold requestOf
        rw [htoken]
        rfl
      rw [List.mapM_cons, ih fun row hmem => h row (List.mem_cons_of_mem _ hmem), List.filterMap_cons_some hrequest]
      unfold refreshRequest
      rw [hrequest]
      rfl

/-- One read is one page, when every withheld row can be asked for. -/
theorem readConversation_eq {limit : Int} (hlimit : 1 ≤ limit)
    (hstored : ∀ row ∈ visible, row.contentJson = none → row.refreshToken ≠ none) :
    readConversation visible p r t limit before = .ok (pageOf limit.toNat
      (Keyset.page ConversationCursor.position VisibleMessageRow.cursor limit.toNat before
        (conversationRows visible p r t))) := by
  unfold readConversation
  rw [if_neg (by omega), pageRows_eq]
  have htokens : ∀ row ∈ (Keyset.page ConversationCursor.position VisibleMessageRow.cursor limit.toNat before
      (conversationRows visible p r t)).filter (·.contentJson = none), row.refreshToken ≠ none := by
    intro row hrow
    rw [List.mem_filter, decide_eq_true_eq] at hrow
    have hold : row ∈ olderRows before (conversationRows visible p r t) := List.mem_of_mem_take hrow.1
    exact hstored row (mem_conversationRows.mp (mem_olderRows.mp hold).1).1 hrow.2
  dsimp only
  rw [mapM_refreshRequest htokens]
  rfl

theorem length_conversationRows : (conversationRows visible p r t).length ≤ visible.rows.length := by
  apply List.Nodup.length_le_of_subset descending_conversationRows.nodup
  intro row hrow
  exact (mem_conversationRows.mp hrow).1

end

/-- Following `next_cursor` from the newest page on ends, and reads every row of the conversation
once: the rows of the pages, newest page last, stand in the order of their positions. -/
theorem read_conversation_complete (visible : Table VisibleMessageRow) (p r : String) (t : Option ThreadId)
    (limit : Int) (hlimit : 1 ≤ limit) (hstored : ∀ row ∈ visible, row.contentJson = none → row.refreshToken ≠ none) :
    ∃ (chunks : List (List VisibleMessageRow)) (pages : List ConversationPage) (rows : List VisibleMessageRow),
      readPages visible p r t limit = .ok (some pages) ∧ pages = chunks.map (pageOf limit.toNat) ∧
      rows = chunks.reverse.flatMap List.reverse ∧ rows.Pairwise (fun a b => a.position < b.position) ∧
      (∀ row, row ∈ rows ↔ row ∈ visible ∧ row.InConversation p r t) ∧
      pages.reverse.flatMap (·.messages) = rows.filterMap visibleMessage ∧
      pages.reverse.flatMap (·.refreshPending.reverse) = (rows.filter (·.contentJson = none)).filterMap requestOf := by
  have hfuel : (older ConversationCursor.position VisibleMessageRow.cursor none
      (conversationRows visible p r t)).length < visible.rows.length + 1 := by
    rw [Keyset.older_none]
    have hlength : (conversationRows visible p r t).length ≤ visible.rows.length := length_conversationRows
    omega
  have hdesc : Descending (fun row : VisibleMessageRow => row.cursor.position) (conversationRows visible p r t) :=
    descending_conversationRows
  have hnext : ∀ rows, (pageOf limit.toNat rows).nextCursor = Keyset.next VisibleMessageRow.cursor limit.toNat rows :=
    fun rows => rfl
  rcases Keyset.follow_pages hdesc (by omega) (fun before => readConversation_eq hlimit hstored) hnext hfuel with
    ⟨chunks, hread, hflatten⟩
  rw [Keyset.older_none] at hflatten
  have hrows : chunks.reverse.flatMap List.reverse = (conversationRows visible p r t).reverse := by
    rw [← hflatten, List.reverse_flatten, List.flatMap_def, List.map_reverse]
  refine ⟨chunks, _, _, hread, rfl, rfl, ?_, ?_, ?_, ?_⟩
  · rw [hrows, List.pairwise_reverse]
    exact descending_conversationRows
  · intro row
    rw [hrows, List.mem_reverse]
    exact mem_conversationRows
  · rw [← List.map_reverse, List.flatMap_map, List.filterMap_flatMap]
    simp only [pageOf, List.filterMap_reverse]
  · rw [← List.map_reverse, List.flatMap_map, List.filter_flatMap, List.filterMap_flatMap]
    simp only [pageOf, List.filter_reverse, List.filterMap_reverse]

namespace RedactedReply

def root : VisibleMessageRow := ⟨"@p", "!r", "$root", "", "@a", 5, "$root", 5, some [], none, 0⟩

/-- A reply of the same time whose body is withheld. -/
def reply : VisibleMessageRow := ⟨"@p", "!r", "$reply", "$root", "@b", 5, "$reply", 5, none, some 7, 0⟩

def visible : Table VisibleMessageRow := (Table.insertOrIgnore ∅ root).insertOrIgnore reply

/-- Pages of one row read the root and ask for the reply. -/
theorem read_two_pages : ∃ (chunks : List (List VisibleMessageRow)) (pages : List ConversationPage)
    (rows : List VisibleMessageRow), readPages visible "@p" "!r" (some ⟨"$root", by decide⟩) 1 = .ok (some pages) ∧
      pages = chunks.map (pageOf 1) ∧ root ∈ rows ∧ reply ∈ rows := by
  have hroot : root ∈ visible.rows := by decide
  have hreply : reply ∈ visible.rows := by decide
  rcases read_conversation_complete visible "@p" "!r" (some ⟨"$root", by decide⟩) 1 (by decide) (by decide) with
    ⟨chunks, pages, rows, hread, hpages, -, -, hmem, -, -⟩
  refine ⟨chunks, pages, rows, hread, hpages, (hmem root).mpr ?_, (hmem reply).mpr ?_⟩
  · exact ⟨hroot, rfl, rfl, .inr ⟨_, rfl, rfl⟩⟩
  · exact ⟨hreply, rfl, rfl, .inl rfl⟩

end RedactedReply

end MindRoom
