import MindRoom.PendingPages
import MindRoom.WhileLoop

/-! # Finding the rooms that have work

`PendingEventWorker._discover_rooms`: the backlog is scanned page by page from where the last scan
stopped to its end, and then from its start to where the scan began. A room is found by any of its
events that no turn has deferred. A scan that is not asked for the whole backlog stops after a fixed
number of pages and says that there is more.
-/

namespace MindRoom.RoomDiscovery

open PendingPages

def batchSize : Nat := 128

def maxScanPages : Nat := 16

/-- What one scan returns, and the `_scan_cursor` it leaves. -/
structure Discovery where
  rooms : Finset String
  more : Bool
  scanCursor : Option Int

/-- The locals of the loop. -/
structure Scan where
  rooms : Finset String
  cursor : Option Int
  wrapped : Bool
  pages : Nat

/-- The events of one page, up to the first one behind the origin of a scan that has wrapped. -/
def visit (deferred : List String) (wrapped : Bool) (origin : Option Int) :
    List JournalEvent → Finset String → Finset String × Bool
  | [], rooms => (rooms, false)
  | event :: page, rooms =>
    if wrapped ∧ ∃ o ∈ origin, o < event.receiptOrder then (rooms, true)
    else visit deferred wrapped origin page
      (if event.eventId ∈ deferred then rooms else insert event.roomId rooms)

/-- One round of the loop. `read` is `store.pending` behind a cursor. -/
def scanPage (read : Option Int → PendingPage) (deferred : List String) (scanCursor : Option Int)
    (wholeBacklog : Bool) (origin : Option Int) (s : Scan) : Option (WhileLoop.Round Scan Discovery) :=
  if wholeBacklog ∨ s.pages < maxScanPages then
    let page := read s.cursor
    let visited := visit deferred s.wrapped origin page.events s.rooms
    if visited.2 ∨ (page.reachedEnd ∧ s.wrapped) then
      some (.leave ⟨visited.1, false, if wholeBacklog then scanCursor else none⟩)
    else if page.reachedEnd then some (.again ⟨visited.1, none, true, s.pages + 1⟩)
    else some (.again ⟨visited.1, page.resumeAfter, s.wrapped, s.pages + 1⟩)
  else some (.leave ⟨s.rooms, true, s.cursor⟩)

def discoverRooms (read : Option Int → PendingPage) (deferred : List String) (scanCursor : Option Int)
    (wholeBacklog : Bool) (fuel : Nat) : Option Discovery :=
  let origin := if wholeBacklog then none else scanCursor
  WhileLoop.run (scanPage read deferred scanCursor wholeBacklog origin) fuel
    ⟨∅, origin, origin.isNone, 0⟩

/-- `store.pending`, as the scan calls it. -/
def readPage (loads : String → Option Json) (b : Backlog) (principalId runtimeGeneration : String)
    (afterReceiptOrder : Option Int) : PendingPage :=
  pendingPage loads b principalId batchSize afterReceiptOrder none none runtimeGeneration

/-! ## One page -/

section

variable {deferred : List String} {wrapped : Bool} {origin : Option Int} {page : List JournalEvent}
  {rooms : Finset String} {room : String} {event : JournalEvent}

theorem mem_visit_of_mem (h : room ∈ rooms) : room ∈ (visit deferred wrapped origin page rooms).1 := by
  induction page generalizing rooms with
  | nil => exact h
  | cons event page ih =>
    unfold visit
    split
    · exact h
    · apply ih
      split
      · exact h
      · exact Finset.mem_insert_of_mem h

/-- A visit finds the room of each event that the scan has not been past before. -/
theorem mem_visit (hsorted : page.Pairwise fun a b => a.receiptOrder < b.receiptOrder) (h : event ∈ page)
    (hlive : event.eventId ∉ deferred) (hnew : wrapped → ∀ o ∈ origin, event.receiptOrder ≤ o) :
    event.roomId ∈ (visit deferred wrapped origin page rooms).1 := by
  induction page generalizing rooms with
  | nil => cases h
  | cons head page ih =>
    rcases List.pairwise_cons.mp hsorted with ⟨hhead, hrest⟩
    -- the break is behind every event that the scan has not been past
    have hle : head.receiptOrder ≤ event.receiptOrder := by
      rcases List.mem_cons.mp h with rfl | h
      · exact le_rfl
      · exact (hhead event h).le
    have hgo : ¬ (wrapped ∧ ∃ o ∈ origin, o < head.receiptOrder) := by
      rintro ⟨hwrapped, o, ho, hlt⟩
      have hbound := hnew hwrapped o ho
      omega
    unfold visit
    rw [if_neg hgo]
    rcases List.mem_cons.mp h with rfl | h
    · rw [if_neg hlive]
      exact mem_visit_of_mem (Finset.mem_insert_self _ _)
    · exact ih hrest h

/-- The break is at an event behind the origin. -/
theorem exists_of_visit (h : (visit deferred wrapped origin page rooms).2 = true) :
    wrapped = true ∧ ∃ o ∈ origin, ∃ event ∈ page, o < event.receiptOrder := by
  induction page generalizing rooms with
  | nil => cases h
  | cons head page ih =>
    unfold visit at h
    split at h
    · next hbreak =>
      rcases hbreak with ⟨hwrapped, o, ho, hlt⟩
      exact ⟨hwrapped, o, ho, head, List.mem_cons_self, hlt⟩
    · rcases ih h with ⟨hwrapped, o, ho, event, hevent, hlt⟩
      exact ⟨hwrapped, o, ho, event, List.mem_cons_of_mem _ hevent, hlt⟩

end

/-! ## The whole scan -/

section

variable {loads : String → Option Json} {b : Backlog} {principalId runtimeGeneration : String}
  {deferred : List String} {scanCursor origin : Option Int} {wholeBacklog : Bool} {s : Scan}
  {row : StoredEvent}

def rowsOf (b : Backlog) (principalId runtimeGeneration : String) : List StoredEvent :=
  backlogRows b principalId none none runtimeGeneration

/-- What the cursor has not read. -/
def unread (b : Backlog) (principalId runtimeGeneration : String) (cursor : Option Int) : List StoredEvent :=
  Keyset.older order (fun row => row.receiptOrder) cursor (rowsOf b principalId runtimeGeneration)

/-- The room of a row is found, unless the row cannot be read or its event is deferred. -/
def Found (loads : String → Option Json) (deferred : List String) (rooms : Finset String) (row : StoredEvent) :
    Prop :=
  ∀ event, journalEvent loads row = some event → event.eventId ∉ deferred → event.roomId ∈ rooms

/-- Whatever the cursor has passed is found. Before the wrap the rows up to the origin are left for
after it, and after the wrap the rows behind the origin are found already. -/
structure Scanned (loads : String → Option Json) (b : Backlog) (principalId runtimeGeneration : String)
    (deferred : List String) (origin : Option Int) (s : Scan) : Prop where
  passed : ∀ row ∈ rowsOf b principalId runtimeGeneration,
    row ∈ unread b principalId runtimeGeneration s.cursor ∨ Found loads deferred s.rooms row ∨
      (s.wrapped = false ∧ ∃ o ∈ origin, row.receiptOrder ≤ o)
  behind : s.wrapped = true → ∀ row ∈ rowsOf b principalId runtimeGeneration, ∀ o ∈ origin,
    o < row.receiptOrder → Found loads deferred s.rooms row

theorem Found.mono {rooms rooms' : Finset String} (h : Found loads deferred rooms row)
    (hsub : ∀ room ∈ rooms, room ∈ rooms') : Found loads deferred rooms' row := fun event hevent hlive =>
  hsub _ (h event hevent hlive)

theorem descending_unread (cursor : Option Int) : Keyset.Descending (fun row => order row.receiptOrder)
    (unread b principalId runtimeGeneration cursor) :=
  descending_backlogRows.older

theorem readPage_events (cursor : Option Int) : (readPage loads b principalId runtimeGeneration cursor).events =
      decodeRows loads ((unread b principalId runtimeGeneration cursor).take batchSize) := by
  unfold readPage pendingPage
  rw [pendingRows_eq_page]
  rfl

theorem readPage_reachedEnd (cursor : Option Int) :
    (readPage loads b principalId runtimeGeneration cursor).reachedEnd = true ↔
      (unread b principalId runtimeGeneration cursor).length < batchSize := by
  unfold readPage pendingPage
  rw [pendingRows_eq_page]
  unfold Keyset.page
  simp only [decide_eq_true_eq, List.length_take]
  change min batchSize (unread b principalId runtimeGeneration cursor).length < batchSize ↔ _
  omega

/-- Behind a full page lies what the page has left over. -/
theorem unread_resumeAfter {cursor : Option Int}
    (h : (readPage loads b principalId runtimeGeneration cursor).reachedEnd ≠ true) :
    unread b principalId runtimeGeneration (readPage loads b principalId runtimeGeneration cursor).resumeAfter =
      (unread b principalId runtimeGeneration cursor).drop batchSize := by
  rw [Ne, readPage_reachedEnd, not_lt] at h
  have hne : (unread b principalId runtimeGeneration cursor).take batchSize ≠ [] := by
    intro hnil
    have hlength := congrArg List.length hnil
    rw [List.length_take, List.length_nil] at hlength
    have hpos : 0 < batchSize := by decide
    omega
  have hlast := List.getLast?_eq_getLast_of_ne_nil hne
  have hresume : (readPage loads b principalId runtimeGeneration cursor).resumeAfter =
      some (((unread b principalId runtimeGeneration cursor).take batchSize).getLast hne).receiptOrder := by
    unfold readPage pendingPage
    rw [pendingRows_eq_page]
    change (((unread b principalId runtimeGeneration cursor).take batchSize).getLast?).elim cursor _ = _
    rw [hlast]
    rfl
  rw [hresume]
  exact Keyset.older_last descending_backlogRows hlast

theorem sorted_readPage (cursor : Option Int) :
    ((readPage loads b principalId runtimeGeneration cursor).events).Pairwise
      fun a b => a.receiptOrder < b.receiptOrder := by
  rw [readPage_events]
  apply List.Pairwise.filterMap (journalEvent loads) _
    ((descending_unread cursor).sublist (List.take_sublist batchSize _))
  intro row row' hlt event hevent event' hevent'
  rw [receiptOrder_of_journalEvent hevent, receiptOrder_of_journalEvent hevent']
  exact hlt

def roomsAfter (loads : String → Option Json) (b : Backlog) (principalId runtimeGeneration : String)
    (deferred : List String) (origin : Option Int) (s : Scan) : Finset String × Bool :=
  visit deferred s.wrapped origin (readPage loads b principalId runtimeGeneration s.cursor).events s.rooms

namespace Scanned

variable (h : Scanned loads b principalId runtimeGeneration deferred origin s)
include h

/-- Every row of the page is found, also behind the break. -/
theorem page (hrow : row ∈ (unread b principalId runtimeGeneration s.cursor).take batchSize) :
    Found loads deferred (roomsAfter loads b principalId runtimeGeneration deferred origin s).1 row := by
  intro event hevent hlive
  have horder := receiptOrder_of_journalEvent hevent
  by_cases hnew : s.wrapped = true → ∀ o ∈ origin, event.receiptOrder ≤ o
  · apply mem_visit (sorted_readPage s.cursor) _ hlive hnew
    rw [readPage_events]
    exact List.mem_filterMap.mpr ⟨row, hrow, hevent⟩
  · push Not at hnew
    rcases hnew with ⟨hwrapped, o, ho, hlt⟩
    have hmem : row ∈ rowsOf b principalId runtimeGeneration :=
      (Keyset.mem_older.mp (List.mem_of_mem_take hrow)).1
    apply mem_visit_of_mem
    exact h.behind hwrapped row hmem o ho (horder ▸ hlt) event hevent hlive

theorem rest (hrow : row ∈ rowsOf b principalId runtimeGeneration) :
    row ∈ (unread b principalId runtimeGeneration s.cursor).drop batchSize ∨
      Found loads deferred (roomsAfter loads b principalId runtimeGeneration deferred origin s).1 row ∨
      (s.wrapped = false ∧ ∃ o ∈ origin, row.receiptOrder ≤ o) := by
  rcases h.passed row hrow with hunread | hfound | hearly
  · rw [← List.take_append_drop batchSize (unread b principalId runtimeGeneration s.cursor), List.mem_append] at hunread
    rcases hunread with htake | hdrop
    · exact .inr (.inl (h.page htake))
    · exact .inl hdrop
  · exact .inr (.inl (hfound.mono fun room => mem_visit_of_mem))
  · exact .inr (.inr hearly)

/-- Once the scan is back at its origin, every row is found. -/
theorem reachedOrigin (hreached : (roomsAfter loads b principalId runtimeGeneration deferred origin s).2 = true)
    (hrow : row ∈ rowsOf b principalId runtimeGeneration) :
    Found loads deferred (roomsAfter loads b principalId runtimeGeneration deferred origin s).1 row := by
  rcases exists_of_visit hreached with ⟨hwrapped, o, ho, event, hevent, hlt⟩
  rw [readPage_events] at hevent
  rcases List.mem_filterMap.mp hevent with ⟨last, hlast, hdecoded⟩
  rcases h.rest hrow with hdrop | hfound | hearly
  · have hsplit : Keyset.Descending (fun row => order row.receiptOrder)
        ((unread b principalId runtimeGeneration s.cursor).take batchSize ++
          (unread b principalId runtimeGeneration s.cursor).drop batchSize) := by
      rw [List.take_append_drop]
      exact descending_unread s.cursor
    have hbehind : last.receiptOrder < row.receiptOrder :=
      (List.pairwise_append.mp hsplit).2.2 last hlast row hdrop
    rw [receiptOrder_of_journalEvent hdecoded] at hlt
    exact (h.behind hwrapped row hrow o ho (hlt.trans hbehind)).mono fun room => mem_visit_of_mem
  · exact hfound
  · rw [hwrapped] at hearly
    cases hearly.1

/-- Once a scan that has wrapped comes to the end, every row is found. -/
theorem reachedEnd (hend : (readPage loads b principalId runtimeGeneration s.cursor).reachedEnd = true)
    (hwrapped : s.wrapped = true) (hrow : row ∈ rowsOf b principalId runtimeGeneration) :
    Found loads deferred (roomsAfter loads b principalId runtimeGeneration deferred origin s).1 row := by
  rw [readPage_reachedEnd] at hend
  rcases h.rest hrow with hdrop | hfound | hearly
  · rw [List.drop_eq_nil_of_le hend.le] at hdrop
    cases hdrop
  · exact hfound
  · rw [hwrapped] at hearly
    cases hearly.1

theorem wrap (hend : (readPage loads b principalId runtimeGeneration s.cursor).reachedEnd = true) {pages : Nat} :
    Scanned loads b principalId runtimeGeneration deferred origin
      ⟨(roomsAfter loads b principalId runtimeGeneration deferred origin s).1, none, true, pages⟩ where
  passed row hrow := by
    left
    unfold unread
    rw [Keyset.older_none]
    exact hrow
  behind _ row hrow o ho hlt := by
    rw [readPage_reachedEnd] at hend
    rcases h.rest hrow with hdrop | hfound | ⟨_, o', ho', hle⟩
    · rw [List.drop_eq_nil_of_le hend.le] at hdrop
      cases hdrop
    · exact hfound
    · rw [Option.mem_def, Option.mem_def.mp ho] at ho'
      cases ho'
      omega

theorem resume (hend : (readPage loads b principalId runtimeGeneration s.cursor).reachedEnd ≠ true) {pages : Nat} :
    Scanned loads b principalId runtimeGeneration deferred origin
      ⟨(roomsAfter loads b principalId runtimeGeneration deferred origin s).1,
        (readPage loads b principalId runtimeGeneration s.cursor).resumeAfter, s.wrapped, pages⟩ where
  passed row hrow := by
    rw [unread_resumeAfter hend]
    exact h.rest hrow
  behind hwrapped row hrow o ho hlt := (h.behind hwrapped row hrow o ho hlt).mono fun room => mem_visit_of_mem

end Scanned

/-- How many rows the scan may still read. -/
def remaining (b : Backlog) (principalId runtimeGeneration : String) (s : Scan) : Nat :=
  (unread b principalId runtimeGeneration s.cursor).length +
    if s.wrapped then 0 else (rowsOf b principalId runtimeGeneration).length + 1

theorem remaining_le (b : Backlog) (principalId runtimeGeneration : String) (s : Scan) :
    remaining b principalId runtimeGeneration s ≤ 2 * b.journalEvents.rows.length + 1 := by
  have hrows : (rowsOf b principalId runtimeGeneration).length ≤ b.journalEvents.rows.length :=
    length_backlogRows_le
  have hunread : (unread b principalId runtimeGeneration s.cursor).length ≤
      (rowsOf b principalId runtimeGeneration).length := List.length_filter_le _ _
  unfold remaining
  split <;> omega

theorem scanned_start (origin : Option Int) :
    Scanned loads b principalId runtimeGeneration deferred origin ⟨∅, origin, origin.isNone, 0⟩ where
  passed row hrow := by
    cases origin with
    | none =>
      left
      unfold unread
      rw [Keyset.older_none]
      exact hrow
    | some o =>
      by_cases hle : row.receiptOrder ≤ o
      · exact .inr (.inr ⟨rfl, o, rfl, hle⟩)
      · left
        refine Keyset.mem_older.mpr ⟨hrow, ?_⟩
        rintro c hc
        cases hc
        exact not_le.mp hle
  behind hwrapped row hrow o ho hlt := by
    rw [Option.mem_def.mp ho] at hwrapped
    cases hwrapped

/-- A scan that finds no more has found every room. -/
def Complete (loads : String → Option Json) (b : Backlog) (principalId runtimeGeneration : String)
    (deferred : List String) (d : Discovery) : Prop :=
  d.more = false → ∀ row ∈ rowsOf b principalId runtimeGeneration, Found loads deferred d.rooms row

theorem scanPage_spec (h : Scanned loads b principalId runtimeGeneration deferred origin s) :
    (∃ d, scanPage (readPage loads b principalId runtimeGeneration) deferred scanCursor wholeBacklog origin s =
        some (.leave d) ∧ Complete loads b principalId runtimeGeneration deferred d) ∨
      ∃ s', scanPage (readPage loads b principalId runtimeGeneration) deferred scanCursor wholeBacklog origin s =
        some (.again s') ∧ Scanned loads b principalId runtimeGeneration deferred origin s' ∧
        remaining b principalId runtimeGeneration s' < remaining b principalId runtimeGeneration s := by
  unfold scanPage
  split
  · by_cases hleave : (roomsAfter loads b principalId runtimeGeneration deferred origin s).2 = true ∨
        ((readPage loads b principalId runtimeGeneration s.cursor).reachedEnd = true ∧ s.wrapped = true)
    · refine .inl ⟨_, if_pos hleave, ?_⟩
      intro _ row hrow
      rcases hleave with hreached | ⟨hend, hwrapped⟩
      · exact h.reachedOrigin hreached hrow
      · exact h.reachedEnd hend hwrapped hrow
    · by_cases hend : (readPage loads b principalId runtimeGeneration s.cursor).reachedEnd = true
      · refine .inr ⟨_, (if_neg hleave).trans (if_pos hend), h.wrap hend, ?_⟩
        have hwrapped : ¬ s.wrapped = true := fun hwrapped => hleave (.inr ⟨hend, hwrapped⟩)
        unfold remaining
        rw [if_neg hwrapped, if_pos rfl]
        unfold unread
        rw [Keyset.older_none]
        omega
      · refine .inr ⟨_, (if_neg hleave).trans (if_neg hend), h.resume hend, ?_⟩
        have hlength : batchSize ≤ (unread b principalId runtimeGeneration s.cursor).length := by
          rw [readPage_reachedEnd, not_lt] at hend
          exact hend
        have hpos : 0 < batchSize := by decide
        unfold remaining
        rw [unread_resumeAfter hend, List.length_drop]
        simp only
        omega
  · refine .inl ⟨_, rfl, ?_⟩
    intro hmore
    cases hmore

/-- A scan ends, and when it says that there is no more, it has found the room of every pending event
that can be read and is not deferred. -/
theorem discoverRooms_complete (loads : String → Option Json) (b : Backlog)
    (principalId runtimeGeneration : String) (deferred : List String) (scanCursor : Option Int)
    (wholeBacklog : Bool) (extra : Nat) :
    ∃ d, discoverRooms (readPage loads b principalId runtimeGeneration) deferred scanCursor wholeBacklog
        (2 * b.journalEvents.rows.length + 2 + extra) = some d ∧
      (d.more = false → ∀ row ∈ b.journalEvents, Pending b principalId runtimeGeneration none none row →
        ∀ event, journalEvent loads row = some event → event.eventId ∉ deferred → event.roomId ∈ d.rooms) := by
  have hfuel : ∀ s, remaining b principalId runtimeGeneration s < 2 * b.journalEvents.rows.length + 2 + extra := by
    intro s
    have hle := remaining_le b principalId runtimeGeneration s
    omega
  rcases WhileLoop.run_total (Scanned loads b principalId runtimeGeneration deferred _)
    (Complete loads b principalId runtimeGeneration deferred) (remaining b principalId runtimeGeneration)
    (fun s hs => scanPage_spec hs) (scanned_start _) (hfuel _) with ⟨d, hrun, hcomplete⟩
  refine ⟨d, hrun, ?_⟩
  intro hmore row hrow hpending
  exact hcomplete hmore row (mem_backlogRows.mpr ⟨hrow, hpending⟩)

end

end MindRoom.RoomDiscovery
