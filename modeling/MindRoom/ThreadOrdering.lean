import MindRoom.Mapping
import Mathlib.Data.List.Sort
import Mathlib.Data.Prod.Lex
import Mathlib.Data.String.Basic
import Mathlib.Logic.Relation

/-! # Ordering the items of a thread

Items are sorted by timestamp, input order and event id. A group of one timestamp is then put into
an order in which a related event comes before what relates to it, and last the root is moved to
the front.
-/

namespace MindRoom.ThreadOrdering

/-! ## The program -/

/-- The stable secondary ordering index for one event. -/
def threadHistoryInputOrder (eventId : String) (inputOrderByEventId : Option (Mapping String Int)) : Int :=
  match inputOrderByEventId with
  | none => 0
  | some orders => (orders.value? eventId).getD 0

/-- The number of parents of each event of one timestamp, and the children of each parent. The events
are a set, so their order here is any order. -/
def buildSameTimestampRelationGraph (eventIds : List String) (relatedEventIdByEventId : Mapping String String) :
    Mapping String Int × Mapping String (List String) :=
  eventIds.foldl (fun graph eventId =>
    match relatedEventIdByEventId.value? eventId with
    | none => graph
    | some parentEventId =>
      if parentEventId ∉ eventIds ∨ parentEventId = eventId then graph
      else
        (graph.1.set eventId ((graph.1.value? eventId).getD 0 + 1),
          graph.2.set parentEventId ((graph.2.value? parentEventId).getD [] ++ [eventId])))
    (Mapping.collect eventIds fun _ => some 0, ∅)

/-- An event in the heap, under its input order. -/
abbrev Entry := Int ×ₗ String

def eventId (entry : Entry) : String := (ofLex entry).2

/-- The heap as a list, least entry first. -/
def heappush (ready : List Entry) (entry : Entry) : List Entry := ready.orderedInsert (· ≤ ·) entry

def entry (inputOrderByEventId : Option (Mapping String Int)) (eventId : String) : Entry :=
  toLex (threadHistoryInputOrder eventId inputOrderByEventId, eventId)

/-- The variables of the loop that takes events from the heap. -/
structure Loop where
  ready : List Entry
  inDegree : Mapping String Int
  ordered : List String

section

variable (inputOrderByEventId : Option (Mapping String Int))

/-- One child of an event that was taken: it is ready when it waits for no parent. -/
def releaseChild (facts : List Entry × Mapping String Int) (childEventId : String) :
    List Entry × Mapping String Int :=
  let degree := (facts.2.value? childEventId).getD 0 - 1
  let inDegree := facts.2.set childEventId degree
  if degree = 0 then (heappush facts.1 (entry inputOrderByEventId childEventId), inDegree) else (facts.1, inDegree)

def Loop.round (childrenByParent : Mapping String (List String)) (loop : Loop) : Loop :=
  match loop.ready with
  | [] => loop
  | first :: ready =>
    let facts := ((childrenByParent.value? (eventId first)).getD []).foldl (releaseChild inputOrderByEventId)
      (ready, loop.inDegree)
    { ready := facts.1, inDegree := facts.2, ordered := loop.ordered ++ [eventId first] }

def Loop.start (inDegree : Mapping String Int) : Loop where
  ready := inDegree.rows.foldl (fun ready item =>
    if item.value = 0 then heappush ready (entry inputOrderByEventId item.key) else ready) []
  inDegree := inDegree
  ordered := []

/-- An ancestry-aware order for events of one timestamp, when relations exist. A round takes an event
that no round took before it, so there are at most as many rounds as events. -/
def topologicallySortSameTimestampEventIds (eventIds : List String)
    (relatedEventIdByEventId : Mapping String String) : Option (List String) :=
  if eventIds.length < 2 then none
  else
    let graph := buildSameTimestampRelationGraph eventIds relatedEventIdByEventId
    if graph.2.rows = [] then none
    else
      let loop := (Loop.round inputOrderByEventId graph.2)^[eventIds.length]
        (Loop.start inputOrderByEventId graph.1)
      if loop.ordered.length ≠ eventIds.length then
        -- what hangs on a cycle never gets ready
        some (loop.ordered ++ (eventIds.filter (· ∉ loop.ordered)).insertionSort
          fun a b => entry inputOrderByEventId a ≤ entry inputOrderByEventId b)
      else some loop.ordered

end

section

variable {α : Type*} (eventIdGetter : α → String) (timestampGetter : α → Int)
  (inputOrderByEventId : Option (Mapping String Int))

/-- Keep same-timestamp parents ahead of descendants when relation ancestry is known. -/
def sortSameTimestampGroup (relatedEventIdByEventId : Mapping String String) (items : List α) : List α :=
  if items.length < 2 then items
  else
    let itemsByEventId : Mapping String α := items.foldl (fun m item => m.set (eventIdGetter item) item) ∅
    match topologicallySortSameTimestampEventIds inputOrderByEventId itemsByEventId.keys
        relatedEventIdByEventId with
    | none => items
    | some orderedEventIds => orderedEventIds.filterMap itemsByEventId.value?

/-- The items regrouped, one run of equal timestamps after the other. -/
def groupedItems (relatedEventIdByEventId : Mapping String String) : List α → List α
  | [] => []
  | item :: items =>
    sortSameTimestampGroup eventIdGetter inputOrderByEventId relatedEventIdByEventId
        (item :: items.takeWhile fun other => timestampGetter other = timestampGetter item) ++
      groupedItems relatedEventIdByEventId
        (items.dropWhile fun other => timestampGetter other = timestampGetter item)
termination_by items => items.length
decreasing_by
  have hsub : (items.dropWhile fun other => decide (timestampGetter other = timestampGetter item)).Sublist items :=
    List.dropWhile_sublist _
  have hlength := hsub.length_le
  simp only [List.length_cons]
  omega

def sortKey (item : α) : Int ×ₗ Entry :=
  toLex (timestampGetter item, entry inputOrderByEventId (eventIdGetter item))

/-- The root taken out and put in front. -/
def rootFirst (threadId : String) (items : List α) : List α :=
  match items.findIdx? (fun item => eventIdGetter item = threadId) with
  | none => items
  | some rootIndex => (items[rootIndex]?).toList ++ items.eraseIdx rootIndex

/-- Keep the thread root first, then order the remaining items chronologically. -/
def sortThreadItemsRootFirst (threadId : String) (relatedEventIdByEventId : Option (Mapping String String))
    (items : List α) : List α :=
  let items := items.insertionSort fun a b =>
    sortKey eventIdGetter timestampGetter inputOrderByEventId a ≤
      sortKey eventIdGetter timestampGetter inputOrderByEventId b
  let items := match relatedEventIdByEventId with
    | none => items
    | some related => groupedItems eventIdGetter timestampGetter inputOrderByEventId related items
  rootFirst eventIdGetter threadId items

end

/-! ## What comes before what -/

section

variable {ι β : Type*} {l l' : List ι} {a b c : ι}

/-- `a` stands before `b`. -/
def Precedes (l : List ι) (a b : ι) : Prop := ∃ before after, l = before ++ b :: after ∧ a ∈ before

theorem Precedes.append_right (h : Precedes l a b) (l' : List ι) : Precedes (l ++ l') a b := by
  rcases h with ⟨before, after, rfl, hmem⟩
  exact ⟨before, after ++ l', by simp, hmem⟩

theorem Precedes.append_left (h : Precedes l a b) (l' : List ι) : Precedes (l' ++ l) a b := by
  rcases h with ⟨before, after, rfl, hmem⟩
  exact ⟨l' ++ before, after, by simp, List.mem_append_right _ hmem⟩

theorem Precedes.cons (h : Precedes l a b) (c : ι) : Precedes (c :: l) a b := h.append_left [c]

theorem precedes_head (h : b ∈ l) : Precedes (a :: l) a b := by
  rcases List.mem_iff_append.mp h with ⟨before, after, rfl⟩
  exact ⟨a :: before, after, rfl, List.mem_cons_self⟩

/-- What is left of a list keeps its order. -/
theorem Precedes.filter {p : ι → Bool} (h : Precedes l a b) (ha : p a = true) (hb : p b = true) :
    Precedes (l.filter p) a b := by
  rcases h with ⟨before, after, rfl, hmem⟩
  refine ⟨before.filter p, after.filter p, ?_, List.mem_filter.mpr ⟨hmem, ha⟩⟩
  rw [List.filter_append, List.filter_cons, if_pos hb]

/-- Looking every element up keeps the order. -/
theorem Precedes.filterMap {f : ι → Option β} {x y : β} (h : Precedes l a b) (ha : f a = some x)
    (hb : f b = some y) : Precedes (l.filterMap f) x y := by
  rcases h with ⟨before, after, rfl, hmem⟩
  refine ⟨before.filterMap f, after.filterMap f, ?_, List.mem_filterMap.mpr ⟨a, hmem, ha⟩⟩
  rw [List.filterMap_append, List.filterMap_cons, hb]

end

/-! ## The relation graph -/

section

variable {eventIds : List String} {related : Mapping String String}

def parent? (eventIds : List String) (related : Mapping String String) (e : String) : Option String :=
  (related.value? e).filter fun p => decide (p ∈ eventIds ∧ p ≠ e)

theorem parent?_eq_some {e p : String} :
    parent? eventIds related e = some p ↔ related.value? e = some p ∧ p ∈ eventIds ∧ p ≠ e := by
  unfold parent?
  rw [Option.filter_eq_some_iff, decide_eq_true_iff]

/-- One event of the group enters the graph. -/
def addEdge (eventIds : List String) (related : Mapping String String)
    (graph : Mapping String Int × Mapping String (List String)) (e : String) :
    Mapping String Int × Mapping String (List String) :=
  match parent? eventIds related e with
  | none => graph
  | some p => (graph.1.set e ((graph.1.value? e).getD 0 + 1), graph.2.set p ((graph.2.value? p).getD [] ++ [e]))

theorem build_eq : buildSameTimestampRelationGraph eventIds related =
    eventIds.foldl (addEdge eventIds related) (Mapping.collect eventIds fun _ => some 0, ∅) := by
  unfold buildSameTimestampRelationGraph
  congr 1
  funext graph e
  unfold addEdge parent?
  cases related.value? e with
  | none => rfl
  | some p =>
    by_cases hp : p ∈ eventIds ∧ p ≠ e
    · simp [Option.filter, hp]
    · have hor : p ∉ eventIds ∨ p = e := by
        by_cases hmem : p ∈ eventIds
        · exact .inr (by_contra fun hne => hp ⟨hmem, hne⟩)
        · exact .inl hmem
      simp [Option.filter, hp, hor]

/-- What adding some events makes of the graph: each gets one parent more, and each parent its
children at the end. -/
theorem foldl_addEdge {l : List String} (hl : l.Nodup) (graph : Mapping String Int × Mapping String (List String)) :
    (∀ e, (l.foldl (addEdge eventIds related) graph).1.value? e =
      if e ∈ l ∧ parent? eventIds related e ≠ none then some ((graph.1.value? e).getD 0 + 1) else graph.1.value? e) ∧
    (∀ p, ((l.foldl (addEdge eventIds related) graph).2.value? p).getD [] =
      (graph.2.value? p).getD [] ++ l.filter fun e => parent? eventIds related e = some p) := by
  induction l generalizing graph with
  | nil => simp
  | cons a l ih =>
    rw [List.nodup_cons] at hl
    rw [List.foldl_cons]
    rcases ih hl.2 (addEdge eventIds related graph a) with ⟨hdegree, hchildren⟩
    constructor
    · intro e
      rw [hdegree]
      unfold addEdge
      cases hparent : parent? eventIds related a with
      | none =>
        by_cases he : e = a
        · simp [he, hparent]
        · simp [he]
      | some p =>
        dsimp only
        rw [Mapping.value?_set]
        by_cases he : e = a
        · subst he
          simp [hparent, hl.1]
        · simp [he, Ne.symm he]
    · intro p
      rw [hchildren, List.filter_cons]
      unfold addEdge
      cases hparent : parent? eventIds related a with
      | none => simp
      | some p' =>
        dsimp only
        rw [Mapping.value?_set]
        by_cases hp : p' = p
        · simp [hp]
        · simp [hp]

/-- An event waits for its parent, when it has one. -/
theorem value?_inDegree (h : eventIds.Nodup) (e : String) :
    (buildSameTimestampRelationGraph eventIds related).1.value? e =
      if e ∈ eventIds then some (if parent? eventIds related e = none then 0 else 1) else none := by
  rw [build_eq, (foldl_addEdge h _).1, Mapping.value?_collect]
  by_cases he : e ∈ eventIds
  · by_cases hparent : parent? eventIds related e = none
    · simp [he, hparent]
    · simp [he, hparent]
  · simp [he]

theorem value?_children (h : eventIds.Nodup) (p : String) :
    ((buildSameTimestampRelationGraph eventIds related).2.value? p).getD [] =
      eventIds.filter fun e => parent? eventIds related e = some p := by
  rw [build_eq, (foldl_addEdge h _).2, Mapping.value?_empty]
  rfl

end

/-! ## The loop -/

section

variable {inputOrder : Option (Mapping String Int)} {eventIds : List String} {related : Mapping String String}

theorem map_heappush (ready : List Entry) (e : String) :
    ((heappush ready (entry inputOrder e)).map eventId).Perm (e :: ready.map eventId) :=
  (List.perm_orderedInsert (· ≤ ·) (entry inputOrder e) ready).map eventId

/-- Children that wait for one parent get ready. -/
theorem foldl_releaseChild {children : List String} (hnodup : children.Nodup) {facts : List Entry × Mapping String Int}
    (h : ∀ c ∈ children, facts.2.value? c = some 1) :
    ((children.foldl (releaseChild inputOrder) facts).1.map eventId).Perm (facts.1.map eventId ++ children) ∧
    ∀ e, (children.foldl (releaseChild inputOrder) facts).2.value? e =
      if e ∈ children then some 0 else facts.2.value? e := by
  induction children generalizing facts with
  | nil => simp
  | cons c children ih =>
    rw [List.nodup_cons] at hnodup
    have hstep : releaseChild inputOrder facts c = (heappush facts.1 (entry inputOrder c), facts.2.set c 0) := by
      unfold releaseChild
      rw [h c List.mem_cons_self]
      rfl
    rw [List.foldl_cons, hstep]
    have hnext : ∀ c' ∈ children, (facts.2.set c 0).value? c' = some 1 := by
      intro c' hc'
      have hne : c ≠ c' := fun heq => hnodup.1 (heq ▸ hc')
      rw [Mapping.value?_set, if_neg hne]
      exact h c' (List.mem_cons_of_mem _ hc')
    rcases @ih hnodup.2 (heappush facts.1 (entry inputOrder c), facts.2.set c 0) hnext with ⟨hready, hdegree⟩
    constructor
    · apply hready.trans
      apply ((map_heappush facts.1 c).append_right children).trans
      exact List.perm_middle.symm
    · intro e
      rw [hdegree, Mapping.value?_set]
      by_cases he : e ∈ children
      · simp [he]
      · by_cases hec : c = e
        · simp [hec]
        · simp [he, hec, Ne.symm hec]

/-- The parent of an event, if it has one, was taken. -/
def Free (eventIds : List String) (related : Mapping String String) (ordered : List String) (e : String) : Prop :=
  (parent? eventIds related e).all (fun p => decide (p ∈ ordered)) = true

instance (eventIds : List String) (related : Mapping String String) (ordered : List String) (e : String) :
    Decidable (Free eventIds related ordered e) :=
  inferInstanceAs (Decidable (_ = true))

theorem free_iff {ordered : List String} {e : String} :
    Free eventIds related ordered e ↔ ∀ p, parent? eventIds related e = some p → p ∈ ordered := by
  unfold Free
  cases parent? eventIds related e <;> simp

/-- Taking one event more frees its children. -/
theorem free_append {ordered : List String} {taken e : String} : Free eventIds related (ordered ++ [taken]) e ↔
      Free eventIds related ordered e ∨ parent? eventIds related e = some taken := by
  unfold Free
  cases parent? eventIds related e <;> simp

/-- What every round keeps: an event was taken or is ready exactly when its parent was taken, and
it was taken after its parent. -/
structure Loop.Inv (eventIds : List String) (related : Mapping String String) (loop : Loop) : Prop where
  nodup : (loop.ordered ++ loop.ready.map eventId).Nodup
  mem : ∀ e, e ∈ loop.ordered ++ loop.ready.map eventId ↔ e ∈ eventIds ∧ Free eventIds related loop.ordered e
  degree : ∀ e ∈ eventIds, loop.inDegree.value? e = some (if Free eventIds related loop.ordered e then 0 else 1)
  closed : ∀ before e after, loop.ordered = before ++ e :: after → Free eventIds related before e

theorem closed_append {ordered : List String} {taken : String}
    (h : ∀ before e after, ordered = before ++ e :: after → Free eventIds related before e)
    (htaken : Free eventIds related ordered taken) :
    ∀ before e after, ordered ++ [taken] = before ++ e :: after → Free eventIds related before e := by
  intro before e after heq
  rcases List.eq_nil_or_concat after with rfl | ⟨after, last, rfl⟩
  · have hlast : ordered = before ∧ taken = e := by simpa using List.append_inj' heq rfl
    rw [← hlast.1, ← hlast.2]
    exact htaken
  · have heq' : ordered ++ [taken] = (before ++ e :: after) ++ [last] := by simpa using heq
    exact h before e after (List.append_inj' heq' rfl).1

theorem Loop.Inv.round {loop : Loop} (h : loop.Inv eventIds related) (hids : eventIds.Nodup) :
    (loop.round inputOrder (buildSameTimestampRelationGraph eventIds related).2).Inv eventIds related := by
  unfold Loop.round
  cases hready : loop.ready with
  | nil => exact h
  | cons first ready =>
    dsimp only
    rw [value?_children hids]
    have hnodup := h.nodup
    have hmem := h.mem
    rw [hready, List.map_cons] at hnodup hmem
    have htaken : eventId first ∉ loop.ordered := by
      intro hin
      exact (List.nodup_append.mp hnodup).2.2 _ hin _ List.mem_cons_self rfl
    have hfree := (hmem (eventId first)).mp (by simp)
    -- the children wait for the event that is taken, so none of them was taken or is ready
    have hchild : ∀ c ∈ eventIds.filter (fun e => parent? eventIds related e = some (eventId first)),
        c ∈ eventIds ∧ parent? eventIds related c = some (eventId first) ∧ ¬ Free eventIds related loop.ordered c := by
      intro c hc
      rw [List.mem_filter, decide_eq_true_iff] at hc
      refine ⟨hc.1, hc.2, fun hf => htaken (free_iff.mp hf _ hc.2)⟩
    have hdegree : ∀ c ∈ eventIds.filter (fun e => parent? eventIds related e = some (eventId first)),
        loop.inDegree.value? c = some 1 := by
      intro c hc
      rw [h.degree c (hchild c hc).1, if_neg (hchild c hc).2.2]
    rcases @foldl_releaseChild inputOrder _ (hids.filter _) (ready, loop.inDegree) hdegree
      with ⟨hperm, hvalue⟩
    have hall : (loop.ordered ++ [eventId first] ++ ((eventIds.filter
          fun e => parent? eventIds related e = some (eventId first)).foldl (releaseChild inputOrder)
            (ready, loop.inDegree)).1.map eventId).Perm
        (loop.ordered ++ eventId first :: ready.map eventId ++
          eventIds.filter fun e => parent? eventIds related e = some (eventId first)) := by
      refine (hperm.append_left _).trans ?_
      rw [← List.append_assoc, List.append_assoc loop.ordered, List.singleton_append]
    constructor
    · rw [hall.nodup_iff, List.nodup_append]
      refine ⟨hnodup, hids.filter _, ?_⟩
      rintro e he c hc rfl
      exact (hchild e hc).2.2 ((hmem e).mp he).2
    · intro e
      rw [hall.mem_iff, List.mem_append, hmem, List.mem_filter, decide_eq_true_iff, free_append, and_or_left]
    · intro e he
      rw [hvalue, h.degree e he]
      by_cases hparent : parent? eventIds related e = some (eventId first)
      · rw [if_pos (List.mem_filter.mpr ⟨he, decide_eq_true hparent⟩), if_pos (free_append.mpr (.inr hparent))]
      · have hnot : e ∉ eventIds.filter fun e => parent? eventIds related e = some (eventId first) :=
          fun hc => hparent (hchild e hc).2.1
        have hiff : Free eventIds related (loop.ordered ++ [eventId first]) e ↔
            Free eventIds related loop.ordered e := by
          rw [free_append]
          exact or_iff_left hparent
        simp only [if_neg hnot, hiff]
    · exact closed_append h.closed hfree.2

theorem start_inv (hids : eventIds.Nodup) :
    (Loop.start inputOrder (buildSameTimestampRelationGraph eventIds related).1).Inv eventIds related := by
  have hready : ∀ (rows : List (Mapping.Item String Int)) (ready : List Entry), ((rows.foldl (fun ready item =>
        if item.value = 0 then heappush ready (entry inputOrder item.key) else ready) ready).map eventId).Perm
          (ready.map eventId ++ (rows.filter fun item => decide (item.value = 0)).map (·.key)) := by
    intro rows
    induction rows with
    | nil => simp
    | cons item rows ih =>
      intro ready
      rw [List.foldl_cons, List.filter_cons]
      by_cases hzero : item.value = 0
      · rw [if_pos hzero, if_pos (decide_eq_true hzero)]
        apply (ih _).trans
        apply ((map_heappush ready item.key).append_right _).trans
        exact List.perm_middle.symm
      · rw [if_neg hzero, if_neg (by simpa using hzero)]
        exact ih ready
  have hperm : ((Loop.start inputOrder (buildSameTimestampRelationGraph eventIds related).1).ready.map eventId).Perm
      (((buildSameTimestampRelationGraph eventIds related).1.rows.filter
        fun item => decide (item.value = 0)).map (·.key)) :=
    hready (buildSameTimestampRelationGraph eventIds related).1.rows []
  have hmem : ∀ e, e ∈ ((buildSameTimestampRelationGraph eventIds related).1.rows.filter
      fun item => decide (item.value = 0)).map (·.key) ↔ e ∈ eventIds ∧ parent? eventIds related e = none := by
    intro e
    have hvalue := @value?_inDegree _ related hids e
    constructor
    · intro he
      rcases List.mem_map.mp he with ⟨item, hitem, rfl⟩
      rw [List.mem_filter, decide_eq_true_iff] at hitem
      rw [Mapping.value?_eq_some.mpr hitem.1, hitem.2] at hvalue
      split at hvalue
      · next hin =>
        refine ⟨hin, ?_⟩
        by_contra hparent
        rw [if_neg hparent] at hvalue
        cases hvalue
      · cases hvalue
    · rintro ⟨hin, hparent⟩
      rw [if_pos hin, if_pos hparent] at hvalue
      exact List.mem_map.mpr ⟨⟨e, 0⟩, List.mem_filter.mpr ⟨Mapping.value?_eq_some.mp hvalue, by simp⟩, rfl⟩
  constructor
  · rw [show (Loop.start inputOrder (buildSameTimestampRelationGraph eventIds related).1).ordered = [] from rfl,
      List.nil_append, hperm.nodup_iff]
    exact (buildSameTimestampRelationGraph eventIds related).1.primaryKey.sublist (List.filter_sublist.map _)
  · intro e
    rw [show (Loop.start inputOrder (buildSameTimestampRelationGraph eventIds related).1).ordered = [] from rfl,
      List.nil_append, hperm.mem_iff, hmem, free_iff]
    simp [Option.eq_none_iff_forall_ne_some]
  · intro e he
    change (buildSameTimestampRelationGraph eventIds related).1.value? e = _
    rw [value?_inDegree hids, if_pos he]
    have hiff : Free eventIds related [] e ↔ parent? eventIds related e = none := by
      rw [free_iff, Option.eq_none_iff_forall_ne_some]
      simp
    simp only [Loop.start, hiff]
  · intro before e after heq
    simp [Loop.start] at heq

theorem round_inv_iterate (hids : eventIds.Nodup) (n : Nat) :
    ((Loop.round inputOrder (buildSameTimestampRelationGraph eventIds related).2)^[n]
      (Loop.start inputOrder (buildSameTimestampRelationGraph eventIds related).1)).Inv eventIds related := by
  induction n with
  | zero => exact start_inv hids
  | succ n ih =>
    rw [Function.iterate_succ_apply']
    exact ih.round hids

/-- A round takes one event, unless the heap is empty. -/
theorem length_iterate (children : Mapping String (List String)) (loop : Loop) (n : Nat) :
    ((Loop.round inputOrder children)^[n] loop).ready = [] ∨
      ((Loop.round inputOrder children)^[n] loop).ordered.length = loop.ordered.length + n := by
  induction n with
  | zero => exact .inr rfl
  | succ n ih =>
    rw [Function.iterate_succ_apply']
    generalize (Loop.round inputOrder children)^[n] loop = last at ih ⊢
    cases hready : last.ready with
    | nil =>
      left
      unfold Loop.round
      rw [hready]
      exact hready
    | cons first ready =>
      right
      rcases ih with hempty | hlength
      · rw [hready] at hempty
        cases hempty
      · unfold Loop.round
        rw [hready]
        simp only [List.length_append, List.length_singleton, hlength]
        omega

/-- The heap is empty after as many rounds as there are events. -/
theorem ready_iterate (hids : eventIds.Nodup) :
    ((Loop.round inputOrder (buildSameTimestampRelationGraph eventIds related).2)^[eventIds.length]
      (Loop.start inputOrder (buildSameTimestampRelationGraph eventIds related).1)).ready = [] := by
  have hinv := @round_inv_iterate inputOrder _ related hids eventIds.length
  rcases @length_iterate inputOrder (buildSameTimestampRelationGraph eventIds related).2
    (Loop.start inputOrder (buildSameTimestampRelationGraph eventIds related).1) eventIds.length with hempty | hlength
  · exact hempty
  · generalize (Loop.round inputOrder (buildSameTimestampRelationGraph eventIds related).2)^[eventIds.length]
      (Loop.start inputOrder (buildSameTimestampRelationGraph eventIds related).1) = loop at hinv hlength ⊢
    have hsub : loop.ordered ++ loop.ready.map eventId ⊆ eventIds := fun e he => ((hinv.mem e).mp he).1
    have hle := (List.subperm_of_subset hinv.nodup hsub).length_le
    have hstart : (Loop.start inputOrder (buildSameTimestampRelationGraph eventIds related).1).ordered = [] := rfl
    rw [List.length_append, List.length_map, hlength, hstart, List.length_nil] at hle
    apply List.eq_nil_of_length_eq_zero
    omega

/-! ## The order of one timestamp -/

/-- An event whose ancestors in the group end in one without a parent. -/
inductive Grounded (eventIds : List String) (related : Mapping String String) : String → Prop where
  | root {e : String} : parent? eventIds related e = none → Grounded eventIds related e
  | child {e p : String} : parent? eventIds related e = some p → Grounded eventIds related p →
      Grounded eventIds related e

/-- Parents in a group. -/
def ChildOf (eventIds : List String) (related : Mapping String String) (e p : String) : Prop :=
  parent? eventIds related e = some p

/-- The order of the events of one timestamp, when they are related. -/
theorem topologicallySort_spec (hids : eventIds.Nodup) {l : List String}
    (h : topologicallySortSameTimestampEventIds inputOrder eventIds related = some l) :
    l.Perm eventIds ∧ ∀ e a, e ∈ eventIds → Grounded eventIds related e →
      Relation.TransGen (ChildOf eventIds related) e a → Precedes l a e := by
  unfold topologicallySortSameTimestampEventIds at h
  have hinv := @round_inv_iterate inputOrder _ related hids eventIds.length
  have hready := @ready_iterate inputOrder _ related hids
  dsimp only at h
  generalize (Loop.round inputOrder (buildSameTimestampRelationGraph eventIds related).2)^[eventIds.length]
    (Loop.start inputOrder (buildSameTimestampRelationGraph eventIds related).1) = loop at h hinv hready
  have hmem := hinv.mem
  have hnodup := hinv.nodup
  rw [hready, List.map_nil, List.append_nil] at hmem hnodup
  have hgrounded : ∀ e, Grounded eventIds related e → e ∈ eventIds → e ∈ loop.ordered := by
    intro e hg
    induction hg with
    | root hnone =>
      intro he
      rw [hmem, free_iff]
      exact ⟨he, fun p hp => by rw [hnone] at hp; cases hp⟩
    | child hp _ ih =>
      intro he
      rw [hmem, free_iff]
      refine ⟨he, fun p' hp' => ?_⟩
      obtain rfl := Option.mem_unique hp hp'
      exact ih (parent?_eq_some.mp hp).2.1
  -- an event that was taken stands after all its ancestors
  have hbefore : ∀ e a, Relation.TransGen (ChildOf eventIds related) e a →
      ∀ before after, loop.ordered = before ++ e :: after → a ∈ before := by
    intro e a hchain
    induction hchain using Relation.TransGen.head_induction_on with
    | single hp =>
      intro before after heq
      exact free_iff.mp (hinv.closed _ _ _ heq) _ hp
    | head hp _ ih =>
      intro before after heq
      have hparent := free_iff.mp (hinv.closed _ _ _ heq) _ hp
      rcases List.mem_iff_append.mp hparent with ⟨first, last, rfl⟩
      have hmem' := ih first _ (heq.trans (List.append_assoc _ _ _))
      exact List.mem_append_left _ hmem'
  have hprecedes : ∀ e a, e ∈ eventIds → Grounded eventIds related e →
      Relation.TransGen (ChildOf eventIds related) e a → Precedes loop.ordered a e := by
    intro e a he hg hchain
    rcases List.mem_iff_append.mp (hgrounded e hg he) with ⟨before, after, heq⟩
    exact ⟨before, after, heq, hbefore e a hchain before after heq⟩
  have hsub : loop.ordered ⊆ eventIds := fun e he => ((hmem e).mp he).1
  split at h
  · cases h
  split at h
  · cases h
  split at h
  · cases h
    constructor
    · apply (List.perm_ext_iff_of_nodup ?_ hids).mpr
      · intro e
        rw [List.mem_append, (List.perm_insertionSort _ _).mem_iff, List.mem_filter, decide_eq_true_iff]
        constructor
        · rintro (he | he)
          · exact hsub he
          · exact he.1
        · intro he
          by_cases htaken : e ∈ loop.ordered
          · exact .inl htaken
          · exact .inr ⟨he, htaken⟩
      · rw [List.nodup_append]
        refine ⟨hnodup, (List.perm_insertionSort _ _).nodup_iff.mpr (hids.filter _), ?_⟩
        rintro e he e' he' rfl
        rw [(List.perm_insertionSort _ _).mem_iff, List.mem_filter, decide_eq_true_iff] at he'
        exact he'.2 he
    · intro e a he hg hchain
      exact (hprecedes e a he hg hchain).append_right _
  · next hlength =>
    cases h
    have hperm := (List.subperm_of_subset hnodup hsub).perm_of_length_le (by omega)
    exact ⟨hperm, hprecedes⟩

end

/-! ## Acyclic chains -/

section

variable {eventIds : List String} {related : Mapping String String}

/-- No ancestor of the event is its own ancestor. -/
def AcyclicFrom {ι : Type*} (r : ι → ι → Prop) (e : ι) : Prop :=
  ∀ a, Relation.ReflTransGen r e a → ¬ Relation.TransGen r a a

theorem AcyclicFrom.of_step {ι : Type*} {r : ι → ι → Prop} {e p : ι} (h : AcyclicFrom r e) (hp : r e p) :
    AcyclicFrom r p := fun a ha => h a (Relation.ReflTransGen.head hp ha)

/-- The chain of an event that was reached from `visited` ends before it has visited every event. -/
theorem grounded_of_visited (n : Nat) {visited : List String} {e : String} (he : e ∈ eventIds)
    (hnodup : visited.Nodup) (hsub : visited ⊆ eventIds) (hn : eventIds.length ≤ visited.length + n)
    (hvisited : ∀ v ∈ visited, Relation.TransGen (ChildOf eventIds related) v e)
    (h : AcyclicFrom (ChildOf eventIds related) e) : Grounded eventIds related e := by
  have hnew : e ∉ visited := fun hin => h e .refl (hvisited e hin)
  have hcons : (e :: visited).Nodup := List.nodup_cons.mpr ⟨hnew, hnodup⟩
  have hconsSub : e :: visited ⊆ eventIds := List.cons_subset.mpr ⟨he, hsub⟩
  have hlength := (List.subperm_of_subset hcons hconsSub).length_le
  rw [List.length_cons] at hlength
  induction n generalizing visited e with
  | zero => omega
  | succ n ih =>
    cases hparent : parent? eventIds related e with
    | none => exact Grounded.root hparent
    | some p =>
      apply Grounded.child hparent
      have hp : ChildOf eventIds related e p := hparent
      have hvisited' : ∀ v ∈ e :: visited, Relation.TransGen (ChildOf eventIds related) v p := by
        intro v hv
        rcases List.mem_cons.mp hv with rfl | hv
        · exact .single hp
        · exact (hvisited v hv).tail hp
      have hpmem := (parent?_eq_some.mp hparent).2.1
      have hpnew : p ∉ e :: visited := fun hin => h.of_step hp p .refl (hvisited' p hin)
      have hpcons : (p :: e :: visited).Nodup := List.nodup_cons.mpr ⟨hpnew, hcons⟩
      have hpsub : p :: e :: visited ⊆ eventIds := List.cons_subset.mpr ⟨hpmem, hconsSub⟩
      have hplength := (List.subperm_of_subset hpcons hpsub).length_le
      apply ih hpmem hcons hconsSub _ hvisited' (h.of_step hp) hpnew hpcons hpsub
      · simpa using hplength
      · rw [List.length_cons]
        omega

theorem grounded_of_acyclicFrom {e : String} (he : e ∈ eventIds) (h : AcyclicFrom (ChildOf eventIds related) e) :
    Grounded eventIds related e :=
  grounded_of_visited eventIds.length he List.nodup_nil (List.nil_subset _) (by simp) (by simp) h

end

/-! ## Items -/

section

variable {α : Type*} {eventIdGetter : α → String} {timestampGetter : α → Int}
  {inputOrder : Option (Mapping String Int)} {related : Mapping String String}

theorem rows_itemsByEventId {items : List α} (h : (items.map eventIdGetter).Nodup) :
    (items.foldl (fun m item => m.set (eventIdGetter item) item) (∅ : Mapping String α)).rows =
      items.map fun item => ⟨eventIdGetter item, item⟩ := by
  have hfold : ∀ (l : List α) (m : Mapping String α), (l.map eventIdGetter).Nodup →
      (∀ item ∈ l, m.value? (eventIdGetter item) = none) →
        (l.foldl (fun m item => m.set (eventIdGetter item) item) m).rows =
          m.rows ++ l.map fun item => ⟨eventIdGetter item, item⟩ := by
    intro l
    induction l with
    | nil => simp
    | cons item l ih =>
      intro m hl hnew
      rw [List.map_cons, List.nodup_cons] at hl
      rw [List.foldl_cons, ih _ hl.2, Mapping.rows_set_of_absent (hnew item List.mem_cons_self)]
      · simp
      · intro item' hitem'
        have hne : eventIdGetter item ≠ eventIdGetter item' := fun heq => hl.1 (heq ▸ List.mem_map_of_mem hitem')
        rw [Mapping.value?_set, if_neg hne]
        exact hnew item' (List.mem_cons_of_mem _ hitem')
  exact hfold items ∅ h fun _ _ => rfl

/-- No event of a group without edges has a parent. -/
theorem not_childOf_of_none {eventIds : List String} (hids : eventIds.Nodup)
    (h : topologicallySortSameTimestampEventIds inputOrder eventIds related = none) {e p : String} (he : e ∈ eventIds) :
    ¬ ChildOf eventIds related e p := by
  intro hp
  rcases parent?_eq_some.mp hp with ⟨_, hmem, hne⟩
  unfold topologicallySortSameTimestampEventIds at h
  split at h
  · next hlength =>
    -- two different events
    have hsub : [p, e] ⊆ eventIds := by
      intro a ha
      simp only [List.mem_cons, List.not_mem_nil, or_false] at ha
      rcases ha with rfl | rfl
      · exact hmem
      · exact he
    have hle := (List.subperm_of_subset (by simpa using hne) hsub).length_le
    simp only [List.length_cons, List.length_nil] at hle
    omega
  · dsimp only at h
    split at h
    · next hempty =>
      have hchildren := @value?_children _ related hids p
      have hin : e ∈ eventIds.filter fun e => parent? eventIds related e = some p :=
        List.mem_filter.mpr ⟨he, decide_eq_true hp⟩
      rw [← hchildren] at hin
      have hnone : (buildSameTimestampRelationGraph eventIds related).2.value? p = none := by
        unfold Mapping.value? Table.get? Table.find?
        rw [hempty]
        rfl
      rw [hnone] at hin
      cases hin
    · split at h <;> cases h

/-- A group of one timestamp keeps its items, and puts ancestors first. -/
theorem sortSameTimestampGroup_spec {items : List α} (h : (items.map eventIdGetter).Nodup) :
    (sortSameTimestampGroup eventIdGetter inputOrder related items).Perm items ∧
      ∀ x y, x ∈ items → y ∈ items → Grounded (items.map eventIdGetter) related (eventIdGetter x) →
        Relation.TransGen (ChildOf (items.map eventIdGetter) related) (eventIdGetter x) (eventIdGetter y) →
          Precedes (sortSameTimestampGroup eventIdGetter inputOrder related items) y x := by
  have hrows := rows_itemsByEventId h
  have hkeys : (items.foldl (fun m item => m.set (eventIdGetter item) item) (∅ : Mapping String α)).keys =
      items.map eventIdGetter := by
    unfold Mapping.keys
    rw [hrows, List.map_map]
    rfl
  have hvalue : ∀ item ∈ items, (items.foldl (fun m item => m.set (eventIdGetter item) item)
      (∅ : Mapping String α)).value? (eventIdGetter item) = some item := by
    intro item hitem
    rw [Mapping.value?_eq_some, Table.mem_def, hrows]
    exact List.mem_map_of_mem (f := fun item => (⟨eventIdGetter item, item⟩ : Mapping.Item String α)) hitem
  unfold sortSameTimestampGroup
  dsimp only
  rw [hkeys]
  generalize items.foldl (fun m item => m.set (eventIdGetter item) item) (∅ : Mapping String α) = byId at hvalue
  have hitems : (items.map eventIdGetter).filterMap byId.value? = items := by
    rw [List.filterMap_map]
    refine (List.filterMap_congr fun item hitem => ?_).trans List.filterMap_some
    exact hvalue item hitem
  split
  · next hlength =>
    refine ⟨List.Perm.refl _, fun x y hx hy hg hchain => ?_⟩
    have hnone : topologicallySortSameTimestampEventIds inputOrder (items.map eventIdGetter) related = none := by
      unfold topologicallySortSameTimestampEventIds
      rw [List.length_map, if_pos hlength]
    rcases Relation.TransGen.head'_iff.mp hchain with ⟨p, hp, _⟩
    exact absurd hp (not_childOf_of_none h hnone (List.mem_map_of_mem hx))
  · cases hsort : topologicallySortSameTimestampEventIds inputOrder (items.map eventIdGetter) related with
    | none =>
      refine ⟨List.Perm.refl _, fun x y hx hy hg hchain => ?_⟩
      rcases Relation.TransGen.head'_iff.mp hchain with ⟨p, hp, _⟩
      exact absurd hp (not_childOf_of_none h hsort (List.mem_map_of_mem hx))
    | some ordered =>
      rcases topologicallySort_spec h hsort with ⟨hperm, hprecedes⟩
      dsimp only
      constructor
      · have hfilter := hperm.filterMap byId.value?
        rwa [hitems] at hfilter
      · intro x y hx hy hg hchain
        exact (hprecedes _ _ (List.mem_map_of_mem hx) hg hchain).filterMap (hvalue y hy) (hvalue x hx)

/-- The run of one timestamp at the front of sorted items holds all items of it. -/
theorem takeWhile_eq_filter {items : List α} {t : Int}
    (h : items.Pairwise fun a b => timestampGetter a ≤ timestampGetter b) (hle : ∀ a ∈ items, t ≤ timestampGetter a) :
    (items.takeWhile fun other => timestampGetter other = t) =
      (items.filter fun other => timestampGetter other = t) ∧
    ∀ a ∈ items.dropWhile fun other => timestampGetter other = t, t < timestampGetter a := by
  induction items with
  | nil => simp
  | cons x items ih =>
    rw [List.pairwise_cons] at h
    have hx := hle x List.mem_cons_self
    rw [List.takeWhile_cons, List.filter_cons, List.dropWhile_cons]
    by_cases ht : timestampGetter x = t
    · rcases ih h.2 fun a ha => hle a (List.mem_cons_of_mem _ ha) with ⟨htake, hdrop⟩
      simp only [ht, decide_true, if_true]
      exact ⟨by rw [htake], hdrop⟩
    · simp only [ht, decide_false, Bool.false_eq_true, if_false]
      have hlt : t < timestampGetter x := lt_of_le_of_ne hx (Ne.symm ht)
      constructor
      · symm
        rw [List.filter_eq_nil_iff]
        intro a ha
        have hxa := h.1 a ha
        simp only [decide_eq_true_eq]
        omega
      · intro a ha
        rcases List.mem_cons.mp ha with rfl | ha
        · exact hlt
        · have hxa := h.1 a ha
          omega

def idsAt (eventIdGetter : α → String) (timestampGetter : α → Int) (items : List α) (t : Int) : List String :=
  (items.filter fun other => timestampGetter other = t).map eventIdGetter

/-- Regrouping keeps the items and their timestamps in order, and puts ancestors first. -/
theorem groupedItems_spec {items : List α} (hids : (items.map eventIdGetter).Nodup)
    (hsorted : items.Pairwise fun a b => timestampGetter a ≤ timestampGetter b) :
    (groupedItems eventIdGetter timestampGetter inputOrder related items).Perm items ∧
      (groupedItems eventIdGetter timestampGetter inputOrder related items).Pairwise
        (fun a b => timestampGetter a ≤ timestampGetter b) ∧
      ∀ x y, x ∈ items → y ∈ items → timestampGetter y = timestampGetter x →
        Grounded (idsAt eventIdGetter timestampGetter items (timestampGetter x)) related (eventIdGetter x) →
        Relation.TransGen (ChildOf (idsAt eventIdGetter timestampGetter items (timestampGetter x)) related)
          (eventIdGetter x) (eventIdGetter y) →
            Precedes (groupedItems eventIdGetter timestampGetter inputOrder related items) y x := by
  induction items using groupedItems.induct timestampGetter with
  | case1 => simp [groupedItems]
  | case2 x items ih =>
    rw [List.pairwise_cons] at hsorted
    rcases takeWhile_eq_filter hsorted.2 hsorted.1 with ⟨htake, hdrop⟩
    generalize hrun : (items.takeWhile fun other => timestampGetter other = timestampGetter x) = run at htake
    generalize hrest : (items.dropWhile fun other => timestampGetter other = timestampGetter x) = rest at hdrop ih
    have hitems : run ++ rest = items := by
      rw [← hrun, ← hrest]
      exact List.takeWhile_append_dropWhile
    have hcons : x :: run ++ rest = x :: items := by rw [List.cons_append, hitems]
    have hrunAt : ∀ a ∈ x :: run, timestampGetter a = timestampGetter x := by
      intro a ha
      rcases List.mem_cons.mp ha with rfl | ha
      · rfl
      · rw [htake, List.mem_filter, decide_eq_true_iff] at ha
        exact ha.2
    have hidsRun : ((x :: run).map eventIdGetter).Nodup := by
      rw [← hcons, List.map_append] at hids
      exact (List.nodup_append.mp hids).1
    have hidsRest : (rest.map eventIdGetter).Nodup := by
      rw [← hcons, List.map_append] at hids
      exact (List.nodup_append.mp hids).2.1
    have hsortedRest : rest.Pairwise fun a b => timestampGetter a ≤ timestampGetter b := by
      rw [← hrest]
      exact hsorted.2.sublist (List.dropWhile_sublist _)
    rcases ih hidsRest hsortedRest with ⟨hpermRest, hsortedOut, hprecedesRest⟩
    rcases @sortSameTimestampGroup_spec _ _ inputOrder related _ hidsRun
      with ⟨hpermRun, hprecedesRun⟩
    have hfilterRun : (x :: items).filter (fun other => timestampGetter other = timestampGetter x) = x :: run := by
      rw [List.filter_cons, if_pos (by simp), htake]
    rw [groupedItems, hrun, hrest]
    refine ⟨?_, ?_, ?_⟩
    · exact (hpermRun.append hpermRest).trans (List.Perm.of_eq hcons)
    · rw [List.pairwise_append]
      refine ⟨?_, hsortedOut, ?_⟩
      · rw [List.pairwise_iff_forall_sublist]
        intro a b hsub
        have ha := hrunAt a (hpermRun.subset (hsub.subset (by simp)))
        have hb := hrunAt b (hpermRun.subset (hsub.subset (by simp)))
        omega
      · intro a ha b hb
        have hat := hrunAt a (hpermRun.subset ha)
        have hbt := hdrop b (hpermRest.subset hb)
        omega
    · intro a b ha hb htime hg hchain
      by_cases hat : timestampGetter a = timestampGetter x
      · -- both are in the first run
        have hmem : ∀ c ∈ x :: items, timestampGetter c = timestampGetter x → c ∈ x :: run := by
          intro c hc htc
          rw [← hfilterRun, List.mem_filter, decide_eq_true_iff]
          exact ⟨hc, htc⟩
        rw [idsAt, hat, hfilterRun] at hg hchain
        exact (hprecedesRun a b (hmem a ha hat) (hmem b hb (htime.trans hat)) hg hchain).append_right _
      · have hmem : ∀ c ∈ x :: items, timestampGetter c ≠ timestampGetter x → c ∈ rest := by
          intro c hc htc
          rw [← hcons, List.mem_append] at hc
          rcases hc with hc | hc
          · exact absurd (hrunAt c hc) htc
          · exact hc
        have hfilterRest : (x :: items).filter (fun other => timestampGetter other = timestampGetter a) =
            rest.filter fun other => timestampGetter other = timestampGetter a := by
          rw [← hcons, List.filter_append]
          have hnil : (x :: run).filter (fun other => timestampGetter other = timestampGetter a) = [] := by
            rw [List.filter_eq_nil_iff]
            intro c hc
            rw [hrunAt c hc]
            simpa using Ne.symm hat
          rw [hnil, List.nil_append]
        rw [idsAt, hfilterRest] at hg hchain
        exact (hprecedesRest a b (hmem a ha hat) (hmem b hb (htime ▸ hat)) htime hg hchain).append_left _

/-- Moving the root to the front, or not having one. -/
theorem rootFirst_cases (threadId : String) (items : List α) :
    ((∀ item ∈ items, eventIdGetter item ≠ threadId) ∧ rootFirst eventIdGetter threadId items = items) ∨
      ∃ before root after, items = before ++ root :: after ∧ eventIdGetter root = threadId ∧
        rootFirst eventIdGetter threadId items = root :: (before ++ after) := by
  unfold rootFirst
  cases hfind : items.findIdx? (fun item => eventIdGetter item = threadId) with
  | none =>
    left
    refine ⟨?_, rfl⟩
    simpa [List.findIdx?_eq_none_iff] using hfind
  | some n =>
    right
    rcases List.findIdx?_eq_some_iff_getElem.mp hfind with ⟨hn, hroot, _⟩
    refine ⟨items.take n, items[n], items.drop (n + 1), ?_, by simpa using hroot, ?_⟩
    · rw [List.getElem_cons_drop, List.take_append_drop]
    · dsimp only
      rw [List.getElem?_eq_getElem hn, List.eraseIdx_eq_take_drop_succ]
      rfl

/-! ## The law -/

variable (eventIdGetter timestampGetter related) in
/-- `y` is the event `x` relates to, and both are items of one timestamp. -/
def RelatesTo (items : List α) (x y : α) : Prop :=
  x ∈ items ∧ y ∈ items ∧ timestampGetter y = timestampGetter x ∧
    related.value? (eventIdGetter x) = some (eventIdGetter y) ∧ eventIdGetter y ≠ eventIdGetter x

/-- What a sorted thread is: its items with the root first, the others by timestamp, and within one
timestamp each after its ancestors, where their chain is acyclic. -/
structure Sorted (eventIdGetter : α → String) (timestampGetter : α → Int) (threadId : String)
    (related : Mapping String String) (items sorted : List α) : Prop where
  perm : sorted.Perm items
  root : (∃ item ∈ items, eventIdGetter item = threadId) →
    ∃ item rest, sorted = item :: rest ∧ eventIdGetter item = threadId
  chronological : (sorted.filter fun item => eventIdGetter item ≠ threadId).Pairwise
    fun a b => timestampGetter a ≤ timestampGetter b
  ancestors : ∀ x y, eventIdGetter x ≠ threadId →
    AcyclicFrom (RelatesTo eventIdGetter timestampGetter related items) x →
      Relation.TransGen (RelatesTo eventIdGetter timestampGetter related items) x y → Precedes sorted y x

/-- Putting the root of a sorted list first keeps it sorted. -/
theorem rootFirst_sorted {threadId : String} {items sorted : List α} (hids : (sorted.map eventIdGetter).Nodup)
    (hperm : sorted.Perm items) (hsorted : sorted.Pairwise fun a b => timestampGetter a ≤ timestampGetter b)
    (hancestors : ∀ x y, AcyclicFrom (RelatesTo eventIdGetter timestampGetter related items) x →
      Relation.TransGen (RelatesTo eventIdGetter timestampGetter related items) x y → Precedes sorted y x) :
    Sorted eventIdGetter timestampGetter threadId related items (rootFirst eventIdGetter threadId sorted) := by
  rcases @rootFirst_cases _ eventIdGetter threadId sorted with
    ⟨hnone, heq⟩ | ⟨before, root, after, rfl, hroot, heq⟩
  · rw [heq]
    refine ⟨hperm, ?_, hsorted.filter _, fun x y _ => hancestors x y⟩
    rintro ⟨item, hitem, hkey⟩
    exact absurd hkey (hnone item (hperm.mem_iff.mpr hitem))
  · rw [heq]
    -- the root is the one item of its id
    have hothers : (before ++ root :: after).filter (fun item => decide (eventIdGetter item ≠ threadId)) =
        before ++ after := by
      rw [List.map_append, List.map_cons, List.nodup_middle, List.nodup_cons, hroot, ← List.map_append] at hids
      have hne : ∀ item ∈ before ++ after, eventIdGetter item ≠ threadId :=
        fun item hitem hkey => hids.1 (hkey ▸ List.mem_map_of_mem hitem)
      have hbefore : before.filter (fun item => decide (eventIdGetter item ≠ threadId)) = before :=
        List.filter_eq_self.mpr fun item hitem => decide_eq_true (hne item (List.mem_append_left _ hitem))
      have hafter : after.filter (fun item => decide (eventIdGetter item ≠ threadId)) = after :=
        List.filter_eq_self.mpr fun item hitem => decide_eq_true (hne item (List.mem_append_right _ hitem))
      rw [List.filter_append, List.filter_cons, if_neg (by simp [hroot]), hbefore, hafter]
    have hmoved : (root :: (before ++ after)).Perm (before ++ root :: after) := List.perm_middle.symm
    constructor
    · exact hmoved.trans hperm
    · intro _
      exact ⟨root, before ++ after, rfl, hroot⟩
    · have hfilter := hsorted.filter fun item => decide (eventIdGetter item ≠ threadId)
      rw [hothers] at hfilter
      have hfilter' : (root :: (before ++ after)).filter (fun item => decide (eventIdGetter item ≠ threadId)) =
          (before ++ after).filter fun item => decide (eventIdGetter item ≠ threadId) := by
        rw [List.filter_cons, if_neg (by simp [hroot])]
      rw [hfilter']
      exact hfilter.filter _
    · intro x y hx hacyclic hchain
      have hprecedes := hancestors x y hacyclic hchain
      have hxmem : x ∈ before ++ root :: after := by
        rcases hprecedes with ⟨first, last, hlist, _⟩
        rw [hlist]
        simp
      by_cases hy : eventIdGetter y = threadId
      · have hymem : y ∈ before ++ root :: after := by
          rcases hprecedes with ⟨first, last, hlist, hin⟩
          rw [hlist]
          exact List.mem_append_left _ hin
        have hyroot : y = root := List.inj_on_of_nodup_map hids hymem (by simp) (hy.trans hroot.symm)
        subst hyroot
        apply precedes_head
        rw [← hothers, List.mem_filter]
        exact ⟨hxmem, decide_eq_true hx⟩
      · have hkept := hprecedes.filter (p := fun item => decide (eventIdGetter item ≠ threadId))
          (decide_eq_true hy) (decide_eq_true hx)
        rw [hothers] at hkept
        exact hkept.cons root

/-! ### From items to the events of one timestamp -/

section

variable {items sorted : List α}

theorem mem_idsAt (hperm : sorted.Perm items) {t : Int} {e : String} :
    e ∈ idsAt eventIdGetter timestampGetter sorted t ↔ ∃ z ∈ items, timestampGetter z = t ∧ eventIdGetter z = e := by
  unfold idsAt
  simp only [List.mem_map, List.mem_filter, decide_eq_true_iff, hperm.mem_iff, and_assoc]

/-- A relation of items is one of their events. -/
theorem RelatesTo.childOf (hperm : sorted.Perm items) {x y : α}
    (h : RelatesTo eventIdGetter timestampGetter related items x y) :
    ChildOf (idsAt eventIdGetter timestampGetter sorted (timestampGetter x)) related (eventIdGetter x)
      (eventIdGetter y) := by
  rcases h with ⟨_, hy, htime, hrelated, hne⟩
  exact parent?_eq_some.mpr ⟨hrelated, (mem_idsAt hperm).mpr ⟨y, hy, htime, rfl⟩, hne⟩

theorem RelatesTo.transGen (hperm : sorted.Perm items) {x y : α}
    (h : Relation.TransGen (RelatesTo eventIdGetter timestampGetter related items) x y) :
    y ∈ items ∧ timestampGetter y = timestampGetter x ∧
      Relation.TransGen (ChildOf (idsAt eventIdGetter timestampGetter sorted (timestampGetter x)) related)
        (eventIdGetter x) (eventIdGetter y) := by
  induction h with
  | single h => exact ⟨h.2.1, h.2.2.1, .single (h.childOf hperm)⟩
  | tail _ h ih =>
    rcases ih with ⟨_, htime, hchain⟩
    have hstep := h.childOf hperm
    rw [htime] at hstep
    exact ⟨h.2.1, h.2.2.1.trans htime, hchain.tail hstep⟩

/-- A relation of events is one of their items. -/
theorem relatesTo_of_childOf (hperm : sorted.Perm items) {x : α} {p : String} (hx : x ∈ items)
    (h : ChildOf (idsAt eventIdGetter timestampGetter sorted (timestampGetter x)) related (eventIdGetter x) p) :
    ∃ y, RelatesTo eventIdGetter timestampGetter related items x y ∧ eventIdGetter y = p := by
  rcases parent?_eq_some.mp h with ⟨hrelated, hmem, hne⟩
  rcases (mem_idsAt hperm).mp hmem with ⟨y, hy, htime, rfl⟩
  exact ⟨y, ⟨hx, hy, htime, hrelated, hne⟩, rfl⟩

theorem relatesTo_of_reflTransGen (hperm : sorted.Perm items) {x : α} {a : String} (hx : x ∈ items)
    (h : Relation.ReflTransGen (ChildOf (idsAt eventIdGetter timestampGetter sorted (timestampGetter x)) related)
      (eventIdGetter x) a) :
    ∃ z ∈ items, timestampGetter z = timestampGetter x ∧ eventIdGetter z = a ∧
      Relation.ReflTransGen (RelatesTo eventIdGetter timestampGetter related items) x z := by
  induction h with
  | refl => exact ⟨x, hx, rfl, rfl, .refl⟩
  | tail _ h ih =>
    rcases ih with ⟨z, hz, htime, rfl, hchain⟩
    rw [← htime] at h
    rcases relatesTo_of_childOf hperm hz h with ⟨y, hy, rfl⟩
    exact ⟨y, hy.2.1, hy.2.2.1.trans htime, rfl, hchain.tail hy⟩

/-- An acyclic chain of items is an acyclic chain of events. -/
theorem AcyclicFrom.events (hids : (items.map eventIdGetter).Nodup) (hperm : sorted.Perm items) {x : α}
    (hx : x ∈ items) (h : AcyclicFrom (RelatesTo eventIdGetter timestampGetter related items) x) :
    AcyclicFrom (ChildOf (idsAt eventIdGetter timestampGetter sorted (timestampGetter x)) related)
      (eventIdGetter x) := by
  intro a ha hcycle
  rcases relatesTo_of_reflTransGen hperm hx ha with ⟨z, hz, htime, rfl, hchain⟩
  rcases Relation.TransGen.head'_iff.mp hcycle with ⟨p, hp, hback⟩
  rw [← htime] at hp hback
  rcases relatesTo_of_childOf hperm hz hp with ⟨y, hy, rfl⟩
  rw [← hy.2.2.1] at hback
  rcases relatesTo_of_reflTransGen hperm hy.2.1 hback with ⟨z', hz', _, hid, hchain'⟩
  obtain rfl := List.inj_on_of_nodup_map hids hz' hz hid
  exact h z' hchain (Relation.TransGen.head' hy hchain')

end

/-- Sorting the items of a thread leaves them as a sorted thread. -/
theorem sortThreadItemsRootFirst_sorted {items : List α} (hids : (items.map eventIdGetter).Nodup) (threadId : String)
    (related : Option (Mapping String String)) (inputOrder : Option (Mapping String Int)) :
    Sorted eventIdGetter timestampGetter threadId (related.getD ∅) items
      (sortThreadItemsRootFirst eventIdGetter timestampGetter inputOrder threadId related items) := by
  unfold sortThreadItemsRootFirst
  dsimp only
  have hperm := List.perm_insertionSort (fun a b => sortKey eventIdGetter timestampGetter inputOrder a ≤
    sortKey eventIdGetter timestampGetter inputOrder b) items
  have hkeys : (items.insertionSort fun a b => sortKey eventIdGetter timestampGetter inputOrder a ≤
      sortKey eventIdGetter timestampGetter inputOrder b).Pairwise
        fun a b => timestampGetter a ≤ timestampGetter b := by
    have htotal : Std.Total fun a b : α => sortKey eventIdGetter timestampGetter inputOrder a ≤
        sortKey eventIdGetter timestampGetter inputOrder b := ⟨fun a b => le_total _ _⟩
    have htrans : IsTrans α fun a b => sortKey eventIdGetter timestampGetter inputOrder a ≤
        sortKey eventIdGetter timestampGetter inputOrder b := ⟨fun _ _ _ hab hbc => le_trans hab hbc⟩
    have hsorted := List.pairwise_insertionSort (fun a b => sortKey eventIdGetter timestampGetter inputOrder a ≤
      sortKey eventIdGetter timestampGetter inputOrder b) items
    apply hsorted.imp
    intro a b hle
    rcases Prod.Lex.le_iff.mp hle with hlt | heq
    · exact le_of_lt hlt
    · exact le_of_eq heq.1
  generalize (items.insertionSort fun a b => sortKey eventIdGetter timestampGetter inputOrder a ≤
    sortKey eventIdGetter timestampGetter inputOrder b) = byKey at hperm hkeys ⊢
  have hbyKey : (byKey.map eventIdGetter).Nodup := (hperm.map eventIdGetter).nodup_iff.mpr hids
  cases related with
  | none =>
    apply rootFirst_sorted hbyKey hperm hkeys
    intro x y _ hchain
    -- nothing is related
    rcases Relation.TransGen.head'_iff.mp hchain with ⟨z, hz, _⟩
    cases hz.2.2.2.1
  | some related =>
    rcases @groupedItems_spec _ _ _ inputOrder related _ hbyKey hkeys
      with ⟨hgrouped, hchronological, hancestors⟩
    have hids' : ((groupedItems eventIdGetter timestampGetter inputOrder related byKey).map eventIdGetter).Nodup :=
      (hgrouped.map eventIdGetter).nodup_iff.mpr hbyKey
    apply rootFirst_sorted hids' (hgrouped.trans hperm) hchronological
    intro x y hacyclic hchain
    have hx : x ∈ items := by
      rcases Relation.TransGen.head'_iff.mp hchain with ⟨z, hz, _⟩
      exact hz.1
    rcases RelatesTo.transGen hperm hchain with ⟨hy, htime, hevents⟩
    have hxid : eventIdGetter x ∈ idsAt eventIdGetter timestampGetter byKey (timestampGetter x) :=
      (mem_idsAt hperm).mpr ⟨x, hx, rfl, rfl⟩
    exact hancestors x y (hperm.mem_iff.mpr hx) (hperm.mem_iff.mpr hy) htime
      (grounded_of_acyclicFrom hxid (hacyclic.events hids hperm hx)) hevents

end

/-- A thread of one timestamp, with a root, an answer, an answer to it and a cycle of two edits. -/
theorem sorted_thread : Sorted Prod.fst Prod.snd "$root"
    ((((Mapping.set ∅ "$c" "$b").set "$b" "$root").set "$x" "$y").set "$y" "$x")
    [("$c", 2), ("$x", 2), ("$b", 2), ("$y", 2), ("$root", 2), ("$a", 1)]
    (sortThreadItemsRootFirst Prod.fst Prod.snd none "$root"
      (some ((((Mapping.set ∅ "$c" "$b").set "$b" "$root").set "$x" "$y").set "$y" "$x"))
      [("$c", 2), ("$x", 2), ("$b", 2), ("$y", 2), ("$root", 2), ("$a", 1)]) :=
  sortThreadItemsRootFirst_sorted (by decide) "$root"
    (some ((((Mapping.set ∅ "$c" "$b").set "$b" "$root").set "$x" "$y").set "$y" "$x")) none

example : sortThreadItemsRootFirst Prod.fst Prod.snd none "$root"
    (some ((((Mapping.set ∅ "$c" "$b").set "$b" "$root").set "$x" "$y").set "$y" "$x"))
    [("$c", 2), ("$x", 2), ("$b", 2), ("$y", 2), ("$root", 2), ("$a", 1)] =
      [("$root", 2), ("$a", 1), ("$b", 2), ("$c", 2), ("$x", 2), ("$y", 2)] := by decide +kernel

end MindRoom.ThreadOrdering
