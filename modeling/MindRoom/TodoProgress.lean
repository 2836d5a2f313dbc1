import MindRoom.Todos

/-! # Open todos

Which open items of a plan are blocked and which are actionable (`todo_state.py`). In a plan that calls have left, an open
item is actionable or waits in the end for one that is.
-/

namespace MindRoom.Todos

open Relation Precedence

def terminalStatuses : List String := ["done", "cancelled"]

def isBlocked (items : List TodoItem) (item : TodoItem) : Bool :=
  item.dependsOn.any fun depId => (itemById? items depId).any fun dep => dep.status ∉ terminalStatuses

def isActionable (items : List TodoItem) (item : TodoItem) : Bool := item.status = "open" && !isBlocked items item

def Statused (items : List TodoItem) : Prop := ∀ item ∈ items, item.status ∈ validStatuses

def WaitsFor (items : List TodoItem) (a b : String) : Prop :=
  ∃ item ∈ items, item.id = a ∧ item.status = "open" ∧ b ∈ item.dependsOn ∧
    ∃ dep, itemById? items b = some dep ∧ dep.status ∉ terminalStatuses

variable {items created : List TodoItem} {item : TodoItem} {depId : String}

theorem isBlocked_iff : isBlocked items item = true ↔
    ∃ depId ∈ item.dependsOn, ∃ dep, itemById? items depId = some dep ∧ dep.status ∉ terminalStatuses := by
  unfold isBlocked
  simp only [List.any_eq_true, Option.any_eq_true, decide_eq_true_eq]

theorem isActionable_iff : isActionable items item = true ↔ item.status = "open" ∧ isBlocked items item = false := by
  unfold isActionable
  simp

/-! ## The statuses -/

theorem createItems_open {drafts : List Draft} : ∀ {existingIds : List String} {created : List TodoItem},
    createItems existingIds drafts = some created → ∀ item ∈ created, item.status = "open" := by
  induction drafts with
  | nil =>
    rintro existingIds _ ⟨⟩
    exact List.forall_mem_nil _
  | cons draft rest ih =>
    intro existingIds created h
    rcases Option.bind_eq_some_iff.mp h with ⟨newId, -, h⟩
    rcases Option.bind_eq_some_iff.mp h with ⟨later, hlater, ⟨⟩⟩
    exact List.forall_mem_cons.mpr ⟨rfl, ih hlater⟩

theorem linkItems_open {todos : List ExpandedTodo} (h : ∀ item ∈ created, item.status = "open") :
    ∀ item ∈ linkItems created todos, item.status = "open" := by
  intro item hitem
  rcases List.getElem?_of_mem hitem with ⟨i, hi⟩
  unfold linkItems at hi
  rcases List.getElem?_zipWith_eq_some.mp hi with ⟨new, todo, hnew, -, rfl⟩
  exact h new (List.mem_of_getElem? hnew)

theorem Statused.append (h : Statused items) (hcreated : ∀ item ∈ created, item.status = "open") :
    Statused (items ++ created) := by
  refine List.forall_mem_append.mpr ⟨h, fun item hitem => ?_⟩
  rw [hcreated item hitem]
  exact List.mem_cons_self

theorem Statused.run (h : Statused items) {call : Call} {items' : List TodoItem} (hrun : call.run items = some items') :
    Statused items' := by
  cases call with
  | plan drafts =>
    rcases Option.map_eq_some_iff.mp hrun with ⟨created, hcreated, rfl⟩
    exact h.append (createItems_open hcreated)
  | addTodo configured draft dependsOn =>
    unfold Call.run addTodo at hrun
    dsimp only at hrun
    split at hrun
    · cases hrun
      exact h
    · rcases Option.map_eq_some_iff.mp hrun with ⟨created, hcreated, rfl⟩
      exact h.append (List.forall_mem_map.mpr (createItems_open hcreated))
  | updateTodo configured todoId changes =>
    cases hrun
    unfold updateTodo
    split
    · exact h
    · next hchecks =>
      refine List.forall_mem_map.mpr fun item hitem => ?_
      split
      · show (if changes.status = "" then item.status else changes.status) ∈ validStatuses
        split
        · exact h item hitem
        · next hstatus =>
          by_contra hinvalid
          exact hchecks (.inr (.inl ⟨hstatus, hinvalid⟩))
      · exact h item hitem
  | applyTemplate configured defaultAssignee template candidates =>
    unfold Call.run applyTemplate at hrun
    dsimp only at hrun
    split at hrun
    · cases hrun
      exact h
    · split at hrun
      · cases hrun
        exact h
      · rcases Option.map_eq_some_iff.mp hrun with ⟨created, hcreated, rfl⟩
        exact h.append (linkItems_open (createItems_open hcreated))

theorem statused_foldlM {calls : List Call} : ∀ {items items' : List TodoItem}, Statused items →
    calls.foldlM Call.run items = some items' → Statused items' := by
  induction calls with
  | nil =>
    rintro items _ h ⟨⟩
    exact h
  | cons call rest ih =>
    intro items items' h hrun
    rcases Option.bind_eq_some_iff.mp hrun with ⟨between, hfirst, hrest⟩
    exact ih (h.run hfirst) hrest

/-! ## Progress -/

theorem mem_of_itemById? (h : itemById? items depId = some item) : item ∈ items ∧ item.id = depId := by
  refine ⟨List.mem_of_find?_eq_some h, ?_⟩
  simpa using List.find?_some h

/-- In every plan that calls leave, an open item waits, through blocked items, for an actionable one or is one itself. -/
theorem open_todo_leads_to_actionable (calls : List Call) (items : List TodoItem) (hrun : runCalls calls = some items)
    (item : TodoItem) (hitem : item ∈ items) (hopen : item.status = "open") :
    ∃ next ∈ items, isActionable items next = true ∧ ReflTransGen (WaitsFor items) item.id next.id := by
  have hplan : WellFounded items := wellFounded_foldlM wellFounded_nil hrun
  have hstatused : Statused items := statused_foldlM (List.forall_mem_nil _) hrun
  have hacyclic : Acyclic (WaitsFor items) := by
    intro a hcycle
    refine hplan.acyclic a (TransGen.mono (fun x y hxy => ?_) a a hcycle)
    rcases hxy with ⟨item, hitem, hid, -, hdep, -⟩
    exact ⟨item, hitem, hid, hdep⟩
  have hmem : ∀ id, id ∈ ((items.filter (·.status = "open")).map TodoItem.id).toFinset ↔
      ∃ item ∈ items, item.status = "open" ∧ item.id = id := by
    simp [and_assoc]
  rcases hacyclic.exists_sink _ item.id ((hmem item.id).mpr ⟨item, hitem, hopen, rfl⟩) with ⟨m, hm, hpath, hsink⟩
  rcases (hmem m).mp hm with ⟨next, hnext, hopen, rfl⟩
  refine ⟨next, hnext, isActionable_iff.mpr ⟨hopen, ?_⟩, hpath⟩
  rw [Bool.eq_false_iff]
  intro hblocked
  rcases isBlocked_iff.mp hblocked with ⟨depId, hdepId, dep, hdep, hstatus⟩
  refine hsink depId ((hmem depId).mpr ?_) ⟨next, hnext, rfl, hopen, hdepId, dep, hdep, hstatus⟩
  rcases mem_of_itemById? hdep with ⟨hmem, hid⟩
  exact ⟨dep, hmem, (List.mem_cons.mp (hstatused dep hmem)).resolve_right hstatus, hid⟩

theorem open_todo_leads_to_actionable_single : ∃ next ∈ [(⟨"a0", "Plan", "open", "high", [], ""⟩ : TodoItem)],
    isActionable [⟨"a0", "Plan", "open", "high", [], ""⟩] next = true ∧
      ReflTransGen (WaitsFor [⟨"a0", "Plan", "open", "high", [], ""⟩]) "a0" next.id :=
  open_todo_leads_to_actionable [.plan [{ title := "Plan", priority := "high", assignedAgent := "", candidates := ["a0"] }]]
    _ rfl ⟨"a0", "Plan", "open", "high", [], ""⟩ List.mem_cons_self rfl

end MindRoom.Todos
