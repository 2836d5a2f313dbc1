import MindRoom.TodoTemplates
import MindRoom.WhileLoop

/-! # Todo plans

The tools of `todo.py` that write the work plan of a thread. Every call reads the items, makes its checks and writes the
items back under a lock; a call that refuses leaves them as they are. Texts are given stripped and priorities in lower
case; the lists of dependencies are the ids that a call is given. A new id is the first of the candidates drawn that no
item has. Times are left out.
-/

namespace MindRoom

open Relation Precedence TodoTemplates

structure TodoItem where
  id : String
  title : String
  status : String
  priority : String
  dependsOn : List String
  assignedAgent : String

namespace Todos

/-! ## The program -/

def validPriorities : List String := ["low", "medium", "high", "critical"]

def validStatuses : List String := ["open", "done", "cancelled"]

def isUnknownAgent (configured : List String) (agentName : String) : Prop :=
  agentName ≠ "" ∧ configured ≠ [] ∧ agentName ∉ configured

instance (configured : List String) (agentName : String) : Decidable (isUnknownAgent configured agentName) :=
  inferInstanceAs (Decidable (_ ∧ _ ∧ _))

def shortId (existingIds candidates : List String) : Option String := candidates.find? (· ∉ existingIds)

def itemById? (items : List TodoItem) (id : String) : Option TodoItem := items.find? (·.id = id)

/-- One round of the search for a path: the stack, and what was seen. -/
def searchRound (items : List TodoItem) (itemId : String) (s : List String × List String) :
    Option (WhileLoop.Round (List String × List String) Bool) :=
  match s.1 with
  | [] => some (.leave false)
  | current :: stack =>
    if current = itemId then some (.leave true)
    else if current ∈ s.2 then some (.again (stack, s.2))
    else
      let deps := ((itemById? items current).map TodoItem.dependsOn).getD []
      some (.again (deps.reverse ++ stack, current :: s.2))

def unseenDeps (items : List TodoItem) (seen : List String) : Nat :=
  ((items.filter (·.id ∉ seen)).map (·.dependsOn.length)).sum

def wouldCreateCycle (items : List TodoItem) (itemId newDepId : String) : Option Bool :=
  WhileLoop.run (searchRound items itemId) (unseenDeps items [] + 2) ([newDepId], [])

/-- The text of a new item, and the ids drawn for it. -/
structure Draft where
  title : String
  priority : String
  assignedAgent : String
  candidates : List String

/-- New items, each with an id of its own. -/
def createItems (existingIds : List String) : List Draft → Option (List TodoItem)
  | [] => some []
  | draft :: rest => do
      let newId ← shortId existingIds draft.candidates
      let created ← createItems (newId :: existingIds) rest
      return {
        id := newId, title := draft.title, status := "open", priority := draft.priority, dependsOn := []
        assignedAgent := draft.assignedAgent } :: created

def plan (drafts : List Draft) (items : List TodoItem) : Option (List TodoItem) :=
  (createItems (items.map TodoItem.id) drafts).map (items ++ ·)

def addTodo (configured : List String) (draft : Draft) (dependsOn : List String) (items : List TodoItem) :
    Option (List TodoItem) :=
  if draft.title = "" ∨ draft.priority ∉ validPriorities ∨ isUnknownAgent configured draft.assignedAgent ∨
      ¬ ∀ dep ∈ dependsOn, dep ∈ items.map TodoItem.id then some items
  else
    (createItems (items.map TodoItem.id) [draft]).map fun created =>
      items ++ created.map fun item => { item with dependsOn := dependsOn }

/-- The fields that an update may change; empty texts change nothing. -/
structure TodoChanges where
  title : String
  priority : String
  status : String
  dependsOn : Option (List String)
  assignedAgent : String

def TodoChanges.apply (changes : TodoChanges) (item : TodoItem) : TodoItem where
  id := item.id
  title := if changes.title = "" then item.title else changes.title
  status := if changes.status = "" then item.status else changes.status
  priority := if changes.priority = "" then item.priority else changes.priority
  dependsOn := changes.dependsOn.getD item.dependsOn
  assignedAgent := if changes.assignedAgent = "" then item.assignedAgent else changes.assignedAgent

/-- An item may depend on another: it is there, it is not the item itself, and no path leads back. -/
def MayDepend (items : List TodoItem) (todoId dep : String) : Prop :=
  dep ∈ items.map TodoItem.id ∧ dep ≠ todoId ∧ wouldCreateCycle items todoId dep = some false

instance (items : List TodoItem) (todoId dep : String) : Decidable (MayDepend items todoId dep) :=
  inferInstanceAs (Decidable (_ ∧ _ ∧ _))

def updateTodo (configured : List String) (todoId : String) (changes : TodoChanges) (items : List TodoItem) :
    List TodoItem :=
  if (changes.priority ≠ "" ∧ changes.priority ∉ validPriorities) ∨
      (changes.status ≠ "" ∧ changes.status ∉ validStatuses) ∨ isUnknownAgent configured changes.assignedAgent ∨
      todoId ∉ items.map TodoItem.id ∨ ¬ ∀ dep ∈ changes.dependsOn.getD [], MayDepend items todoId dep then items
  else items.map fun item => if item.id = todoId then changes.apply item else item

/-- The created items depend on one another as the expanded todos do. -/
def linkItems (created : List TodoItem) (todos : List ExpandedTodo) : List TodoItem :=
  List.zipWith (fun item todo =>
    { item with dependsOn := todo.dependsOn.filterMap fun dep => created[dep - 1]?.map TodoItem.id }) created todos

/-- The ids drawn for the todos come with the call. -/
def applyTemplate (configured : List String) (defaultAssignee : String) (template : List TemplateTodo)
    (candidates : Nat → List String) (items : List TodoItem) : Option (List TodoItem) :=
  match renderTemplateDefinition 1 template with
  | none => some items
  | some todos =>
    let drafts := todos.mapIdx fun i todo =>
      { title := todo.title, priority := todo.priority
        assignedAgent := if todo.assignedAgent = "" then defaultAssignee else todo.assignedAgent
        candidates := candidates i }
    if ∃ draft ∈ drafts, isUnknownAgent configured draft.assignedAgent then some items
    else (createItems (items.map TodoItem.id) drafts).map fun created => items ++ linkItems created todos

inductive Call
  | plan (drafts : List Draft)
  | addTodo (configured : List String) (draft : Draft) (dependsOn : List String)
  | updateTodo (configured : List String) (todoId : String) (changes : TodoChanges)
  | applyTemplate (configured : List String) (defaultAssignee : String) (template : List TemplateTodo)
      (candidates : Nat → List String)

/-- What a call leaves, unless it draws ids without end. -/
def Call.run (items : List TodoItem) : Call → Option (List TodoItem)
  | .plan drafts => Todos.plan drafts items
  | .addTodo configured draft dependsOn => Todos.addTodo configured draft dependsOn items
  | .updateTodo configured todoId changes => some (Todos.updateTodo configured todoId changes items)
  | .applyTemplate configured defaultAssignee template candidates =>
    Todos.applyTemplate configured defaultAssignee template candidates items

/-! ## Well-founded plans -/

def Needs (items : List TodoItem) (a b : String) : Prop := ∃ item ∈ items, item.id = a ∧ b ∈ item.dependsOn

/-- The ids are distinct, every dependency is the id of an item, and no item depends on itself. -/
structure WellFounded (items : List TodoItem) : Prop where
  distinct : (items.map TodoItem.id).Nodup
  named : ∀ a b, Needs items a b → b ∈ items.map TodoItem.id
  acyclic : Acyclic (Needs items)

section

variable {items created : List TodoItem} {itemId dep : String} {drafts : List Draft} {existingIds : List String}

theorem wellFounded_nil : WellFounded [] where
  distinct := List.nodup_nil
  named := by
    rintro a b ⟨item, hitem, -⟩
    cases hitem
  acyclic := by
    intro a hcycle
    rcases TransGen.head'_iff.mp hcycle with ⟨b, ⟨item, hitem, -⟩, -⟩
    cases hitem

theorem itemById?_of_mem (hdistinct : (items.map TodoItem.id).Nodup) {item : TodoItem} (h : item ∈ items) :
    itemById? items item.id = some item := by
  unfold itemById?
  cases hfound : items.find? (·.id = item.id) with
  | none => exact absurd (decide_eq_true rfl) (List.find?_eq_none.mp hfound item h)
  | some other =>
    have hid : decide (other.id = item.id) = true := by simpa using List.find?_some hfound
    rw [List.inj_on_of_nodup_map hdistinct (List.mem_of_find?_eq_some hfound) h (of_decide_eq_true hid)]

theorem unseenDeps_cons {seen : List String} {current : String} (hseen : current ∉ seen) :
    unseenDeps items (current :: seen) + (((itemById? items current).map TodoItem.dependsOn).getD []).length ≤
      unseenDeps items seen := by
  unfold unseenDeps itemById?
  induction items with
  | nil => exact le_rfl
  | cons item items ih =>
    by_cases hitem : item.id = current
    · rw [List.find?_cons_of_pos (by simpa using hitem)]
      have hle : ((items.filter (·.id ∉ current :: seen)).map (·.dependsOn.length)).sum ≤
          ((items.filter (·.id ∉ seen)).map (·.dependsOn.length)).sum := by omega
      rw [List.filter_cons_of_neg (by simp [hitem]), List.filter_cons_of_pos (by simpa [hitem] using hseen),
        List.map_cons, List.sum_cons]
      simp only [Option.map_some, Option.getD_some]
      omega
    · rw [List.find?_cons_of_neg (by simpa using hitem)]
      by_cases hold : item.id ∈ seen
      · rw [List.filter_cons_of_neg (by simp [hold]), List.filter_cons_of_neg (by simp [hold])]
        exact ih
      · rw [List.filter_cons_of_pos (by simp [hitem, hold]), List.filter_cons_of_pos (by simp [hold]), List.map_cons,
          List.map_cons, List.sum_cons, List.sum_cons]
        omega

/-- The search has seen an id or has it on the stack. -/
def Known (s : List String × List String) (a : String) : Prop := a ∈ s.2 ∨ a ∈ s.1

theorem Known.skip {stack seen : List String} {current a : String} (h : Known (current :: stack, seen) a)
    (hseen : current ∈ seen) : Known (stack, seen) a := by
  rcases h with h | h
  · exact .inl h
  · rcases List.mem_cons.mp h with rfl | h
    · exact .inl hseen
    · exact .inr h

theorem Known.expand {stack seen : List String} {current a : String} (h : Known (current :: stack, seen) a)
    (deps : List String) : Known (deps ++ stack, current :: seen) a := by
  rcases h with h | h
  · exact .inl (List.mem_cons_of_mem _ h)
  · rcases List.mem_cons.mp h with rfl | h
    · exact .inl List.mem_cons_self
    · exact .inr (List.mem_append_right _ h)

/-- What is seen is not the item, and all that it leads to is known. -/
structure Search (items : List TodoItem) (itemId newDepId : String) (s : List String × List String) : Prop where
  start : Known s newDepId
  other : itemId ∉ s.2
  closed : ∀ a ∈ s.2, ∀ b, Needs items a b → Known s b

/-- The search ends, and when it finds no path there is none. -/
theorem wouldCreateCycle_spec (hdistinct : (items.map TodoItem.id).Nodup) (itemId newDepId : String) :
    ∃ found, wouldCreateCycle items itemId newDepId = some found ∧
      (found = false → ¬ ReflTransGen (Needs items) newDepId itemId) := by
  refine WhileLoop.run_total (Search items itemId newDepId)
    (fun found => found = false → ¬ ReflTransGen (Needs items) newDepId itemId)
    (fun s => s.1.length + unseenDeps items s.2) ?_ ?_ ?_
  · rintro ⟨stack, seen⟩ hs
    cases stack with
    | nil =>
      refine .inl ⟨false, rfl, fun _ hpath => hs.other ?_⟩
      have hclosed : ∀ b, ReflTransGen (Needs items) newDepId b → b ∈ seen := by
        intro b hb
        induction hb with
        | refl => exact hs.start.resolve_right List.not_mem_nil
        | tail _ hbc ih => exact (hs.closed _ ih _ hbc).resolve_right List.not_mem_nil
      exact hclosed itemId hpath
    | cons current stack =>
      by_cases hitem : current = itemId
      · exact .inl ⟨true, if_pos hitem, fun h => nomatch h⟩
      · by_cases hseen : current ∈ seen
        · refine .inr ⟨(stack, seen), (if_neg hitem).trans (if_pos hseen), ⟨hs.start.skip hseen, hs.other, ?_⟩, ?_⟩
          · exact fun a ha b hab => (hs.closed a ha b hab).skip hseen
          · exact Nat.add_lt_add_right (Nat.lt_succ_self stack.length) (unseenDeps items seen)
        · refine .inr ⟨_, (if_neg hitem).trans (if_neg hseen), ⟨hs.start.expand _, ?_, ?_⟩, ?_⟩
          · exact fun hmem => (List.mem_cons.mp hmem).elim (fun heq => hitem heq.symm) hs.other
          · intro a ha b hab
            rcases List.mem_cons.mp ha with rfl | ha
            · rcases hab with ⟨item, hmem, rfl, hb⟩
              refine .inr (List.mem_append_left _ (List.mem_reverse.mpr ?_))
              rw [itemById?_of_mem hdistinct hmem]
              exact hb
            · exact (hs.closed a ha b hab).expand _
          · have hle := @unseenDeps_cons items _ _ hseen
            simp only [List.length_append, List.length_reverse, List.length_cons]
            omega
  · exact ⟨.inr List.mem_cons_self, List.not_mem_nil, fun a ha => absurd ha List.not_mem_nil⟩
  · show 1 + unseenDeps items [] < unseenDeps items [] + 2
    omega

theorem shortId_fresh {candidates : List String} {newId : String} (h : shortId existingIds candidates = some newId) :
    newId ∉ existingIds := by
  simpa using List.find?_some h

/-- The new items have ids of their own and depend on nothing yet. -/
theorem createItems_spec : ∀ {existingIds : List String} {created : List TodoItem},
    createItems existingIds drafts = some created → (created.map TodoItem.id).Nodup ∧
      (∀ id ∈ created.map TodoItem.id, id ∉ existingIds) ∧ (∀ item ∈ created, item.dependsOn = []) ∧
      created.length = drafts.length := by
  induction drafts with
  | nil =>
    rintro existingIds _ ⟨⟩
    exact ⟨List.nodup_nil, List.forall_mem_nil _, List.forall_mem_nil _, rfl⟩
  | cons draft rest ih =>
    intro existingIds created h
    rcases Option.bind_eq_some_iff.mp h with ⟨newId, hnew, h⟩
    rcases Option.bind_eq_some_iff.mp h with ⟨later, hlater, ⟨⟩⟩
    rcases ih hlater with ⟨hnodup, hfresh, hdeps, hlength⟩
    refine ⟨List.nodup_cons.mpr ⟨fun hmem => ?_, hnodup⟩, ?_, ?_, congrArg (· + 1) hlength⟩
    · exact hfresh newId hmem List.mem_cons_self
    · refine List.forall_mem_cons.mpr ⟨shortId_fresh hnew, fun id hid hold => ?_⟩
      exact hfresh id hid (List.mem_cons_of_mem _ hold)
    · exact List.forall_mem_cons.mpr ⟨rfl, hdeps⟩

/-- New items join a plan when their ids are new, their dependencies are named, and they have no cycle among them. -/
theorem WellFounded.append (h : WellFounded items) (hdistinct : (created.map TodoItem.id).Nodup)
    (hfresh : ∀ id ∈ created.map TodoItem.id, id ∉ items.map TodoItem.id)
    (hnamed : ∀ a b, Needs created a b → b ∈ (items ++ created).map TodoItem.id)
    (hacyclic : Acyclic fun a b => b ∉ items.map TodoItem.id ∧ Needs created a b) : WellFounded (items ++ created) := by
  have hneeds : ∀ a b, Needs (items ++ created) a b → Needs items a b ∨ Needs created a b := by
    rintro a b ⟨item, hitem, hb⟩
    rcases List.mem_append.mp hitem with hitem | hitem
    · exact .inl ⟨item, hitem, hb⟩
    · exact .inr ⟨item, hitem, hb⟩
  have hcreated : ∀ a b, Needs created a b → a ∉ items.map TodoItem.id := by
    rintro a b ⟨item, hitem, rfl, -⟩
    exact hfresh item.id (List.mem_map_of_mem hitem)
  refine ⟨?_, ?_, acyclic_of_closed (p := fun a => a ∈ items.map TodoItem.id) ?_ ?_ ?_⟩
  · rw [List.map_append]
    exact h.distinct.append hdistinct fun id hold hnew => hfresh id hnew hold
  · intro a b hab
    rcases hneeds a b hab with hab | hab
    · rw [List.map_append]
      exact List.mem_append_left _ (h.named a b hab)
    · exact hnamed a b hab
  · intro a b ha hab
    rcases hneeds a b hab with hab | hab
    · exact h.named a b hab
    · exact absurd ha (hcreated a b hab)
  · intro a hcycle
    refine h.acyclic a (TransGen.mono (fun x y hxy => ?_) a a hcycle)
    exact (hneeds x y hxy.2).resolve_right fun hnew => hcreated x y hnew hxy.1
  · intro a hcycle
    refine hacyclic a (TransGen.mono (fun x y hxy => ⟨hxy.1, ?_⟩) a a hcycle)
    exact (hneeds x y hxy.2).resolve_left fun hold => hxy.1 (h.named x y hold)

theorem WellFounded.plan (h : WellFounded items) {items' : List TodoItem} (hrun : plan drafts items = some items') :
    WellFounded items' := by
  rcases Option.map_eq_some_iff.mp hrun with ⟨created, hcreated, rfl⟩
  rcases createItems_spec hcreated with ⟨hdistinct, hfresh, hdeps, -⟩
  have hnone : ∀ a b, ¬ Needs created a b := by
    rintro a b ⟨item, hitem, -, hb⟩
    rw [hdeps item hitem] at hb
    cases hb
  refine h.append hdistinct hfresh (fun a b hab => absurd hab (hnone a b)) fun a hcycle => ?_
  rcases TransGen.head'_iff.mp hcycle with ⟨b, ⟨-, hab⟩, -⟩
  exact hnone a b hab

theorem WellFounded.addTodo (h : WellFounded items) {configured dependsOn : List String} {draft : Draft}
    {items' : List TodoItem} (hrun : addTodo configured draft dependsOn items = some items') : WellFounded items' := by
  unfold Todos.addTodo at hrun
  split at hrun
  · cases hrun
    exact h
  · next hchecks =>
    rw [not_or, not_or, not_or] at hchecks
    rcases Option.map_eq_some_iff.mp hrun with ⟨created, hcreated, rfl⟩
    rcases createItems_spec hcreated with ⟨hdistinct, hfresh, -, -⟩
    have hids : (created.map fun item : TodoItem => { item with dependsOn := dependsOn }).map TodoItem.id =
        created.map TodoItem.id := by
      rw [List.map_map]
      rfl
    have hneeds : ∀ a b, Needs (created.map fun item : TodoItem => { item with dependsOn := dependsOn }) a b →
        b ∈ items.map TodoItem.id := by
      rintro a b ⟨item, hitem, -, hb⟩
      rcases List.mem_map.mp hitem with ⟨item, -, rfl⟩
      exact not_not.mp hchecks.2.2.2 b hb
    refine h.append (hids ▸ hdistinct) (hids ▸ hfresh) (fun a b hab => ?_) fun a hcycle => ?_
    · rw [List.map_append]
      exact List.mem_append_left _ (hneeds a b hab)
    · rcases TransGen.head'_iff.mp hcycle with ⟨b, ⟨hnew, hab⟩, -⟩
      exact hnew (hneeds a b hab)

theorem WellFounded.updateTodo (h : WellFounded items) (configured : List String) (todoId : String)
    (changes : TodoChanges) : WellFounded (updateTodo configured todoId changes items) := by
  unfold Todos.updateTodo
  split
  · exact h
  · next hchecks =>
    rw [not_or, not_or, not_or, not_or, not_not, not_not] at hchecks
    rcases hchecks with ⟨-, -, -, -, hdeps⟩
    have hids : (items.map fun item => if item.id = todoId then changes.apply item else item).map TodoItem.id =
        items.map TodoItem.id := by
      rw [List.map_map]
      refine List.map_congr_left fun item _ => ?_
      show (if item.id = todoId then changes.apply item else item).id = item.id
      split <;> rfl
    -- an edge of the changed plan is one of the old plan, or a new dependency of the changed item
    have hneeds : ∀ a b, Needs (items.map fun item => if item.id = todoId then changes.apply item else item) a b →
        Needs items a b ∨ a = todoId ∧ b ∈ changes.dependsOn.getD [] := by
      rintro a b ⟨item, hitem, rfl, hb⟩
      rcases List.mem_map.mp hitem with ⟨item, hmem, rfl⟩
      by_cases heq : item.id = todoId
      · rw [if_pos heq] at hb ⊢
        cases hchanges : changes.dependsOn with
        | none =>
          refine .inl ⟨item, hmem, rfl, ?_⟩
          rwa [TodoChanges.apply, hchanges] at hb
        | some deps =>
          refine .inr ⟨heq, ?_⟩
          rwa [TodoChanges.apply, hchanges] at hb
      · rw [if_neg heq] at hb ⊢
        exact .inl ⟨item, hmem, rfl, hb⟩
    refine ⟨hids ▸ h.distinct, fun a b hab => ?_, ?_⟩
    · rw [hids]
      rcases hneeds a b hab with hab | ⟨-, hb⟩
      · exact h.named a b hab
      · exact (hdeps b hb).1
    · refine h.acyclic.redirect (t := todoId) (s := fun b => Needs items todoId b ∨ b ∈ changes.dependsOn.getD [])
        (fun a b ha hab => (hneeds a b hab).resolve_right fun hnew => ha hnew.1)
        (fun b hab => (hneeds _ b hab).imp_right And.right) ?_
      rintro b (hold | hb) hpath
      · exact h.acyclic todoId (.head' hold hpath)
      · rcases wouldCreateCycle_spec h.distinct todoId b with ⟨found, hfound, hspec⟩
        rw [(hdeps b hb).2.2] at hfound
        cases hfound
        exact hspec rfl hpath

/-- The ids of the created items are those of the expanded todos, in their order. -/
theorem map_id_linkItems {todos : List ExpandedTodo} (hlength : created.length = todos.length) :
    (linkItems created todos).map TodoItem.id = created.map TodoItem.id := by
  unfold linkItems
  rw [List.map_zipWith]
  refine List.ext_getElem? fun i => ?_
  rw [List.getElem?_zipWith, List.getElem?_map]
  cases hitem : created[i]? with
  | none => rfl
  | some item =>
    have hlt := (List.getElem?_eq_some_iff.mp hitem).1
    rw [List.getElem?_eq_getElem (hlength ▸ hlt)]
    rfl

def At (created : List TodoItem) (x : Nat) (a : String) : Prop := 0 < x ∧ (created.map TodoItem.id)[x - 1]? = some a

theorem At.unique (hdistinct : (created.map TodoItem.id).Nodup) {x y : Nat} {a : String} (hx : At created x a)
    (hy : At created y a) : x = y := by
  have hlt := (List.getElem?_eq_some_iff.mp hx.2).1
  have heq := (List.getElem?_inj hlt hdistinct).mp (hx.2.trans hy.2.symm)
  have hx := hx.1
  have hy := hy.1
  omega

/-- The items of a template depend on one another as its todos do. -/
theorem needs_linkItems {todos : List ExpandedTodo} (hrange : ∀ todo ∈ todos, ∀ dep ∈ todo.dependsOn, 0 < dep)
    {a b : String} (h : Needs (linkItems created todos) a b) :
    ∃ x y, DependsOn todos 0 x y ∧ At created x a ∧ At created y b := by
  rcases h with ⟨item, hitem, rfl, hb⟩
  rcases List.getElem?_of_mem hitem with ⟨i, hi⟩
  unfold linkItems at hi
  rw [List.getElem?_zipWith] at hi
  cases hcreated : created[i]? with
  | none =>
    rw [hcreated] at hi
    cases hi
  | some new =>
    cases htodo : todos[i]? with
    | none =>
      rw [hcreated, htodo] at hi
      cases hi
    | some todo =>
      rw [hcreated, htodo] at hi
      cases hi
      rcases List.mem_filterMap.mp hb with ⟨y, hy, hid⟩
      refine ⟨i + 1, y, ⟨i, todo, htodo, by omega, hy⟩, ⟨Nat.succ_pos i, ?_⟩,
        hrange todo (List.mem_of_getElem? htodo) y hy, ?_⟩
      · rw [Nat.add_sub_cancel, List.getElem?_map, hcreated]
        rfl
      · rw [List.getElem?_map]
        exact hid

theorem acyclic_linkItems {todos : List ExpandedTodo} (hdistinct : (created.map TodoItem.id).Nodup)
    (hrange : ∀ todo ∈ todos, ∀ dep ∈ todo.dependsOn, 0 < dep) (hacyclic : Acyclic (DependsOn todos 0)) :
    Acyclic (Needs (linkItems created todos)) := by
  have hpath : ∀ a b, TransGen (Needs (linkItems created todos)) a b →
      ∃ x y, TransGen (DependsOn todos 0) x y ∧ At created x a ∧ At created y b := by
    intro a b hab
    induction hab with
    | single hab =>
      rcases needs_linkItems hrange hab with ⟨x, y, hxy, hx, hy⟩
      exact ⟨x, y, .single hxy, hx, hy⟩
    | tail _ hbc ih =>
      rcases ih with ⟨x, y, hxy, hx, hy⟩
      rcases needs_linkItems hrange hbc with ⟨y', z, hyz, hy', hz⟩
      rw [hy'.unique hdistinct hy] at hyz
      exact ⟨x, z, hxy.tail hyz, hx, hz⟩
  intro a hcycle
  rcases hpath a a hcycle with ⟨x, y, hxy, hx, hy⟩
  rw [hy.unique hdistinct hx] at hxy
  exact hacyclic x hxy

theorem WellFounded.applyTemplate (h : WellFounded items) {configured : List String} {defaultAssignee : String}
    {template : List TemplateTodo} {candidates : Nat → List String} {items' : List TodoItem}
    (hrun : applyTemplate configured defaultAssignee template candidates items = some items') : WellFounded items' := by
  unfold Todos.applyTemplate at hrun
  split at hrun
  · cases hrun
    exact h
  · next todos htodos =>
    rcases render_laid htodos with ⟨_, -, -, -, hrendered⟩
    dsimp only at hrun
    split at hrun
    · cases hrun
      exact h
    · rcases Option.map_eq_some_iff.mp hrun with ⟨created, hcreated, rfl⟩
      rcases createItems_spec hcreated with ⟨hdistinct, hfresh, -, hlength⟩
      rw [List.length_mapIdx] at hlength
      have hids := map_id_linkItems hlength
      have hrange : ∀ todo ∈ todos, ∀ dep ∈ todo.dependsOn, 0 < dep := fun todo htodo dep hdep =>
        (hrendered.inRange todo htodo dep hdep).1
      refine h.append (hids ▸ hdistinct) (hids ▸ hfresh) (fun a b hab => ?_) fun a hcycle => ?_
      · rcases needs_linkItems hrange hab with ⟨x, y, -, -, hy⟩
        rw [List.map_append, hids]
        exact List.mem_append_right _ (List.mem_of_getElem? hy.2)
      · exact acyclic_linkItems hdistinct hrange hrendered.acyclic a (TransGen.mono (fun _ _ => And.right) a a hcycle)

theorem WellFounded.run (h : WellFounded items) {call : Call} {items' : List TodoItem}
    (hrun : call.run items = some items') : WellFounded items' := by
  cases call with
  | plan drafts => exact h.plan hrun
  | addTodo configured draft dependsOn => exact h.addTodo hrun
  | updateTodo configured todoId changes =>
    cases hrun
    exact h.updateTodo configured todoId changes
  | applyTemplate configured defaultAssignee template candidates => exact h.applyTemplate hrun

end

/-- The items that calls leave in a scope, one after the other. -/
def runCalls (calls : List Call) : Option (List TodoItem) := calls.foldlM Call.run []

theorem wellFounded_foldlM {calls : List Call} : ∀ {items items' : List TodoItem}, WellFounded items →
    calls.foldlM Call.run items = some items' → WellFounded items' := by
  induction calls with
  | nil =>
    rintro items _ h ⟨⟩
    exact h
  | cons call rest ih =>
    intro items items' h hrun
    rcases Option.bind_eq_some_iff.mp hrun with ⟨between, hfirst, hrest⟩
    exact ih (h.run hfirst) hrest

/-- What the expansion of a template promises: every dependency is the number of a todo, there is no cycle, and wherever
in the tree an entry depends on another, every todo expanded from the first transitively depends on every todo expanded
from the second. -/
structure OrderedExpansion (template : List TemplateTodo) (expanded : List ExpandedTodo) : Prop where
  length : expanded.length = sizes template
  inRange : ∀ todo ∈ expanded, ∀ dep ∈ todo.dependsOn, 1 ≤ dep ∧ dep ≤ expanded.length
  acyclic : Acyclic (DependsOn expanded 0)
  ordered : ∀ todos offset, Nested template todos offset → ∀ i entry, todos[i]? = some entry →
    ∀ dep ∈ entry.dependsOn, ∀ x y, ExpandedFrom todos i x → ExpandedFrom todos (dep - 1).toNat y →
      TransGen (DependsOn expanded 0) (offset + x) (offset + y)

/-- Every sequence of calls leaves a well-founded plan, and every template that expands keeps its order. -/
theorem todos_wellFounded : (∀ calls items, runCalls calls = some items → WellFounded items) ∧
      ∀ template expanded, renderTemplateDefinition 1 template = some expanded → OrderedExpansion template expanded := by
  constructor
  · intro calls items hrun
    exact wellFounded_foldlM wellFounded_nil hrun
  · intro template expanded hrender
    rcases render_laid hrender with ⟨_, -, -, -, hrendered⟩
    exact {
      length := hrendered.length
      inRange := fun todo htodo dep hdep => by
        have hrange := hrendered.inRange todo htodo dep hdep
        exact ⟨hrange.1, by have := hrange.2; omega⟩
      acyclic := hrendered.acyclic
      ordered := fun todos offset hnested i entry hentry dep hdep x y hx hy =>
        expanded_ordered hrender hnested hentry hdep hx hy }

/-- A change is reviewed, and merged after the review. -/
def reviewTemplate : List TemplateTodo :=
  [.todo "Implement" "high" "" [], .sub [1] [.todo "Review" "medium" "" [], .todo "Fix" "medium" "" [1]],
    .todo "Merge" "low" "" [2]]

example : (renderTemplateDefinition 1 reviewTemplate).map (·.map ExpandedTodo.dependsOn) = some [[], [1], [2], [3]] := rfl

def reviewCalls : List Call :=
  [.plan [{ title := "Plan", priority := "high", assignedAgent := "", candidates := ["a0"] }],
    .applyTemplate [] "" reviewTemplate fun i => ["a0", "a1", "a2", "a3", "a4"].drop i]

theorem todos_wellFounded_review : (∃ items, runCalls reviewCalls = some items ∧ WellFounded items) ∧
      ∃ expanded, renderTemplateDefinition 1 reviewTemplate = some expanded ∧
        OrderedExpansion reviewTemplate expanded := by
  constructor
  · have hrun : (runCalls reviewCalls).isSome := rfl
    rcases Option.isSome_iff_exists.mp hrun with ⟨items, hitems⟩
    exact ⟨items, hitems, todos_wellFounded.1 reviewCalls items hitems⟩
  · have hrender : (renderTemplateDefinition 1 reviewTemplate).isSome := rfl
    rcases Option.isSome_iff_exists.mp hrender with ⟨expanded, hexpanded⟩
    exact ⟨expanded, hexpanded, todos_wellFounded.2 reviewTemplate expanded hexpanded⟩

end Todos

end MindRoom
