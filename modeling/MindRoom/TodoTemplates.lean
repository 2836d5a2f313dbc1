import Mathlib
import MindRoom.Precedence

/-! # Todo templates

The expansion of todo templates in `todo.py`. A rendered template is a list of entries, each a todo or a nested template,
with the numbers of the entries it depends on. Expanding it numbers the todos of the nested templates with an offset, and
makes the todos of an entry that depend on no todo of the entry wait for the last todos of the entries it depends on.

The rendering of the texts is not part of the model: a template is the tree of its rendered documents.
-/

namespace MindRoom

open Relation Precedence

inductive TemplateTodo
  | todo (title priority assignedAgent : String) (dependsOn : List Int)
  | sub (dependsOn : List Int) (todos : List TemplateTodo)

structure ExpandedTodo where
  title : String
  priority : String
  assignedAgent : String
  dependsOn : List Nat

/-- A todo during the expansion, with the entries that its own entry depends on. -/
structure PendingTodo where
  todo : ExpandedTodo
  parentDependsOn : List Int

/-- Expanded roots and terminal leaves for one authored template item. -/
structure ExpandedTemplateIndex where
  roots : List Nat
  terminals : List Nat

structure Expansion where
  expanded : List PendingTodo
  indexMap : List ExpandedTemplateIndex

def TemplateTodo.dependsOn : TemplateTodo → List Int
  | .todo _ _ _ dependsOn => dependsOn
  | .sub dependsOn _ => dependsOn

/-- One todo of a list depends on another, by their numbers. -/
def DependsOn (todos : List ExpandedTodo) (offset x y : Nat) : Prop :=
  ∃ i todo, todos[i]? = some todo ∧ x = offset + i + 1 ∧ y ∈ todo.dependsOn

namespace TodoTemplates

def templateRecursionLimit : Nat := 3

/-! ## The program -/

/-- One call of the search for a cycle. The fuel is never used up: the stack holds different numbers of todos. -/
def visit (todos : List ExpandedTodo) : Nat → List Nat → List Nat → Nat → Option (List Nat)
  | 0, _, _, _ => none
  | fuel + 1, stack, finished, nodeId =>
    if nodeId ∈ stack then none
    else if nodeId ∈ finished then some finished
    else do
      let todo ← todos[nodeId - 1]?
      let finished ← todo.dependsOn.foldlM (visit todos fuel (nodeId :: stack)) finished
      return nodeId :: finished

/-- The check that raises when the todos have a dependency cycle. -/
def validateDependencyCycle (todos : List ExpandedTodo) : Option (List Nat) :=
  (List.range' 1 todos.length).foldlM (visit todos (todos.length + 1) []) []

def validateDependsOnIndexes (todos : List TemplateTodo) : Bool :=
  todos.all fun entry => entry.dependsOn.all fun dep => decide (1 ≤ dep ∧ dep ≤ todos.length)

/-- The dependencies of a todo among the numbers from the start to the end. -/
def internalDeps (expanded : List ExpandedTodo) (startIndex endIndex index : Nat) : List Nat :=
  ((expanded[index - 1]?.map ExpandedTodo.dependsOn).getD []).filter fun dep => startIndex ≤ dep ∧ dep ≤ endIndex

def expandedTemplateIndex (expanded : List ExpandedTodo) (startIndex endIndex : Nat) : ExpandedTemplateIndex :=
  let indexes := List.range' startIndex (endIndex + 1 - startIndex)
  { roots := indexes.filter fun index => internalDeps expanded startIndex endIndex index = []
    terminals := indexes.filter fun index =>
      index ∉ indexes.flatMap (internalDeps expanded startIndex endIndex) }

def shift (offset : Nat) (child : ExpandedTodo) : ExpandedTodo :=
  { child with dependsOn := child.dependsOn.map (· + offset) }

/-- The todos of a nested template join the expansion, and its roots get the dependencies of the entry. -/
def Expansion.extend (state : Expansion) (dependsOn : List Int) (children : List ExpandedTodo) : Expansion :=
  let offset := state.expanded.length
  let shifted := children.map (shift offset)
  let index := expandedTemplateIndex (state.expanded.map PendingTodo.todo ++ shifted) (offset + 1)
    (offset + children.length)
  { expanded := state.expanded ++ shifted.mapIdx fun i child =>
      { todo := child, parentDependsOn := if offset + i + 1 ∈ index.roots then dependsOn else [] }
    indexMap := state.indexMap ++ [index] }

/-- The dependencies on entries become dependencies on the last todos of these entries. -/
def PendingTodo.resolve (indexMap : List ExpandedTemplateIndex) (item : PendingTodo) : ExpandedTodo :=
  { item.todo with
    dependsOn := item.todo.dependsOn ++ item.parentDependsOn.flatMap fun dep =>
      (indexMap[(dep - 1).toNat]?.map ExpandedTemplateIndex.terminals).getD [] }

def Expansion.resolve (state : Expansion) : List ExpandedTodo := state.expanded.map (PendingTodo.resolve state.indexMap)

/-- What a template definition checks before and after its entries are expanded. -/
def finishTemplate (depth : Nat) (todos : List TemplateTodo) (expansion : Option Expansion) :
    Option (List ExpandedTodo) :=
  if depth > templateRecursionLimit ∨ todos = [] ∨ validateDependsOnIndexes todos = false then none
  else do
    let state ← expansion
    let _ ← validateDependencyCycle (Expansion.resolve state)
    return Expansion.resolve state

mutual

def expandTodo (depth : Nat) (state : Expansion) : TemplateTodo → Option Expansion
  | .todo title priority assignedAgent dependsOn =>
    let flatIndex := state.expanded.length + 1
    some {
      expanded := state.expanded ++
        [{ todo := { title, priority, assignedAgent, dependsOn := [] }, parentDependsOn := dependsOn }]
      indexMap := state.indexMap ++ [{ roots := [flatIndex], terminals := [flatIndex] }] }
  | .sub dependsOn todos =>
    (finishTemplate (depth + 1) todos (expandTodos (depth + 1) { expanded := [], indexMap := [] } todos)).map
      (Expansion.extend state dependsOn)

def expandTodos (depth : Nat) (state : Expansion) : List TemplateTodo → Option Expansion
  | [] => some state
  | entry :: rest => (expandTodo depth state entry).bind fun state => expandTodos depth state rest

end

def renderTemplateDefinition (depth : Nat) (todos : List TemplateTodo) : Option (List ExpandedTodo) :=
  finishTemplate depth todos (expandTodos depth { expanded := [], indexMap := [] } todos)

/-! ## What is expanded from an entry -/

mutual

/-- The number of todos that an entry expands to. -/
def size : TemplateTodo → Nat
  | .todo _ _ _ _ => 1
  | .sub _ todos => sizes todos

def sizes : List TemplateTodo → Nat
  | [] => 0
  | entry :: rest => size entry + sizes rest

end

/-- The todo with a number in the expansion of a template comes from an entry of it. -/
def ExpandedFrom (todos : List TemplateTodo) (i x : Nat) : Prop :=
  ∃ entry, todos[i]? = some entry ∧ sizes (todos.take i) < x ∧ x ≤ sizes (todos.take i) + size entry

/-- A template is nested in another, and its todos come after an offset there. -/
inductive Nested (root : List TemplateTodo) : List TemplateTodo → Nat → Prop
  | root : Nested root root 0
  | sub {todos child : List TemplateTodo} {offset i : Nat} {dependsOn : List Int} (h : Nested root todos offset)
      (hentry : todos[i]? = some (.sub dependsOn child)) : Nested root child (offset + sizes (todos.take i))

/-! ## The search for a cycle -/

section

variable {todos : List ExpandedTodo} {stack finished finished' : List Nat}

def next (todos : List ExpandedTodo) (nodeId : Nat) : List Nat :=
  (todos[nodeId - 1]?.map ExpandedTodo.dependsOn).getD []

/-- What a part of the search may do to the numbers it has finished. -/
structure Searched (todos : List ExpandedTodo) (stack finished finished' : List Nat) : Prop where
  sorted : Finished (next todos) finished → Finished (next todos) finished'
  kept : ∀ n ∈ finished, n ∈ finished'
  fresh : ∀ n ∈ stack, n ∉ finished → n ∉ finished'

theorem searched_foldlM {fuel : Nat} {ns : List Nat}
    (hvisit : ∀ n finished finished', visit todos fuel stack finished n = some finished' →
      Searched todos stack finished finished' ∧ n ∈ finished') :
    ∀ {finished finished'}, ns.foldlM (visit todos fuel stack) finished = some finished' →
      Searched todos stack finished finished' ∧ ∀ n ∈ ns, n ∈ finished' := by
  induction ns with
  | nil =>
    rintro finished _ ⟨⟩
    exact ⟨⟨id, fun _ hn => hn, fun _ _ hn => hn⟩, List.forall_mem_nil _⟩
  | cons n ns ih =>
    intro finished finished' h
    rcases Option.bind_eq_some_iff.mp h with ⟨between, hfirst, hrest⟩
    rcases hvisit n finished between hfirst with ⟨hfirst, hn⟩
    rcases ih hrest with ⟨hrest, hns⟩
    refine ⟨⟨hrest.sorted ∘ hfirst.sorted, fun m hm => hrest.kept m (hfirst.kept m hm), ?_⟩, ?_⟩
    · exact fun m hm hnot => hrest.fresh m hm (hfirst.fresh m hm hnot)
    · exact List.forall_mem_cons.mpr ⟨hrest.kept n hn, hns⟩

theorem searched_visit (fuel : Nat) : ∀ {stack : List Nat} (n : Nat) (finished finished' : List Nat),
    visit todos fuel stack finished n = some finished' → Searched todos stack finished finished' ∧ n ∈ finished' := by
  induction fuel with
  | zero =>
    intro _ _ _ _ h
    cases h
  | succ fuel ih =>
    intro stack n finished finished' h
    unfold visit at h
    split at h
    · cases h
    · next hstack =>
      split at h
      · next hdone =>
        cases h
        exact ⟨⟨id, fun _ hm => hm, fun _ _ hm => hm⟩, hdone⟩
      · next hnew =>
        rcases Option.bind_eq_some_iff.mp h with ⟨todo, htodo, h⟩
        rcases Option.bind_eq_some_iff.mp h with ⟨between, hbetween, ⟨⟩⟩
        rcases searched_foldlM (fun m _ _ => ih m _ _) hbetween with ⟨hsearched, hdeps⟩
        have hnext : next todos n = todo.dependsOn := by
          unfold next
          rw [htodo]
          rfl
        refine ⟨⟨fun hfinished => ⟨?_, ?_, hsearched.sorted hfinished⟩, ?_, ?_⟩, List.mem_cons_self⟩
        · exact hsearched.fresh n List.mem_cons_self hnew
        · rw [hnext]
          exact hdeps
        · exact fun m hm => List.mem_cons_of_mem _ (hsearched.kept m hm)
        · intro m hm hnot hmem
          rcases List.mem_cons.mp hmem with rfl | hmem
          · exact hstack hm
          · exact hsearched.fresh m (List.mem_cons_of_mem _ hm) hnot hmem

/-- Todos that pass the check have no dependency cycle. -/
theorem acyclic_of_validate (h : validateDependencyCycle todos = some finished) : Acyclic (DependsOn todos 0) := by
  rcases searched_foldlM (fun n _ _ => searched_visit _ n _ _) h with ⟨hsearched, hall⟩
  intro a hcycle
  have hpath : TransGen (fun a b => b ∈ next todos a) a a := by
    refine TransGen.mono (fun x y hxy => ?_) a a hcycle
    rcases hxy with ⟨i, todo, htodo, rfl, hy⟩
    unfold next
    rw [Nat.zero_add, Nat.add_sub_cancel, htodo]
    exact hy
  have ha : a ∈ finished := by
    rcases TransGen.head'_iff.mp hcycle with ⟨_, ⟨i, todo, htodo, rfl, -⟩, -⟩
    refine hall _ (List.mem_range'_1.mpr ?_)
    have hlt := (List.getElem?_eq_some_iff.mp htodo).1
    omega
  exact ((hsearched.sorted trivial).acyclic a ha a hpath).2 rfl

end

/-! ## The block of an entry -/

section

variable {depth offset i : Nat} {entry : TemplateTodo} {todos es : List TemplateTodo} {state state' : Expansion}
  {ts ts' : List ExpandedTodo} {block : List PendingTodo} {index : ExpandedTemplateIndex}

theorem sizes_append (es : List TemplateTodo) (e : TemplateTodo) : sizes (es ++ [e]) = sizes es + size e := by
  induction es with
  | nil =>
    show size e + 0 = 0 + size e
    omega
  | cons e' es ih =>
    show size e' + sizes (es ++ [e]) = size e' + sizes es + size e
    omega

def InRange (offset length x : Nat) : Prop := offset < x ∧ x ≤ offset + length

theorem DependsOn.append {x y : Nat} (before after : List ExpandedTodo) (h : DependsOn ts (offset + before.length) x y) :
    DependsOn (before ++ ts ++ after) offset x y := by
  rcases h with ⟨i, todo, htodo, rfl, hy⟩
  refine ⟨before.length + i, todo, ?_, by omega, hy⟩
  have hlt := (List.getElem?_eq_some_iff.mp htodo).1
  rw [List.append_assoc, List.getElem?_append_right (by omega), Nat.add_sub_cancel_left, List.getElem?_append_left hlt,
    htodo]

/-- What the todos of a template are: as many as its entries expand to, with dependencies among them and no cycle. -/
structure Rendered (todos : List TemplateTodo) (ts : List ExpandedTodo) : Prop where
  length : ts.length = sizes todos
  inRange : ∀ todo ∈ ts, ∀ dep ∈ todo.dependsOn, InRange 0 ts.length dep
  acyclic : Acyclic (DependsOn ts 0)

/-- What one entry adds to the expansion after an offset. -/
structure Block (depth : Nat) (entry : TemplateTodo) (offset : Nat) (block : List PendingTodo)
    (index : ExpandedTemplateIndex) : Prop where
  length : block.length = size entry
  inRange : ∀ item ∈ block, ∀ dep ∈ item.todo.dependsOn, InRange offset block.length dep
  parents : ∀ item ∈ block, ∀ dep ∈ item.parentDependsOn, dep ∈ entry.dependsOn
  terminals : ∀ t ∈ index.terminals, InRange offset block.length t
  reached : ∀ y, InRange offset block.length y →
    ∃ t ∈ index.terminals, ReflTransGen (DependsOn (block.map PendingTodo.todo) offset) t y
  rooted : ∀ x, InRange offset block.length x → ∃ j item, block[j]? = some item ∧
    ReflTransGen (DependsOn (block.map PendingTodo.todo) offset) x (offset + j + 1) ∧
    ∀ dep ∈ entry.dependsOn, dep ∈ item.parentDependsOn
  nested : ∀ dependsOn child, entry = .sub dependsOn child → ∃ ts, renderTemplateDefinition (depth + 1) child = some ts ∧
    block.map PendingTodo.todo = ts.map (shift offset)

/-- Entries whose blocks are laid one after the other. -/
inductive Laid (depth : Nat) : List TemplateTodo → Expansion → Prop
  | nil : Laid depth [] { expanded := [], indexMap := [] }
  | snoc {es : List TemplateTodo} {state : Expansion} {entry : TemplateTodo} {block : List PendingTodo}
      {index : ExpandedTemplateIndex} (h : Laid depth es state)
      (hblock : Block depth entry state.expanded.length block index) :
      Laid depth (es ++ [entry]) { expanded := state.expanded ++ block, indexMap := state.indexMap ++ [index] }

theorem Laid.length (h : Laid depth es state) :
    state.expanded.length = sizes es ∧ state.indexMap.length = es.length := by
  induction h with
  | nil => exact ⟨rfl, rfl⟩
  | snoc _ hblock ih => simp [sizes_append, ih.1, ih.2, hblock.length]

theorem Laid.blockOf (h : Laid depth es state) : ∀ {i entry}, es[i]? = some entry → ∃ before block after index,
    state.expanded = before ++ block ++ after ∧ before.length = sizes (es.take i) ∧ state.indexMap[i]? = some index ∧
      Block depth entry before.length block index := by
  induction h with
  | nil => exact fun hentry => nomatch hentry
  | @snoc es state last block index h hblock ih =>
    intro i entry hentry
    by_cases hi : i < es.length
    · rw [List.getElem?_append_left hi] at hentry
      rcases ih hentry with ⟨before, block', after, index', heq, hlength, hindex, hblock'⟩
      refine ⟨before, block', after ++ block, index', ?_, ?_, ?_, hblock'⟩
      · rw [heq, List.append_assoc]
      · rw [hlength, List.take_append_of_le_length (Nat.le_of_lt hi)]
      · rw [List.getElem?_append_left (by rw [h.length.2]; exact hi), hindex]
    · have hlast : i = es.length ∧ last = entry := by
        have hlt := (List.getElem?_eq_some_iff.mp hentry).1
        rw [List.length_append, List.length_singleton] at hlt
        have hi : i = es.length := by omega
        rw [hi, List.getElem?_concat_length] at hentry
        exact ⟨hi, Option.some.inj hentry⟩
      rcases hlast with ⟨rfl, rfl⟩
      refine ⟨state.expanded, block, [], index, (List.append_nil _).symm, ?_, ?_, hblock⟩
      · rw [h.length.1, List.take_left]
      · rw [← h.length.2, List.getElem?_concat_length]

/-- Every todo is in the block of an entry. -/
theorem Laid.mem (h : Laid depth es state) : ∀ item ∈ state.expanded,
    (∀ dep ∈ item.todo.dependsOn, InRange 0 state.expanded.length dep) ∧
      ∀ dep ∈ item.parentDependsOn, ∃ entry ∈ es, dep ∈ entry.dependsOn := by
  induction h with
  | nil => exact List.forall_mem_nil _
  | @snoc es state last block index _ hblock ih =>
    intro item hitem
    rcases List.mem_append.mp hitem with hbefore | hlast
    · refine ⟨fun dep hdep => ?_, fun dep hdep => ?_⟩
      · rcases (ih item hbefore).1 dep hdep with ⟨hlow, hhigh⟩
        rw [List.length_append]
        exact ⟨by omega, by omega⟩
      · rcases (ih item hbefore).2 dep hdep with ⟨entry, hentry, hdep⟩
        exact ⟨entry, List.mem_append_left _ hentry, hdep⟩
    · refine ⟨fun dep hdep => ?_, fun dep hdep => ?_⟩
      · rcases hblock.inRange item hlast dep hdep with ⟨hlow, hhigh⟩
        rw [List.length_append]
        exact ⟨by omega, by omega⟩
      · exact ⟨last, List.mem_append_right _ (List.mem_singleton_self _), hblock.parents item hlast dep hdep⟩

/-! ## The block of a nested template -/

theorem dependsOn_shift {x y : Nat} (h : DependsOn ts 0 x y) :
    DependsOn (ts.map (shift offset)) offset (offset + x) (offset + y) := by
  rcases h with ⟨i, todo, htodo, rfl, hy⟩
  refine ⟨i, shift offset todo, ?_, by omega, ?_⟩
  · rw [List.getElem?_map, htodo, Option.map_some]
  · exact List.mem_map.mpr ⟨y, hy, Nat.add_comm _ _⟩

/-- Among the todos of the nested template, its own dependencies are all there are. -/
theorem internalDeps_shift (h : Rendered todos ts) {before : List ExpandedTodo} {todo : ExpandedTodo}
    (htodo : ts[i]? = some todo) :
    internalDeps (before ++ ts.map (shift before.length)) (before.length + 1) (before.length + ts.length)
      (before.length + i + 1) = (shift before.length todo).dependsOn := by
  unfold internalDeps
  rw [Nat.add_sub_cancel, List.getElem?_append_right (Nat.le_add_right _ _), Nat.add_sub_cancel_left, List.getElem?_map,
    htodo, Option.map_some, Option.map_some, Option.getD_some, List.filter_eq_self]
  intro dep hdep
  rcases List.mem_map.mp hdep with ⟨d, hd, rfl⟩
  rcases h.inRange todo (List.mem_of_getElem? htodo) d hd with ⟨hlow, hhigh⟩
  exact decide_eq_true (by omega)

theorem block_extend (h : Rendered todos ts) (hrender : renderTemplateDefinition (depth + 1) todos = some ts)
    (dependsOn : List Int) (state : Expansion) : ∃ block index,
      Expansion.extend state dependsOn ts = { expanded := state.expanded ++ block, indexMap := state.indexMap ++ [index] } ∧
        Block depth (.sub dependsOn todos) state.expanded.length block index := by
  refine ⟨_, _, rfl, ?_⟩
  have hbefore : (state.expanded.map PendingTodo.todo).length = state.expanded.length := List.length_map _
  generalize state.expanded.map PendingTodo.todo = before at hbefore
  rw [← hbefore]
  generalize hindex : expandedTemplateIndex (before ++ ts.map (shift before.length)) (before.length + 1)
    (before.length + ts.length) = index
  generalize hblock : (ts.map (shift before.length)).mapIdx (fun i child =>
    ({ todo := child, parentDependsOn := if before.length + i + 1 ∈ index.roots then dependsOn else [] } :
      PendingTodo)) = block
  have hmap : block.map PendingTodo.todo = ts.map (shift before.length) := by
    rw [← hblock]
    refine List.ext_getElem? fun i => ?_
    rw [List.getElem?_map, List.getElem?_mapIdx, Option.map_map]
    exact Option.map_id'
  have hlength : block.length = ts.length := by
    rw [← List.length_map (f := PendingTodo.todo), hmap, List.length_map]
  have hnumbers : ∀ x, x ∈ List.range' (before.length + 1) (before.length + ts.length + 1 - (before.length + 1)) ↔
      ∃ i, i < ts.length ∧ x = before.length + i + 1 := by
    intro x
    rw [List.mem_range'_1]
    constructor
    · intro hx
      exact ⟨x - before.length - 1, by omega, by omega⟩
    · rintro ⟨i, hi, rfl⟩
      omega
  have hdeps : ∀ i (hi : i < ts.length), internalDeps (before ++ ts.map (shift before.length)) (before.length + 1)
      (before.length + ts.length) (before.length + i + 1) = (shift before.length ts[i]).dependsOn :=
    fun i hi => internalDeps_shift h (List.getElem?_eq_getElem hi)
  have hpath : ∀ {x y}, ReflTransGen (DependsOn ts 0) x y →
      ReflTransGen (DependsOn (block.map PendingTodo.todo) before.length) (before.length + x) (before.length + y) := by
    intro x y hxy
    rw [hmap]
    exact ReflTransGen.lift (before.length + ·) (fun _ _ => dependsOn_shift) _ _ hxy
  refine ⟨hlength.trans h.length, ?_, ?_, ?_, ?_, ?_, ?_⟩
  · intro item hitem dep hdep
    have hmem : item.todo ∈ ts.map (shift before.length) := hmap ▸ List.mem_map_of_mem hitem
    rcases List.mem_map.mp hmem with ⟨todo, htodo, heq⟩
    rw [← heq] at hdep
    rcases List.mem_map.mp hdep with ⟨d, hd, rfl⟩
    rcases h.inRange todo htodo d hd with ⟨hlow, hhigh⟩
    exact ⟨by omega, by omega⟩
  · intro item hitem dep hdep
    rw [← hblock] at hitem
    rcases List.mem_mapIdx.mp hitem with ⟨i, hi, rfl⟩
    by_cases hroot : before.length + i + 1 ∈ index.roots
    · rwa [if_pos hroot] at hdep
    · rw [if_neg hroot] at hdep
      cases hdep
  · intro t ht
    rw [← hindex] at ht
    rcases (hnumbers t).mp (List.mem_of_mem_filter ht) with ⟨i, hi, rfl⟩
    exact ⟨by omega, by omega⟩
  · intro y hy
    rcases hy with ⟨hlow, hhigh⟩
    rcases h.acyclic.swap.exists_sink (Finset.Icc 1 ts.length) (y - before.length)
      (Finset.mem_Icc.mpr (by omega)) with ⟨m, hm, hreach, hlast⟩
    rw [Finset.mem_Icc] at hm
    refine ⟨before.length + m, ?_, ?_⟩
    · rw [← hindex]
      refine List.mem_filter.mpr ⟨(hnumbers _).mpr ⟨m - 1, by omega, by omega⟩, decide_eq_true fun hmem => ?_⟩
      rcases List.mem_flatMap.mp hmem with ⟨x, hx, hdep⟩
      rcases (hnumbers x).mp hx with ⟨i, hi, rfl⟩
      rw [hdeps i hi] at hdep
      rcases List.mem_map.mp hdep with ⟨d, hd, heq⟩
      have hdm : d = m := by omega
      exact hlast (i + 1) (Finset.mem_Icc.mpr (by omega))
        ⟨i, ts[i], List.getElem?_eq_getElem hi, by omega, hdm ▸ hd⟩
    · have hpath' := hpath (reflTransGen_swap.mp hreach)
      rwa [Nat.add_sub_cancel' (Nat.le_of_lt hlow)] at hpath'
  · intro x hx
    rcases hx with ⟨hlow, hhigh⟩
    rcases h.acyclic.exists_sink (Finset.Icc 1 ts.length) (x - before.length)
      (Finset.mem_Icc.mpr (by omega)) with ⟨m, hm, hreach, hlast⟩
    rw [Finset.mem_Icc] at hm
    have hi : m - 1 < ts.length := by omega
    have hroot : before.length + (m - 1) + 1 ∈ index.roots := by
      rw [← hindex]
      refine List.mem_filter.mpr ⟨(hnumbers _).mpr ⟨m - 1, hi, rfl⟩, decide_eq_true ?_⟩
      rw [hdeps _ hi]
      refine List.map_eq_nil_iff.mpr (List.eq_nil_iff_forall_not_mem.mpr fun d hd => ?_)
      rcases h.inRange ts[m - 1] (List.getElem_mem hi) d hd with ⟨hlow, hhigh⟩
      exact hlast d (Finset.mem_Icc.mpr (by omega))
        ⟨m - 1, ts[m - 1], List.getElem?_eq_getElem hi, by omega, hd⟩
    refine ⟨m - 1, { todo := shift before.length ts[m - 1], parentDependsOn := dependsOn }, ?_, ?_, fun _ => id⟩
    · rw [← hblock, List.getElem?_mapIdx, List.getElem?_map, List.getElem?_eq_getElem hi]
      simp only [Option.map_some, if_pos hroot]
    · have hpath' := hpath hreach
      rwa [Nat.add_sub_cancel' (Nat.le_of_lt hlow), show before.length + m = before.length + (m - 1) + 1 by omega] at hpath'
  · rintro _ _ ⟨⟩
    exact ⟨ts, hrender, hmap⟩

/-! ## The whole expansion -/

/-- A template whose expansion returns has valid indexes, and its expanded todos pass the check for cycles. -/
theorem finishTemplate_spec {expansion : Option Expansion} (h : finishTemplate depth todos expansion = some ts) :
    validateDependsOnIndexes todos = true ∧ ∃ state finished, expansion = some state ∧ ts = Expansion.resolve state ∧
      validateDependencyCycle ts = some finished := by
  unfold finishTemplate at h
  rw [Option.ite_none_left_eq_some, not_or, not_or, Bool.not_eq_false] at h
  rcases h with ⟨⟨-, -, hvalid⟩, h⟩
  rcases Option.bind_eq_some_iff.mp h with ⟨state, hstate, h⟩
  rcases Option.bind_eq_some_iff.mp h with ⟨finished, hfinished, ⟨⟩⟩
  exact ⟨hvalid, state, finished, hstate, rfl, hfinished⟩

/-- A valid index names an entry, and the entry has its block. -/
theorem Laid.target (h : Laid depth todos state) (hvalid : validateDependsOnIndexes todos = true)
    (hentry : entry ∈ todos) {dep : Int} (hdep : dep ∈ entry.dependsOn) : ∃ target before block after index,
    todos[(dep - 1).toNat]? = some target ∧ state.expanded = before ++ block ++ after ∧
      before.length = sizes (todos.take (dep - 1).toNat) ∧ state.indexMap[(dep - 1).toNat]? = some index ∧
      Block depth target before.length block index := by
  have hrange := of_decide_eq_true (List.all_eq_true.mp (List.all_eq_true.mp hvalid entry hentry) dep hdep)
  have hlt : (dep - 1).toNat < todos.length := by omega
  rcases h.blockOf (List.getElem?_eq_getElem hlt) with ⟨before, block, after, index, hblock⟩
  exact ⟨_, before, block, after, index, List.getElem?_eq_getElem hlt, hblock⟩

theorem Laid.rendered (h : Laid depth todos state) (hrender : renderTemplateDefinition depth todos = some ts)
    (hstate : expandTodos depth { expanded := [], indexMap := [] } todos = some state) : Rendered todos ts := by
  rcases finishTemplate_spec hrender with ⟨hvalid, state', finished, hstate', rfl, hfinished⟩
  rw [hstate] at hstate'
  cases hstate'
  have hlength : (Expansion.resolve state).length = state.expanded.length := List.length_map _
  refine ⟨hlength.trans h.length.1, ?_, acyclic_of_validate hfinished⟩
  intro todo htodo dep hdep
  rw [hlength]
  rcases List.mem_map.mp htodo with ⟨item, hitem, rfl⟩
  rcases List.mem_append.mp hdep with hdep | hdep
  · exact (h.mem item hitem).1 dep hdep
  · rcases List.mem_flatMap.mp hdep with ⟨parent, hparent, hdep⟩
    rcases (h.mem item hitem).2 parent hparent with ⟨entry, hentry, hparent⟩
    rcases h.target hvalid hentry hparent with ⟨_, before, block, after, index, -, heq, -, hindex, hblock⟩
    rw [hindex] at hdep
    rcases hblock.terminals dep hdep with ⟨hlow, hhigh⟩
    rw [heq, List.length_append, List.length_append]
    exact ⟨by omega, by omega⟩

mutual

theorem expandTodo_block (depth : Nat) : ∀ (entry : TemplateTodo) {state state' : Expansion},
    expandTodo depth state entry = some state' → ∃ block index,
      state' = { expanded := state.expanded ++ block, indexMap := state.indexMap ++ [index] } ∧
        Block depth entry state.expanded.length block index
  | .todo title priority assignedAgent dependsOn, state, state', h => by
      rw [expandTodo] at h
      cases h
      refine ⟨_, _, rfl, rfl, ?_, ?_, ?_, ?_, ?_, fun _ _ hsub => nomatch hsub⟩
      · exact List.forall_mem_singleton.mpr (List.forall_mem_nil _)
      · exact List.forall_mem_singleton.mpr fun _ => id
      · exact List.forall_mem_singleton.mpr ⟨Nat.lt_succ_self _, le_rfl⟩
      · rintro y ⟨hlow, hhigh⟩
        rw [List.length_singleton] at hhigh
        exact ⟨_, List.mem_singleton_self _, by rw [show y = state.expanded.length + 1 by omega]⟩
      · rintro x ⟨hlow, hhigh⟩
        rw [List.length_singleton] at hhigh
        exact ⟨0, _, rfl, by rw [show x = state.expanded.length + 1 by omega], fun _ => id⟩
  | .sub dependsOn todos, state, state', h => by
      rw [expandTodo] at h
      rcases Option.map_eq_some_iff.mp h with ⟨ts, hts, rfl⟩
      rcases finishTemplate_spec hts with ⟨-, inner, -, hinner, -, -⟩
      exact block_extend ((expandTodos_laid (depth + 1) todos .nil hinner).rendered hts hinner) hts dependsOn state

theorem expandTodos_laid (depth : Nat) : ∀ (rest : List TemplateTodo) {es : List TemplateTodo} {state state' : Expansion},
    Laid depth es state → expandTodos depth state rest = some state' → Laid depth (es ++ rest) state'
  | [], es, state, state', hlaid, h => by
      rw [expandTodos] at h
      cases h
      rwa [List.append_nil]
  | entry :: rest, es, state, state', hlaid, h => by
      rw [expandTodos] at h
      rcases Option.bind_eq_some_iff.mp h with ⟨between, hentry, hrest⟩
      rcases expandTodo_block depth entry hentry with ⟨block, index, rfl, hblock⟩
      have hlaid' := expandTodos_laid depth rest (.snoc hlaid hblock) hrest
      rwa [List.append_assoc] at hlaid'

end

/-- The expansion of a template lays the blocks of its entries, with valid indexes and no cycle. -/
theorem render_laid (h : renderTemplateDefinition depth todos = some ts) : ∃ state, Laid depth todos state ∧
    ts = Expansion.resolve state ∧ validateDependsOnIndexes todos = true ∧ Rendered todos ts := by
  rcases finishTemplate_spec h with ⟨hvalid, state, finished, hstate, hts, hfinished⟩
  have hlaid : Laid depth todos state := expandTodos_laid depth todos .nil hstate
  exact ⟨state, hlaid, hts, hvalid, hlaid.rendered h hstate⟩

theorem dependsOn_resolve {x y : Nat} (h : DependsOn (state.expanded.map PendingTodo.todo) offset x y) :
    DependsOn (Expansion.resolve state) offset x y := by
  rcases h with ⟨i, todo, htodo, rfl, hy⟩
  rw [List.getElem?_map] at htodo
  rcases Option.map_eq_some_iff.mp htodo with ⟨item, hitem, rfl⟩
  refine ⟨i, PendingTodo.resolve state.indexMap item, ?_, rfl, List.mem_append_left _ hy⟩
  unfold Expansion.resolve
  rw [List.getElem?_map, hitem, Option.map_some]

/-- The dependencies in a block are dependencies of the whole. -/
theorem dependsOn_block {before after : List PendingTodo} (heq : state.expanded = before ++ block ++ after) {x y : Nat}
    (h : DependsOn (block.map PendingTodo.todo) before.length x y) : DependsOn (Expansion.resolve state) 0 x y := by
  refine dependsOn_resolve ?_
  rw [heq, List.map_append, List.map_append]
  refine DependsOn.append _ _ ?_
  rwa [List.length_map, Nat.zero_add]

/-- Within one template, the todos of an entry come after those of the entries it depends on. -/
theorem Laid.ordered (h : Laid depth todos state) (hvalid : validateDependsOnIndexes todos = true)
    (hentry : todos[i]? = some entry) {dep : Int} (hdep : dep ∈ entry.dependsOn) {x y : Nat}
    (hx : ExpandedFrom todos i x) (hy : ExpandedFrom todos (dep - 1).toNat y) :
    TransGen (DependsOn (Expansion.resolve state) 0) x y := by
  rcases h.blockOf hentry with ⟨before, block, after, index, heq, hlength, -, hblock⟩
  rcases h.target hvalid (List.mem_of_getElem? hentry) hdep with
    ⟨target, before', block', after', index', htarget, heq', hlength', hindex', hblock'⟩
  rcases hx with ⟨entry', hentry', hx⟩
  rw [hentry] at hentry'
  cases hentry'
  rcases hy with ⟨target', htarget', hy⟩
  rw [htarget] at htarget'
  cases htarget'
  rw [← hlength, ← hblock.length] at hx
  rw [← hlength', ← hblock'.length] at hy
  rcases hblock.rooted x hx with ⟨j, item, hitem, hroot, hparents⟩
  rcases hblock'.reached y hy with ⟨t, ht, hreach⟩
  have hj := (List.getElem?_eq_some_iff.mp hitem).1
  -- the root waits for every terminal of the entry that its own entry depends on
  have hedge : DependsOn (Expansion.resolve state) 0 (before.length + j + 1) t := by
    refine ⟨before.length + j, PendingTodo.resolve state.indexMap item, ?_, by omega, ?_⟩
    · unfold Expansion.resolve
      rw [List.getElem?_map, heq, List.append_assoc, List.getElem?_append_right (by omega), Nat.add_sub_cancel_left,
        List.getElem?_append_left hj, hitem, Option.map_some]
    · refine List.mem_append_right _ (List.mem_flatMap.mpr ⟨dep, hparents dep hdep, ?_⟩)
      rw [hindex']
      exact ht
  have hup := ReflTransGen.mono (fun _ _ => dependsOn_block heq) _ _ hroot
  have hdown := ReflTransGen.mono (fun _ _ => dependsOn_block heq') _ _ hreach
  exact (TransGen.tail' hup hedge).trans_left hdown

/-- A nested template is expanded within the whole: its dependencies are dependencies there, after its offset. -/
theorem Nested.rendered {root : List TemplateTodo} (hrender : renderTemplateDefinition depth root = some ts)
    (h : Nested root todos offset) : ∃ depth ts', renderTemplateDefinition depth todos = some ts' ∧
      ∀ x y, DependsOn ts' 0 x y → DependsOn ts 0 (offset + x) (offset + y) := by
  induction h with
  | root => exact ⟨depth, ts, hrender, fun x y hxy => by rwa [Nat.zero_add, Nat.zero_add]⟩
  | @sub todos child offset i dependsOn _ hentry ih =>
    rcases ih with ⟨depth, ts', hts', hwithin⟩
    rcases render_laid hts' with ⟨state, hlaid, rfl, -, -⟩
    rcases hlaid.blockOf hentry with ⟨before, block, after, index, heq, hlength, -, hblock⟩
    rcases hblock.nested dependsOn child rfl with ⟨inner, hinner, hmap⟩
    refine ⟨depth + 1, inner, hinner, fun x y hxy => ?_⟩
    rw [← hlength, Nat.add_assoc, Nat.add_assoc]
    refine hwithin _ _ (dependsOn_block heq ?_)
    rw [hmap]
    exact dependsOn_shift hxy

/-- Wherever in a tree of templates one entry depends on another, every todo expanded from the first transitively depends
on every todo expanded from the second. -/
theorem expanded_ordered {root : List TemplateTodo} (hrender : renderTemplateDefinition depth root = some ts)
    (hnested : Nested root todos offset) (hentry : todos[i]? = some entry) {dep : Int} (hdep : dep ∈ entry.dependsOn)
    {x y : Nat} (hx : ExpandedFrom todos i x) (hy : ExpandedFrom todos (dep - 1).toNat y) :
    TransGen (DependsOn ts 0) (offset + x) (offset + y) := by
  rcases hnested.rendered hrender with ⟨depth, ts', hts', hwithin⟩
  rcases render_laid hts' with ⟨state, hlaid, rfl, hvalid, -⟩
  exact TransGen.lift (offset + ·) hwithin _ _ (hlaid.ordered hvalid hentry hdep hx hy)

end

end TodoTemplates

end MindRoom
