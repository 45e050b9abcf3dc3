import Orqara.Library.GreedyFixpoint
import Orqara.TaskFiles.TaskForest
import Orqara.TaskFiles.TaskScope

/-!
# The order respects the tasks

Every pending task of the timeline comes behind what it waits for, and the blocked tasks are those
outside the least fixed point of what can be scheduled. For a scope that is not below itself the order
is computed; for one that is, the walk down never ends.
-/

namespace Orqara.TaskFiles

open Simulation OrderedMap

variable {β : Type} {runtime : Runtime β} {tasks : Tasks β} {scopeId : Option String} {fuel : ℕ}
  {graph : TaskGraph β} {task : Task β}

/-! ## What a task waits for -/

/-- The dependencies of a task, and its children in the scope, are done or scheduled. -/
def MayFollow (tasks : Tasks β) (scopeId : Option String) (scheduled : Set String) (task : Task β) :
    Prop :=
  (∀ depId ∈ task.deps, ∃ dep ∈ tasks.rows, dep.id = depId ∧
    (dep.status = .done ∨ depId ∈ scheduled)) ∧
  ∀ child ∈ tasks.rows, child.parentId.bind nonEmpty = some task.id → InScope tasks scopeId child →
    child.status = .done ∨ child.id ∈ scheduled

/-- The pending tasks of a scope that can be scheduled when others are. -/
def schedulable (tasks : Tasks β) (scopeId : Option String) : Set String →o Set String where
  toFun scheduled := {id | ∃ task ∈ tasks.rows, task.id = id ∧ task.isPending ∧
    InScope tasks scopeId task ∧ MayFollow tasks scopeId scheduled task}
  monotone' := by
    rintro before after hsub id ⟨task, hmem, hid, hpending, hscope, hdeps, hchildren⟩
    refine ⟨task, hmem, hid, hpending, hscope, ?_, ?_⟩
    · intro depId hdep
      obtain ⟨dep, hdepMem, hdepId, hready⟩ := hdeps depId hdep
      exact ⟨dep, hdepMem, hdepId, hready.imp_right fun h => hsub h⟩
    · intro child hchild hparent hchildScope
      exact (hchildren child hchild hparent hchildScope).imp_right fun h => hsub h

/-! ## The maps of the graph -/

theorem get_foldl_set {α : Type} (entries : List α) (key : α → String) (taken : OrderedMap String α)
    (hnodup : (entries.map key).Nodup) (id : String) :
    (entries.foldl (fun map entry => map.set (key entry) entry) taken).get id =
      ((entries.find? fun entry => key entry = id).or (taken.get id)) := by
  induction entries generalizing taken with
  | nil => rfl
  | cons entry entries ih =>
    rw [List.map_cons, List.nodup_cons] at hnodup
    rw [List.foldl_cons, ih _ hnodup.2, List.find?_cons]
    by_cases h : key entry = id
    · have hnone : (entries.find? fun entry => key entry = id) = none := by
        rw [List.find?_eq_none]
        intro other hother heq
        apply hnodup.1
        rw [h, ← of_decide_eq_true heq]
        exact List.mem_map_of_mem hother
      simp only [h, decide_true, hnone, Option.none_or, get_set_self, Option.some_or]
    · simp only [h, decide_false, get_set_ne (Ne.symm h)]

theorem get_buildTaskMap {id : String} :
    (buildTaskMap (tasks.list runtime)).get id = some task ↔ task ∈ tasks.rows ∧ task.id = id := by
  let listed : Tasks β := ⟨tasks.list runtime, Tasks.nodup_list⟩
  have hget : (buildTaskMap (tasks.list runtime)).get id = (listed.get? id).or none :=
    get_foldl_set (tasks.list runtime) (·.id) ∅ Tasks.nodup_list id
  have hmem : task ∈ listed.rows ↔ task ∈ tasks.rows := Tasks.mem_list
  rw [hget, Option.or_none, Table.get?_eq_some_iff, hmem]

theorem getD_foldl_addSibling (tasks : List (Task β)) (map : OrderedMap String (List (Task β)))
    (id : String) :
    ((tasks.foldl addSibling map).get id).getD [] =
      (map.get id).getD [] ++ tasks.filter fun task => task.parentId.bind nonEmpty = some id := by
  induction tasks generalizing map with
  | nil => simp
  | cons task tasks ih =>
    rw [List.foldl_cons, ih, List.filter_cons, addSibling]
    cases hparent : task.parentId.bind nonEmpty with
    | none => simp
    | some parentId =>
      by_cases h : parentId = id
      · simp [h]
      · simp [h, get_set_ne (Ne.symm h)]

theorem mem_children {id : String} :
    task ∈ ((buildChildrenMap (tasks.list runtime)).get id).getD [] ↔
      task ∈ tasks.rows ∧ task.parentId.bind nonEmpty = some id := by
  have hget := getD_foldl_addSibling (tasks.list runtime) ∅ id
  rw [get_empty, Option.getD_none, List.nil_append] at hget
  rw [buildChildrenMap, hget, List.mem_filter, Tasks.mem_list, decide_eq_true_eq]

/-! ## The graph of a scope -/

/-- A graph that was loaded for a scope. -/
structure Loaded (runtime : Runtime β) (tasks : Tasks β) (scopeId : Option String)
    (graph : TaskGraph β) : Prop where
  nodup : (graph.candidates.map (·.id)).Nodup
  mem_candidates : ∀ task, task ∈ graph.candidates ↔ task ∈ tasks.rows ∧ InScope tasks scopeId task
  taskMap : ∀ id task, graph.taskMap.get id = some task ↔ task ∈ tasks.rows ∧ task.id = id
  children : ∀ id task, task ∈ (graph.childrenMap.get id).getD [] ↔
    task ∈ tasks.rows ∧ task.parentId.bind nonEmpty = some id
  candidateIds : graph.candidateIds = graph.candidates.map (·.id)
  doneTaskIds : ∀ id, id ∈ graph.doneTaskIds ↔ ∃ task ∈ tasks.rows, task.id = id ∧ task.status = .done

theorem loaded_of_loadScopedTaskGraph
    (h : loadScopedTaskGraph runtime tasks fuel scopeId = some graph) :
    Loaded runtime tasks scopeId graph := by
  obtain ⟨candidates, hcandidates, rfl⟩ := Option.map_eq_some_iff.mp h
  exact
    { nodup := nodup_loadScopedCandidates hcandidates
      mem_candidates := fun task => mem_loadScopedCandidates hcandidates
      taskMap := fun id task => get_buildTaskMap
      children := fun id task => mem_children
      candidateIds := rfl
      doneTaskIds := fun id => by
        simp only [List.mem_map, List.mem_filter, Tasks.mem_list, decide_eq_true_eq]
        constructor
        · rintro ⟨task, ⟨hmem, hdone⟩, hid⟩
          exact ⟨task, hmem, hid, hdone⟩
        · rintro ⟨task, hmem, hid, hdone⟩
          exact ⟨task, ⟨hmem, hdone⟩, hid⟩ }

/-- Tasks with one id are the same. -/
theorem eq_of_id_eq {other : Task β} (h : task ∈ tasks.rows) (h' : other ∈ tasks.rows)
    (hid : task.id = other.id) : task = other := by
  have hget := Table.get?_of_mem h
  rw [hid, Table.get?_of_mem h'] at hget
  exact (Option.some.inj hget).symm

/-- The test of the loop, for a list of ids that are done or placed. -/
theorem Loaded.executable_iff (h : Loaded runtime tasks scopeId graph) (hmem : task ∈ tasks.rows)
    {completed : List String} {placed : Set String}
    (hcompleted : ∀ id, id ∈ completed ↔ id ∈ graph.doneTaskIds ∨ id ∈ placed) :
    graph.isTaskExecutableInOrder task.id completed = true ↔
      MayFollow tasks scopeId placed task := by
  have hget : graph.taskMap.get task.id = some task := (h.taskMap _ _).mpr ⟨hmem, rfl⟩
  have hready {other : Task β} (hother : other ∈ tasks.rows) :
      other.id ∈ completed ↔ other.status = .done ∨ other.id ∈ placed := by
    rw [hcompleted, h.doneTaskIds]
    refine or_congr_left ⟨?_, fun hdone => ⟨other, hother, rfl, hdone⟩⟩
    rintro ⟨same, hsame, hid, hdone⟩
    rwa [eq_of_id_eq hsame hother hid] at hdone
  rw [TaskGraph.isTaskExecutableInOrder, hget]
  simp only [Bool.and_eq_true, TaskGraph.areTaskDepsDone, TaskGraph.areTaskChildrenDone,
    List.all_eq_true, Bool.true_and, Bool.or_eq_true, Bool.not_eq_true', List.contains_iff_mem,
    MayFollow, Option.isSome_iff_exists, h.taskMap, h.children]
  refine and_congr ?_ ?_
  · refine forall₂_congr fun depId hdep => ?_
    constructor
    · rintro ⟨⟨dep, hdepMem, rfl⟩, hdone⟩
      exact ⟨dep, hdepMem, rfl, (hready hdepMem).mp hdone⟩
    · rintro ⟨dep, hdepMem, rfl, hdone⟩
      exact ⟨⟨dep, hdepMem, rfl⟩, (hready hdepMem).mpr hdone⟩
  · have hscope {child : Task β} (hchild : child ∈ tasks.rows) :
        child.id ∈ graph.candidateIds ↔ InScope tasks scopeId child := by
      rw [h.candidateIds, List.mem_map]
      constructor
      · rintro ⟨same, hsame, hid⟩
        obtain ⟨hsameMem, hin⟩ := (h.mem_candidates same).mp hsame
        rwa [eq_of_id_eq hsameMem hchild hid] at hin
      · exact fun hin => ⟨child, (h.mem_candidates child).mpr ⟨hchild, hin⟩, rfl⟩
    constructor
    · intro hall child hchild hparent hin
      have hcases := hall child ⟨hchild, hparent⟩
      have hcandidate := (hscope hchild).mpr hin
      rw [← List.contains_iff_mem] at hcandidate
      rw [hcandidate] at hcases
      exact (hready hchild).mp (hcases.resolve_left (by simp))
    · rintro hall child ⟨hchild, hparent⟩
      by_cases hin : InScope tasks scopeId child
      · exact .inr ((hready hchild).mpr (hall child hchild hparent hin))
      · left
        rw [← hscope hchild, ← List.contains_iff_mem] at hin
        simpa using hin

/-! ## Places -/

/-- Every task of the timeline is there once, and has its place in the map. -/
structure Numbered (s : Simulation β) : Prop where
  nodup : (s.timeline.map (·.id)).Nodup
  orderIdx : s.orderIdx = s.timeline.length
  orderMap : ∀ id i, s.orderMap.get id = some i ↔ (s.timeline.map (·.id))[i]? = some id

variable {s s' : Simulation β} {placed : List (Task β)}

theorem Numbered.push (h : Numbered s) (hnew : task.id ∉ s.timeline.map (·.id)) :
    Numbered (s.push task) where
  nodup := by
    show ((s.timeline ++ [task]).map (·.id)).Nodup
    rw [List.map_append, List.nodup_append']
    refine ⟨h.nodup, List.nodup_singleton _, ?_⟩
    rintro id hid hmem
    rw [List.map_singleton, List.mem_singleton] at hmem
    exact hnew (hmem ▸ hid)
  orderIdx := by
    show s.orderIdx + 1 = (s.timeline ++ [task]).length
    rw [h.orderIdx, List.length_append, List.length_singleton]
  orderMap := by
    intro id i
    show (s.orderMap.set task.id s.orderIdx).get id = some i ↔
      ((s.timeline ++ [task]).map (·.id))[i]? = some id
    have hlength : (s.timeline.map (·.id)).length = s.orderIdx := by
      rw [List.length_map, h.orderIdx]
    rw [List.map_append, List.map_singleton]
    by_cases hlt : i < s.orderIdx
    · rw [List.getElem?_append_left (by omega), ← h.orderMap]
      by_cases hid : id = task.id
      · subst hid
        rw [get_set_self]
        constructor
        · intro heq
          have := Option.some.inj heq
          omega
        · intro hget
          exact absurd (List.mem_of_getElem? ((h.orderMap _ _).mp hget)) hnew
      · rw [get_set_ne hid]
    · rw [List.getElem?_append_right (by omega), hlength]
      by_cases hid : id = task.id
      · subst hid
        rw [get_set_self, Option.some.injEq, List.getElem?_singleton]
        split
        · simp only [iff_true]
          omega
        · simp only [reduceCtorEq, iff_false]
          omega
      · rw [get_set_ne hid, h.orderMap, List.getElem?_eq_none (by omega)]
        rw [List.getElem?_singleton]
        split
        · simp [Ne.symm hid]
        · rfl

theorem Numbered.foldl_push {others : List (Task β)} (h : Numbered s)
    (hnodup : ((s.timeline ++ others).map (·.id)).Nodup) :
    Numbered (others.foldl Simulation.push s) ∧
      (others.foldl Simulation.push s).timeline = s.timeline ++ others ∧
      (others.foldl Simulation.push s).simDone = s.simDone ∧
      (others.foldl Simulation.push s).remaining = s.remaining := by
  induction others generalizing s with
  | nil => exact ⟨h, (List.append_nil _).symm, rfl, rfl⟩
  | cons task others ih =>
    have hnew : task.id ∉ s.timeline.map (·.id) := by
      rw [List.map_append, List.map_cons, List.nodup_append'] at hnodup
      exact fun hmem => hnodup.2.2 hmem List.mem_cons_self
    have hassoc : s.timeline ++ task :: others = (s.push task).timeline ++ others := by
      simp [Simulation.push]
    rw [hassoc] at hnodup ⊢
    exact ih (h.push hnew) hnodup

/-! ## The loop -/

/-- The state of the loop when tasks were placed behind those that are done. -/
structure Placed (tasks : Tasks β) (scopeId : Option String) (graph : TaskGraph β)
    (placed : List (Task β)) (s : Simulation β) : Prop where
  numbered : Numbered s
  timeline : ∃ done, s.timeline = done ++ placed ∧
    ∀ task, task ∈ done ↔ task ∈ graph.candidates ∧ task.status = .done
  simDone : s.simDone = graph.doneTaskIds ++ placed.map (·.id)
  remaining : ∀ id, id ∈ s.remaining.keys ↔
    (∃ task ∈ graph.candidates, task.isPending ∧ task.id = id) ∧ id ∉ placed.map (·.id)
  pending : ∀ task ∈ placed, task ∈ graph.candidates ∧ task.isPending
  greedy : Greedy (schedulable tasks scopeId) (placed.map (·.id))

theorem not_done_of_isPending (h : task.isPending = true) : task.status ≠ .done := by
  intro hdone
  rw [Task.isPending, hdone] at h
  contradiction

theorem mem_keys_foldl_set (entries : List (Task β)) (taken : OrderedMap String Unit) (id : String) :
    id ∈ (entries.foldl (fun map entry => map.set entry.id ()) taken).keys ↔
      id ∈ taken.keys ∨ ∃ entry ∈ entries, entry.id = id := by
  induction entries generalizing taken with
  | nil => simp
  | cons entry entries ih =>
    have hset : id ∈ (taken.set entry.id ()).keys ↔ id ∈ taken.keys ∨ entry.id = id := by
      by_cases hmem : entry.id ∈ taken.keys
      · rw [keys_set_of_mem hmem]
        exact ⟨.inl, fun h => h.elim (fun h => h) fun h => h ▸ hmem⟩
      · rw [keys_set_of_not_mem hmem, List.mem_append, List.mem_singleton]
        exact or_congr_right eq_comm
    rw [List.foldl_cons, ih, hset, List.exists_mem_cons_iff, or_assoc]

section

variable (h : Loaded runtime tasks scopeId graph)
include h

theorem placed_start :
    Placed tasks scopeId graph [] (start runtime graph) := by
  let done := (graph.candidates.filter (·.status = .done)).mergeSort
    fun a b => runtime.localeCompare a.created b.created ≤ 0
  let remaining := (graph.candidates.filter Task.isPending).foldl
    (fun remaining task => remaining.set task.id ()) (∅ : OrderedMap String Unit)
  let first : Simulation β :=
    { timeline := [], orderMap := ∅, orderIdx := 0, simDone := graph.doneTaskIds, remaining }
  have hperm : done.Perm (graph.candidates.filter (·.status = .done)) := List.mergeSort_perm _ _
  have hnodup : ((first.timeline ++ done).map (·.id)).Nodup := by
    rw [List.nil_append, (hperm.map _).nodup_iff]
    exact h.nodup.sublist (List.filter_sublist.map _)
  have hfirst : Numbered first := ⟨List.nodup_nil, rfl, fun id i => by simp [first]⟩
  obtain ⟨hnumbered, htimeline, hsimDone, hremaining⟩ := hfirst.foldl_push hnodup
  have hstart : Simulation.start runtime graph = done.foldl Simulation.push first := rfl
  rw [hstart]
  refine ⟨hnumbered, ⟨done, ?_, ?_⟩, ?_, ?_, nofun, .nil⟩
  · rw [htimeline, List.append_nil]
    rfl
  · intro task
    rw [hperm.mem_iff, List.mem_filter, decide_eq_true_eq]
  · rw [hsimDone, List.map_nil, List.append_nil]
  · intro id
    rw [hremaining, mem_keys_foldl_set]
    simp [List.mem_filter, and_assoc]

section

variable (hplaced : Placed tasks scopeId graph placed s)
include hplaced

theorem mem_readyNow :
    task ∈ s.readyNow runtime graph ↔ task ∈ tasks.rows ∧ task.id ∈ s.remaining.keys ∧
      MayFollow tasks scopeId {id | id ∈ placed.map (·.id)} task := by
  have hcompleted : ∀ id, id ∈ s.simDone ↔
      id ∈ graph.doneTaskIds ∨ id ∈ ({id | id ∈ placed.map (·.id)} : Set String) := by
    intro id
    rw [hplaced.simDone, List.mem_append]
    rfl
  rw [readyNow, (List.mergeSort_perm _ _).mem_iff, List.mem_filter,
    TaskGraph.getTasksById, List.mem_filterMap]
  constructor
  · rintro ⟨⟨id, hid, hget⟩, hready⟩
    obtain ⟨hmem, rfl⟩ := (h.taskMap id task).mp hget
    exact ⟨hmem, hid, (h.executable_iff hmem hcompleted).mp hready⟩
  · rintro ⟨hmem, hid, hfollow⟩
    exact ⟨⟨task.id, hid, (h.taskMap _ _).mpr ⟨hmem, rfl⟩⟩,
      (h.executable_iff hmem hcompleted).mpr hfollow⟩

theorem Placed.execute (hready : task ∈ s.readyNow runtime graph) :
    Placed tasks scopeId graph (placed ++ [task]) (s.execute task) := by
  obtain ⟨hmem, hremaining, hfollow⟩ := (mem_readyNow h hplaced).mp hready
  obtain ⟨⟨same, hsame, hpending, hid⟩, hnot⟩ := (hplaced.remaining _).mp hremaining
  obtain ⟨hsameMem, hscope⟩ := (h.mem_candidates same).mp hsame
  obtain rfl : same = task := eq_of_id_eq hsameMem hmem hid
  obtain ⟨done, htimeline, hdone⟩ := hplaced.timeline
  have hnew : same.id ∉ s.timeline.map (·.id) := by
    rw [htimeline, List.map_append, List.mem_append, not_or]
    refine ⟨?_, hnot⟩
    intro hin
    obtain ⟨other, hother, hotherId⟩ := List.mem_map.mp hin
    obtain ⟨hotherCandidate, hotherDone⟩ := (hdone other).mp hother
    have hotherMem := ((h.mem_candidates other).mp hotherCandidate).1
    rw [eq_of_id_eq hotherMem hmem hotherId] at hotherDone
    exact not_done_of_isPending hpending hotherDone
  have hpush := hplaced.numbered.push hnew
  refine ⟨⟨hpush.nodup, hpush.orderIdx, hpush.orderMap⟩, ⟨done, ?_, hdone⟩, ?_, ?_, ?_, ?_⟩
  · show s.timeline ++ [same] = done ++ (placed ++ [same])
    rw [htimeline, List.append_assoc]
  · show s.simDone ++ [same.id] = _
    rw [hplaced.simDone, List.map_append, List.append_assoc, List.map_singleton]
  · intro id
    show id ∈ (s.remaining.delete same.id).keys ↔ _
    rw [keys_delete, List.mem_filter, hplaced.remaining, decide_eq_true_eq, List.map_append,
      List.mem_append, not_or, List.map_singleton, List.mem_singleton, and_assoc]
  · intro other hother
    rcases List.mem_append.mp hother with hold | hlast
    · exact hplaced.pending other hold
    · rw [List.mem_singleton.mp hlast]
      exact ⟨hsame, hpending⟩
  · rw [List.map_append, List.map_singleton]
    exact hplaced.greedy.concat ⟨same, hmem, rfl, hpending, hscope, hfollow⟩

omit h hplaced in
theorem run_of_readyNow_nil (h : s.readyNow runtime graph = []) :
    s.run runtime graph fuel = some s := by
  by_cases hnone : s.remaining.keys = []
  · cases fuel <;> rw [run, if_pos hnone]
  · cases fuel <;> rw [run, if_neg hnone, h]

theorem Placed.readyNow_of_remaining_nil (hnone : s.remaining.keys = []) :
    s.readyNow runtime graph = [] := by
  apply List.eq_nil_iff_forall_not_mem.mpr
  intro task hready
  have hremaining := ((mem_readyNow h hplaced).mp hready).2.1
  rw [hnone] at hremaining
  contradiction

theorem Placed.run (hrun : s.run runtime graph fuel = some s') :
    ∃ placed', Placed tasks scopeId graph placed' s' ∧ s'.readyNow runtime graph = [] := by
  induction fuel generalizing s placed with
  | zero =>
    cases hready : s.readyNow runtime graph with
    | nil =>
      rw [run_of_readyNow_nil hready] at hrun
      rw [← Option.some.inj hrun]
      exact ⟨placed, hplaced, hready⟩
    | cons next others =>
      have hsome : ¬ s.remaining.keys = [] := by
        intro hnone
        rw [hplaced.readyNow_of_remaining_nil h hnone] at hready
        contradiction
      rw [Simulation.run, if_neg hsome, hready] at hrun
      contradiction
  | succ fuel ih =>
    cases hready : s.readyNow runtime graph with
    | nil =>
      rw [run_of_readyNow_nil hready] at hrun
      rw [← Option.some.inj hrun]
      exact ⟨placed, hplaced, hready⟩
    | cons next others =>
      have hsome : ¬ s.remaining.keys = [] := by
        intro hnone
        rw [hplaced.readyNow_of_remaining_nil h hnone] at hready
        contradiction
      rw [Simulation.run, if_neg hsome, hready] at hrun
      have hnext : next ∈ s.readyNow runtime graph := by
        rw [hready]
        exact List.mem_cons_self
      exact ih (hplaced.execute h hnext) hrun

/-- The loop ends, as every turn takes one of the tasks that remain. -/
theorem exists_run (hfuel : s.remaining.size ≤ fuel) :
    ∃ s', s.run runtime graph fuel = some s' := by
  induction fuel generalizing s placed with
  | zero =>
    have hnone : s.remaining.keys = [] := keys_eq_nil_iff.mpr (Nat.le_zero.mp hfuel)
    exact ⟨s, by rw [run, if_pos hnone]⟩
  | succ fuel ih =>
    rw [run]
    split
    · exact ⟨s, rfl⟩
    · cases hready : s.readyNow runtime graph with
      | nil => exact ⟨s, rfl⟩
      | cons next others =>
        have hnext : next ∈ s.readyNow runtime graph := by
          rw [hready]
          exact List.mem_cons_self
        have hmem := ((mem_readyNow h hplaced).mp hnext).2.1
        have hless := size_delete_lt hmem
        apply ih (hplaced.execute h hnext)
        show (s.remaining.delete next.id).size ≤ fuel
        omega

/-! ## The result -/

/-- What holds of an order that was computed. -/
structure RespectsDependencies (tasks : Tasks β) (scopeId : Option String)
    (result : ExecutionOrderResult β) : Prop where
  nodup : (result.timeline.map (·.id)).Nodup
  mem_timeline : ∀ task, task ∈ result.timeline ↔
    task ∈ tasks.rows ∧ InScope tasks scopeId task ∧
      (task.status = .done ∨ task.isPending ∧ task.id ∈ (schedulable tasks scopeId).lfp)
  follows : ∀ before task after, result.timeline = before ++ task :: after → task.isPending →
    MayFollow tasks scopeId {id | id ∈ before.map (·.id)} task
  blocked : ∀ id, id ∈ result.blocked ↔ ∃ task ∈ tasks.rows, task.id = id ∧ task.isPending ∧
    InScope tasks scopeId task ∧ id ∉ (schedulable tasks scopeId).lfp
  orderMap : ∀ id i, result.orderMap.get id = some i ↔
    (result.timeline.map (·.id))[i]? = some id

theorem Placed.lfp_eq (hnone : s.readyNow runtime graph = []) :
    (schedulable tasks scopeId).lfp = {id | id ∈ placed.map (·.id)} := by
  apply hplaced.greedy.lfp_eq
  rintro id ⟨task, hmem, rfl, hpending, hscope, hfollow⟩
  by_contra hnot
  have hcandidate : task ∈ graph.candidates := (h.mem_candidates task).mpr ⟨hmem, hscope⟩
  have hremaining := (hplaced.remaining task.id).mpr ⟨⟨task, hcandidate, hpending, rfl⟩, hnot⟩
  have hready := (mem_readyNow h hplaced).mpr ⟨hmem, hremaining, hfollow⟩
  rw [hnone] at hready
  contradiction

theorem Placed.respects (hnone : s.readyNow runtime graph = []) :
    RespectsDependencies tasks scopeId ⟨s.timeline, s.orderMap, s.remaining.keys⟩ := by
  have hlfp := hplaced.lfp_eq h hnone
  obtain ⟨done, htimeline, hdone⟩ := hplaced.timeline
  refine ⟨hplaced.numbered.nodup, ?_, ?_, ?_, hplaced.numbered.orderMap⟩
  · intro task
    show task ∈ s.timeline ↔ _
    rw [htimeline, List.mem_append, hdone, h.mem_candidates, hlfp]
    constructor
    · rintro (⟨⟨hmem, hscope⟩, hisDone⟩ | hin)
      · exact ⟨hmem, hscope, .inl hisDone⟩
      · obtain ⟨hcandidate, hpending⟩ := hplaced.pending task hin
        obtain ⟨hmem, hscope⟩ := (h.mem_candidates task).mp hcandidate
        exact ⟨hmem, hscope, .inr ⟨hpending, List.mem_map_of_mem hin⟩⟩
    · rintro ⟨hmem, hscope, hisDone | ⟨-, hin⟩⟩
      · exact .inl ⟨⟨hmem, hscope⟩, hisDone⟩
      · obtain ⟨same, hsame, hid⟩ := List.mem_map.mp hin
        have hsameMem := ((h.mem_candidates same).mp (hplaced.pending same hsame).1).1
        rw [eq_of_id_eq hsameMem hmem hid] at hsame
        exact .inr hsame
  · intro before task after hsplit hpending
    have hplacedSplit : ∃ first, before = done ++ first ∧ placed = first ++ task :: after := by
      have happend : done ++ placed = before ++ task :: after := htimeline.symm.trans hsplit
      rcases List.append_eq_append_iff.mp happend with ⟨first, hbefore, hplacedEq⟩ | ⟨rest, hdoneEq, hrest⟩
      · exact ⟨first, hbefore, hplacedEq⟩
      · cases rest with
        | nil => exact ⟨[], by simpa using hdoneEq.symm, by simpa using hrest.symm⟩
        | cons other rest =>
          obtain ⟨rfl, -⟩ := List.cons.inj hrest
          have hin : task ∈ done := by
            rw [hdoneEq]
            simp
          exact absurd ((hdone task).mp hin).2 (not_done_of_isPending hpending)
    obtain ⟨first, rfl, hplacedEq⟩ := hplacedSplit
    have hids : placed.map (·.id) = first.map (·.id) ++ task.id :: after.map (·.id) := by
      rw [hplacedEq, List.map_append, List.map_cons]
    obtain ⟨same, hsameMem, hid, -, -, hdeps, hchildren⟩ := hplaced.greedy.justified hids
    have hin : task ∈ placed := by
      rw [hplacedEq]
      simp
    have hmem := ((h.mem_candidates task).mp (hplaced.pending task hin).1).1
    obtain rfl : same = task := eq_of_id_eq hsameMem hmem hid
    have hsub {id : String} (hfirst : id ∈ first.map (·.id)) :
        id ∈ (done ++ first).map (·.id) := by
      rw [List.map_append]
      exact List.mem_append_right _ hfirst
    refine ⟨?_, ?_⟩
    · intro depId hdep
      obtain ⟨dep, hdepMem, hdepId, hready⟩ := hdeps depId hdep
      exact ⟨dep, hdepMem, hdepId, hready.imp_right fun hfirst => hsub hfirst⟩
    · intro child hchild hparent hscope
      exact (hchildren child hchild hparent hscope).imp_right fun hfirst => hsub hfirst
  · intro id
    show id ∈ s.remaining.keys ↔ _
    rw [hplaced.remaining, hlfp]
    constructor
    · rintro ⟨⟨task, hcandidate, hpending, rfl⟩, hnot⟩
      obtain ⟨hmem, hscope⟩ := (h.mem_candidates task).mp hcandidate
      exact ⟨task, hmem, rfl, hpending, hscope, hnot⟩
    · rintro ⟨task, hmem, rfl, hpending, hscope, hnot⟩
      exact ⟨⟨task, (h.mem_candidates task).mpr ⟨hmem, hscope⟩, hpending, rfl⟩, hnot⟩

end

end

theorem computeExecutionOrder_respects {result : ExecutionOrderResult β}
    (h : computeExecutionOrder runtime fuel tasks scopeId = some result) :
    RespectsDependencies tasks scopeId result := by
  obtain ⟨graph, hgraph, hrun⟩ := Option.bind_eq_some_iff.mp h
  obtain ⟨s, hs, rfl⟩ := Option.map_eq_some_iff.mp hrun
  have hloaded := loaded_of_loadScopedTaskGraph hgraph
  obtain ⟨placed, hplaced, hnone⟩ := (placed_start hloaded).run hloaded hs
  exact hplaced.respects hloaded hnone

/-- The order of a scope is computed, and what is computed respects the tasks. -/
def OrderComputed (runtime : Runtime β) (tasks : Tasks β) (scopeId : Option String) : Prop :=
  (∃ fuel result, computeExecutionOrder runtime fuel tasks scopeId = some result) ∧
    ∀ fuel result, computeExecutionOrder runtime fuel tasks scopeId = some result →
      RespectsDependencies tasks scopeId result

/-- For exactly the scopes that are not below themselves. -/
theorem orderComputed_iff (runtime : Runtime β) (tasks : Tasks β) (scopeId : Option String) :
    OrderComputed runtime tasks scopeId ↔ AcyclicScope tasks scopeId := by
  constructor
  · rintro ⟨⟨fuel, result, hresult⟩, -⟩
    obtain ⟨graph, hgraph, -⟩ := Option.bind_eq_some_iff.mp hresult
    obtain ⟨candidates, hcandidates, -⟩ := Option.map_eq_some_iff.mp hgraph
    exact acyclicScope_of_loadScopedCandidates hcandidates
  · intro hacyclic
    refine ⟨?_, fun fuel result => computeExecutionOrder_respects⟩
    obtain ⟨least, hleast⟩ := exists_loadScopedCandidates runtime hacyclic
    let fuel := least + tasks.rows.length
    obtain ⟨candidates, hcandidates⟩ := hleast fuel (Nat.le_add_right _ _)
    obtain ⟨graph, hgraph⟩ : ∃ graph, loadScopedTaskGraph runtime tasks fuel scopeId = some graph :=
      ⟨_, congrArg (Option.map _) hcandidates⟩
    have hloaded := loaded_of_loadScopedTaskGraph hgraph
    have hplaced := placed_start hloaded
    have hsub : (start runtime graph).remaining.keys ⊆ tasks.rows.map (·.id) := by
      intro id hid
      obtain ⟨⟨task, hcandidate, -, rfl⟩, -⟩ := (hplaced.remaining id).mp hid
      exact List.mem_map_of_mem ((hloaded.mem_candidates task).mp hcandidate).1
    have hsize : (start runtime graph).remaining.size ≤ fuel := by
      have hle := ((nodup_keys _).subperm hsub).length_le
      rw [keys, List.length_map, List.length_map] at hle
      exact hle.trans (Nat.le_add_left _ _)
    obtain ⟨s, hs⟩ := exists_run hloaded hplaced hsize
    exact ⟨fuel, ⟨s.timeline, s.orderMap, s.remaining.keys⟩, by
      rw [computeExecutionOrder, hgraph, Option.bind_some, hs]
      rfl⟩

/-! ## A scope below itself -/

def selfParent : Tasks Unit where
  rows := [{ id := "a", title := "a", status := .open, deps := [], parentId := some "a", content := ()
             created := "2026-01-01", assignee := none, priority := none }]
  nodup := List.nodup_singleton _

/-- The walk down from a task that is its own parent does not end. -/
theorem not_orderComputed_selfParent :
    ¬ OrderComputed FileTaskStore.plainRuntime selfParent (some "a") := by
  rintro ⟨⟨fuel, result, hresult⟩, -⟩
  obtain ⟨graph, hgraph, -⟩ := Option.bind_eq_some_iff.mp hresult
  obtain ⟨candidates, hcandidates, -⟩ := Option.map_eq_some_iff.mp hgraph
  have hacyclic := acyclicScope_of_loadScopedCandidates hcandidates
  have hparent : selfParent.parentOf "a" = some "a" := by decide
  exact hacyclic "a" (by decide) (Relation.TransGen.single hparent)

end Orqara.TaskFiles
