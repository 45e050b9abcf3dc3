import Orqara.Library.ParentLinks
import Orqara.TaskFiles.ExecutionOrder

/-!
# The tasks of a scope

The walk down from a scope ends unless the scope is below itself, and then meets every task below it
once. The parents of other tasks may well form cycles.
-/

namespace Orqara.TaskFiles

open List Option

variable {β : Type} {runtime : Runtime β} {tasks : Tasks β} {task : Task β} {id parentId : String}

namespace Tasks

/-- The parent that is named by the task with an id. -/
def parentOf (tasks : Tasks β) (id : String) : Option String :=
  (tasks.get? id).bind (·.parentId)

theorem parentOf_eq_some_iff :
    tasks.parentOf id = some parentId ↔
      ∃ task ∈ tasks.rows, task.id = id ∧ task.parentId = some parentId := by
  rw [parentOf, bind_eq_some_iff]
  constructor
  · rintro ⟨task, hget, hparent⟩
    exact ⟨task, Table.mem_of_get? hget, Table.key_of_get? hget, hparent⟩
  · rintro ⟨task, hmem, rfl, hparent⟩
    exact ⟨task, Table.get?_of_mem hmem, hparent⟩

theorem parentOf_of_mem (h : task ∈ tasks.rows) : tasks.parentOf task.id = task.parentId := by
  have hget : tasks.get? task.id = some task := Table.get?_of_mem h
  rw [parentOf, hget, bind_some]

theorem list_perm : (tasks.list runtime).Perm tasks.rows := List.mergeSort_perm _ _

theorem mem_list : task ∈ tasks.list runtime ↔ task ∈ tasks.rows := list_perm.mem_iff

theorem nodup_list : ((tasks.list runtime).map (·.id)).Nodup := by
  have hperm : (tasks.list runtime).Perm tasks.rows := list_perm
  exact (hperm.map (·.id)).nodup_iff.mpr tasks.nodup

theorem mem_getChildren :
    task ∈ getChildren runtime tasks parentId ↔ task ∈ tasks.rows ∧ task.parentId = some parentId := by
  rw [getChildren, (mergeSort_perm _ _).mem_iff, mem_filter, mem_list, decide_eq_true_eq]

theorem nodup_getChildren : ((getChildren runtime tasks parentId).map (·.id)).Nodup := by
  rw [getChildren, ((mergeSort_perm _ _).map _).nodup_iff]
  exact nodup_list.sublist (filter_sublist.map _)

theorem parentOf_of_mem_getChildren (h : task ∈ getChildren runtime tasks parentId) :
    tasks.parentOf task.id = some parentId := by
  obtain ⟨hmem, hparent⟩ := mem_getChildren.mp h
  rw [parentOf_of_mem hmem, hparent]

/-! ## The walk -/

variable {answer : List (Task β)} {below : Task β → Option (List (Task β))} {children : List (Task β)}

theorem traverse_eq_some (h : traverse below children = some answer) :
    answer = children.flatMap (fun child => child :: (below child).getD []) ∧
      ∀ child ∈ children, ∃ tasks, below child = some tasks := by
  induction children generalizing answer with
  | nil => exact ⟨(some.inj h).symm, nofun⟩
  | cons child children ih =>
    obtain ⟨first, hfirst, hrest⟩ := bind_eq_some_iff.mp h
    obtain ⟨rest, htail, rfl⟩ := map_eq_some_iff.mp hrest
    obtain ⟨heq, hall⟩ := ih htail
    refine ⟨?_, ?_⟩
    · rw [flatMap_cons, hfirst, ← heq]
      rfl
    · intro other hother
      rcases mem_cons.mp hother with rfl | hmem
      · exact ⟨first, hfirst⟩
      · exact hall other hmem

theorem traverse_isSome (h : ∀ child ∈ children, ∃ tasks, below child = some tasks) :
    ∃ answer, traverse below children = some answer := by
  induction children with
  | nil => exact ⟨[], rfl⟩
  | cons child children ih =>
    obtain ⟨first, hfirst⟩ := h child mem_cons_self
    obtain ⟨rest, hrest⟩ := ih fun c hc => h c (mem_cons_of_mem _ hc)
    exact ⟨child :: first ++ rest, by rw [traverse, hfirst, bind_some, hrest]; rfl⟩

/-- The walk does not end on a cycle. -/
theorem getDescendants_of_cycle (h : Above tasks.parentOf id id) (fuel : ℕ) :
    getDescendants runtime tasks fuel id = none := by
  induction fuel generalizing id with
  | zero => rfl
  | succ fuel ih =>
    by_contra hne
    obtain ⟨answer, hanswer⟩ := ne_none_iff_exists'.mp hne
    obtain ⟨-, hall⟩ := traverse_eq_some hanswer
    obtain ⟨childId, hup, hparent⟩ := Relation.TransGen.tail'_iff.mp h
    obtain ⟨child, hmem, rfl, hchild⟩ := parentOf_eq_some_iff.mp hparent
    obtain ⟨below, hbelow⟩ := hall child (mem_getChildren.mpr ⟨hmem, hchild⟩)
    have hcycle : Above tasks.parentOf child.id child.id := Relation.TransGen.head' hparent hup
    rw [ih hcycle] at hbelow
    contradiction

/-- Otherwise it ends. -/
theorem exists_getDescendants (runtime : Runtime β) {nodes : Finset String}
    (hnodes : ∀ task ∈ tasks.rows, task.id ∈ nodes) (hid : id ∈ nodes)
    (h : ¬ Above tasks.parentOf id id) {fuel : ℕ}
    (hfuel : weight tasks.parentOf nodes id < fuel) :
    ∃ answer, getDescendants runtime tasks fuel id = some answer := by
  induction fuel generalizing id with
  | zero => exact absurd hfuel (Nat.not_lt_zero _)
  | succ fuel ih =>
    apply traverse_isSome
    intro child hchild
    have hparent := parentOf_of_mem_getChildren hchild
    have hless := weight_lt h hid hparent
    apply ih (hnodes child (mem_getChildren.mp hchild).1)
    · exact fun hcycle => h (hcycle.cycle_parent hparent)
    · omega

theorem not_cycle_of_getDescendants {fuel : ℕ} (h : getDescendants runtime tasks fuel id = some answer) :
    ¬ Above tasks.parentOf id id := by
  intro hcycle
  rw [getDescendants_of_cycle hcycle] at h
  contradiction

theorem mem_getDescendants {fuel : ℕ} (h : getDescendants runtime tasks fuel id = some answer) :
    task ∈ answer ↔ task ∈ tasks.rows ∧ Above tasks.parentOf task.id id := by
  induction fuel generalizing id answer with
  | zero => contradiction
  | succ fuel ih =>
    obtain ⟨rfl, hall⟩ := traverse_eq_some h
    rw [mem_flatMap]
    constructor
    · rintro ⟨child, hchild, hmem⟩
      have hparent := parentOf_of_mem_getChildren hchild
      obtain ⟨below, hbelow⟩ := hall child hchild
      rw [hbelow, getD_some, mem_cons] at hmem
      rcases hmem with rfl | hmem
      · exact ⟨(mem_getChildren.mp hchild).1, Relation.TransGen.single hparent⟩
      · obtain ⟨hrow, habove⟩ := (ih hbelow).mp hmem
        exact ⟨hrow, Relation.TransGen.tail habove hparent⟩
    · rintro ⟨hrow, habove⟩
      obtain ⟨childId, hup, hparent⟩ := Relation.TransGen.tail'_iff.mp habove
      obtain ⟨child, hchildRow, rfl, hchildParent⟩ := parentOf_eq_some_iff.mp hparent
      have hchild : child ∈ getChildren runtime tasks id := mem_getChildren.mpr ⟨hchildRow, hchildParent⟩
      obtain ⟨below, hbelow⟩ := hall child hchild
      refine ⟨child, hchild, ?_⟩
      rw [hbelow, getD_some, mem_cons]
      rcases Relation.reflTransGen_iff_eq_or_transGen.mp hup with heq | hfurther
      · have hsame := Table.get?_of_mem hrow
        rw [← heq, Table.get?_of_mem hchildRow] at hsame
        exact .inl (some.inj hsame).symm
      · exact .inr ((ih hbelow).mpr ⟨hrow, hfurther⟩)

theorem nodup_getDescendants {fuel : ℕ} (h : getDescendants runtime tasks fuel id = some answer) :
    (answer.map (·.id)).Nodup := by
  have hnot := not_cycle_of_getDescendants h
  induction fuel generalizing id answer with
  | zero => contradiction
  | succ fuel ih =>
    obtain ⟨rfl, hall⟩ := traverse_eq_some h
    rw [map_flatMap, nodup_flatMap]
    have hat {child other : Task β} (hchild : child ∈ getChildren runtime tasks id)
        (hmem : other ∈ child :: (getDescendants runtime tasks fuel child.id).getD []) :
        AtOrAbove tasks.parentOf other.id child.id := by
      obtain ⟨below, hbelow⟩ := hall child hchild
      rw [hbelow, getD_some, mem_cons] at hmem
      rcases hmem with rfl | hmem
      · exact .refl
      · exact ((mem_getDescendants hbelow).mp hmem).2.to_reflTransGen
    constructor
    · intro child hchild
      obtain ⟨below, hbelow⟩ := hall child hchild
      have hchildNot := not_cycle_of_getDescendants hbelow
      rw [hbelow, getD_some, map_cons, nodup_cons]
      refine ⟨?_, ih hbelow hchildNot⟩
      intro hmem
      obtain ⟨other, hother, heq⟩ := List.mem_map.mp hmem
      have habove := ((mem_getDescendants hbelow).mp hother).2
      rw [heq] at habove
      exact hchildNot habove
    · have hdistinct : ((getChildren runtime tasks id).map (·.id)).Nodup := nodup_getChildren
      refine (pairwise_map.mp hdistinct).imp_of_mem ?_
      intro child sibling hchild hsibling hne otherId hfirst hsecond
      obtain ⟨other, hother, rfl⟩ := List.mem_map.mp hfirst
      obtain ⟨same, hsame, heq⟩ := List.mem_map.mp hsecond
      have hup := hat hchild hother
      have hup' := hat hsibling hsame
      rw [heq] at hup'
      have hparent := parentOf_of_mem_getChildren hchild
      have hparent' := parentOf_of_mem_getChildren hsibling
      rcases hup.total hup' with hbelow | hbelow
      · exact not_atOrAbove_sibling hnot hparent hparent' hne hbelow
      · exact not_atOrAbove_sibling hnot hparent' hparent (Ne.symm hne) hbelow

end Tasks

/-! ## Scopes -/

/-- Whether a task is in a scope: all of them are, or the task of the scope and those below it. -/
def InScope (tasks : Tasks β) (scopeId : Option String) (task : Task β) : Prop :=
  ∀ id ∈ scopeId.bind nonEmpty, AtOrAbove tasks.parentOf task.id id

/-- A scope that is not below itself. -/
def AcyclicScope (tasks : Tasks β) (scopeId : Option String) : Prop :=
  ∀ id ∈ scopeId.bind nonEmpty, ¬ Above tasks.parentOf id id

variable {scopeId : Option String} {fuel : ℕ} {candidates : List (Task β)}

theorem mem_toList_get? : task ∈ (tasks.get? id).toList ↔ task ∈ tasks.rows ∧ task.id = id := by
  rw [mem_toList, Table.get?_eq_some_iff]

section

variable (h : loadScopedCandidates runtime tasks fuel scopeId = some candidates)
include h

theorem mem_loadScopedCandidates :
    task ∈ candidates ↔ task ∈ tasks.rows ∧ InScope tasks scopeId task := by
  unfold loadScopedCandidates at h
  unfold InScope
  cases hscope : scopeId.bind nonEmpty with
  | none =>
    rw [hscope] at h
    rw [← some.inj h, Tasks.mem_list]
    simp
  | some id =>
    rw [hscope] at h
    obtain ⟨below, hbelow, rfl⟩ := map_eq_some_iff.mp h
    rw [mem_append, mem_toList_get?, Tasks.mem_getDescendants hbelow]
    simp only [mem_def, Option.some.injEq, forall_eq']
    rw [AtOrAbove, Relation.reflTransGen_iff_eq_or_transGen]
    constructor
    · rintro (⟨hmem, heq⟩ | ⟨hmem, habove⟩)
      · exact ⟨hmem, .inl heq.symm⟩
      · exact ⟨hmem, .inr habove⟩
    · rintro ⟨hmem, heq | habove⟩
      · exact .inl ⟨hmem, heq.symm⟩
      · exact .inr ⟨hmem, habove⟩

theorem nodup_loadScopedCandidates :
    (candidates.map (·.id)).Nodup := by
  unfold loadScopedCandidates at h
  split at h
  · rw [← some.inj h]
    exact Tasks.nodup_list
  · next id _ =>
    obtain ⟨below, hbelow, rfl⟩ := map_eq_some_iff.mp h
    rw [map_append, nodup_append']
    refine ⟨?_, Tasks.nodup_getDescendants hbelow, ?_⟩
    · cases tasks.get? id with
      | none => exact nodup_nil
      | some task => exact nodup_singleton _
    · intro otherId hfirst hsecond
      obtain ⟨scope, hscope, rfl⟩ := List.mem_map.mp hfirst
      obtain ⟨other, hother, heq⟩ := List.mem_map.mp hsecond
      have habove := ((Tasks.mem_getDescendants hbelow).mp hother).2
      rw [heq, (mem_toList_get?.mp hscope).2] at habove
      exact Tasks.not_cycle_of_getDescendants hbelow habove

theorem acyclicScope_of_loadScopedCandidates :
    AcyclicScope tasks scopeId := by
  intro id hid
  rw [loadScopedCandidates, mem_def.mp hid] at h
  obtain ⟨below, hbelow, -⟩ := map_eq_some_iff.mp h
  exact Tasks.not_cycle_of_getDescendants hbelow

end

theorem exists_loadScopedCandidates (runtime : Runtime β) (h : AcyclicScope tasks scopeId) :
    ∃ least, ∀ fuel, least ≤ fuel → ∃ candidates,
      loadScopedCandidates runtime tasks fuel scopeId = some candidates := by
  unfold loadScopedCandidates
  cases hscope : scopeId.bind nonEmpty with
  | none => exact ⟨0, fun _ _ => ⟨_, rfl⟩⟩
  | some id =>
    let nodes : Finset String := insert id (tasks.rows.map (·.id)).toFinset
    have hnodes : ∀ task ∈ tasks.rows, task.id ∈ nodes := fun task htask =>
      Finset.mem_insert_of_mem (List.mem_toFinset.mpr (List.mem_map_of_mem htask))
    refine ⟨weight tasks.parentOf nodes id + 1, fun fuel hfuel => ?_⟩
    obtain ⟨below, hbelow⟩ := Tasks.exists_getDescendants runtime hnodes
      (Finset.mem_insert_self _ _) (h id hscope) (Nat.lt_of_succ_le hfuel)
    exact ⟨(tasks.get? id).toList ++ below, congrArg (Option.map _) hbelow⟩

end Orqara.TaskFiles
