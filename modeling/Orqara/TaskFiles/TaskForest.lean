import Orqara.Library.Fallible
import Orqara.Library.ParentLinks
import Orqara.TaskFiles.TaskStore

/-!
# The task tree

Links of files to the files of their parents. They stay a forest as long as every parent that
`create` or `update` writes is one that `setParent` would accept, and no text with a line break
passes for a field. In a forest the walks up and down end and meet every task once.
-/

namespace Orqara.TaskFiles

open List Option

variable {β : Type} {runtime : Runtime β} {store : FileTaskStore}

namespace FileTaskStore

/-- The file of the parent of the task in a file. -/
def link (runtime : Runtime β) (store : FileTaskStore) (name : String) : Option String :=
  (store.files.get name).bind fun document =>
    (parseTask runtime.parseContent runtime.now document).bind fun task =>
      task.parentId.map runtime.fileOf

/-- The task in a file. -/
def Stored (runtime : Runtime β) (store : FileTaskStore) (name : String) (task : Task β) : Prop :=
  ∃ document, store.files.get name = some document ∧
    parseTask runtime.parseContent runtime.now document = some task

/-- Every file is a task under its own name, and the links of the files are a forest. -/
structure TreeInv (runtime : Runtime β) (store : FileTaskStore) : Prop where
  stored : ∀ name ∈ store.files.keys, runtime.fileOf name = name ∧
    ∃ task, store.Stored runtime name task ∧ task.id = name
  forest : Forest (store.link runtime)

variable {name taskId : String} {task : Task β} {fuel : ℕ} {store' : FileTaskStore}

section

variable (h : store.Stored runtime name task)
include h

theorem Stored.link_eq :
    store.link runtime name = task.parentId.map runtime.fileOf := by
  obtain ⟨document, hget, hparse⟩ := h
  rw [link, hget, bind_some, hparse, bind_some]

omit h in
theorem link_of_not_mem (h : name ∉ store.files.keys) : store.link runtime name = none := by
  rw [link, OrderedMap.get_eq_none_iff.mpr h]
  rfl

theorem Stored.mem_keys : name ∈ store.files.keys := by
  obtain ⟨document, hget, -⟩ := h
  exact OrderedMap.mem_keys_of_get hget

theorem Stored.unique {other : Task β} (h' : store.Stored runtime name other) : task = other := by
  obtain ⟨document, hget, hparse⟩ := h
  obtain ⟨document', hget', hparse'⟩ := h'
  rw [hget] at hget'
  rw [← some.inj hget', hparse] at hparse'
  exact some.inj hparse'

end

theorem Stored.get_eq (h : store.Stored runtime (runtime.fileOf taskId) task) :
    store.get runtime taskId = .ok (some task) := by
  obtain ⟨document, hget, hparse⟩ := h
  rw [get, hget]
  simp only [hparse]

theorem get_eq_none (h : runtime.fileOf taskId ∉ store.files.keys) :
    store.get runtime taskId = .ok none := by
  rw [get, OrderedMap.get_eq_none_iff.mpr h]

theorem stored_of_get (h : store.get runtime taskId = .ok (some task)) :
    store.Stored runtime (runtime.fileOf taskId) task := by
  unfold get at h
  split at h
  · injection h with h
    cases h
  · next document hget =>
    split at h
    · cases h
    · next read hparse =>
      injection h with h
      injection h with h
      exact ⟨document, hget, h ▸ hparse⟩

theorem require_eq_ok (h : store.require runtime taskId = .ok task) :
    store.Stored runtime (runtime.fileOf taskId) task := by
  apply stored_of_get
  unfold require at h
  cases hget : store.get runtime taskId with
  | error error =>
    rw [hget] at h
    cases h
  | ok found =>
    rw [hget] at h
    cases found with
    | none => cases h
    | some found =>
      injection h with h
      rw [h]

namespace TreeInv

section

variable (h : store.TreeInv runtime)
include h

section

variable (htask : store.Stored runtime name task)
include htask

theorem id_eq :
    task.id = name := by
  obtain ⟨-, other, hother, hid⟩ := h.stored name htask.mem_keys
  rw [htask.unique hother]
  exact hid

theorem fileOf_id :
    runtime.fileOf task.id = task.id := by
  rw [h.id_eq htask]
  exact (h.stored name htask.mem_keys).1

/-! ## Writing -/

/-- A link that is there does not close a cycle. -/
theorem not_atOrAbove :
    ∀ parentId ∈ task.parentId,
      ¬ AtOrAbove (store.link runtime) (runtime.fileOf parentId) task.id := by
  intro parentId hparent
  rw [h.id_eq htask]
  apply h.forest.not_atOrAbove_parent
  rw [htask.link_eq, hparent]
  rfl

end

/-- A task is written whose parent is not below it. -/
theorem writeTask (hlines : OneLineTask task) (hfile : runtime.fileOf task.id = task.id)
    (hparent : ∀ parentId ∈ task.parentId, parentId ≠ "" →
      ¬ AtOrAbove (store.link runtime) (runtime.fileOf parentId) task.id) :
    (store.writeTask runtime task).TreeInv runtime := by
  obtain ⟨read, hread, hid, hreadParent⟩ :=
    parseTask_serializeTask runtime.renderContent runtime.parseContent runtime.now hlines
  have hself : (store.writeTask runtime task).Stored runtime task.id read := by
    refine ⟨_, ?_, hread⟩
    rw [FileTaskStore.writeTask, hfile]
    exact OrderedMap.get_set_self
  have hother : ∀ other, other ≠ task.id →
      (store.writeTask runtime task).files.get other = store.files.get other := by
    intro other hne
    rw [FileTaskStore.writeTask, hfile]
    exact OrderedMap.get_set_ne hne
  have hlink : ∀ other, other ≠ task.id →
      (store.writeTask runtime task).link runtime other = store.link runtime other := by
    intro other hne
    rw [link, link, hother other hne]
  constructor
  · intro other hmem
    by_cases hne : other = task.id
    · rw [hne]
      exact ⟨hfile, read, hself, hid⟩
    · rw [OrderedMap.mem_keys_iff, hother other hne, ← OrderedMap.mem_keys_iff] at hmem
      obtain ⟨hname, found, ⟨document, hget, hparse⟩, hfound⟩ := h.stored other hmem
      exact ⟨hname, found, ⟨document, (hother other hne).trans hget, hparse⟩, hfound⟩
  · have hnew := hself.link_eq
    rw [hreadParent] at hnew
    cases hfilter : task.parentId.filter (· ≠ "") with
    | none =>
      rw [hfilter] at hnew
      apply h.forest.mono
      intro a b hab
      by_cases ha : a = task.id
      · rw [ha, hnew] at hab
        cases hab
      · rw [hlink a ha] at hab
        exact hab
    | some parentId =>
      rw [hfilter] at hnew
      obtain ⟨hmem, hne⟩ := filter_eq_some_iff.mp hfilter
      apply h.forest.relink hlink
      · intro y hy
        rw [hnew] at hy
        exact (some.inj hy).symm
      · exact hparent parentId hmem (by simpa using hne)

theorem delete (name : String) :
    FileTaskStore.TreeInv runtime ⟨store.files.delete name⟩ := by
  have hsub : ∀ other document, (store.files.delete name).get other = some document →
      store.files.get other = some document := by
    intro other document hget
    rw [OrderedMap.get_delete] at hget
    split at hget
    · cases hget
    · exact hget
  constructor
  · intro other hmem
    obtain ⟨document, hget⟩ := OrderedMap.get_of_mem_keys hmem
    have hold := hsub other document hget
    obtain ⟨hname, task, htask, hid⟩ := h.stored other (OrderedMap.mem_keys_of_get hold)
    refine ⟨hname, task, ⟨document, hget, ?_⟩, hid⟩
    obtain ⟨document', hget', hparse⟩ := htask
    rw [hold] at hget'
    rw [some.inj hget']
    exact hparse
  · apply h.forest.mono
    intro a b hab
    unfold link at hab ⊢
    obtain ⟨document, hget, hrest⟩ := bind_eq_some_iff.mp hab
    rw [hsub a document hget]
    exact hrest

end

end TreeInv

/-! ## The walk up -/

section

variable (h : store.TreeInv runtime) {changes : TaskChanges β}
include h

/-- The walk up ends, and meets each task once. -/
theorem TreeInv.ancestors {currentId : String}
    (hfuel : depth (store.link runtime) store.files.keys.toFinset (runtime.fileOf currentId) <
      fuel) :
    ∃ ancestors, store.getAncestorsFrom runtime fuel currentId = some (.ok ancestors) ∧
      (ancestors.map (·.id)).Nodup ∧ ∀ ancestor ∈ ancestors,
        AtOrAbove (store.link runtime) (runtime.fileOf currentId) ancestor.id := by
  induction fuel generalizing currentId with
  | zero => exact absurd hfuel (Nat.not_lt_zero _)
  | succ fuel ih =>
    by_cases hmem : runtime.fileOf currentId ∈ store.files.keys
    · obtain ⟨-, task, htask, hid⟩ := h.stored _ hmem
      rw [getAncestorsFrom, htask.get_eq]
      cases hparent : task.parentId with
      | none =>
        refine ⟨[task], by simp only [hparent], by simp, ?_⟩
        intro ancestor hancestor
        rw [mem_singleton.mp hancestor, hid]
        exact .refl
      | some parentId =>
        have hlink : store.link runtime (runtime.fileOf currentId) =
            some (runtime.fileOf parentId) := by
          rw [htask.link_eq, hparent]
          rfl
        have hless := h.forest.depth_lt (List.mem_toFinset.mpr hmem) hlink
        have hnext : depth (store.link runtime) store.files.keys.toFinset
            (runtime.fileOf parentId) < fuel := by
          omega
        obtain ⟨ancestors, hwalk, hnodup, habove⟩ := ih hnext
        refine ⟨task :: ancestors, by simp only [hparent, hwalk, map_some]; rfl, ?_, ?_⟩
        · rw [map_cons, nodup_cons]
          refine ⟨?_, hnodup⟩
          intro hagain
          obtain ⟨ancestor, hancestor, hsame⟩ := List.mem_map.mp hagain
          have hcycle := habove ancestor hancestor
          rw [hsame, hid] at hcycle
          exact h.forest.not_atOrAbove_parent hlink hcycle
        · intro ancestor hancestor
          rcases mem_cons.mp hancestor with rfl | hmem'
          · rw [hid]
            exact .refl
          · exact Relation.ReflTransGen.head hlink (habove ancestor hmem')
    · rw [getAncestorsFrom, get_eq_none hmem]
      exact ⟨[], rfl, nodup_nil, nofun⟩

/-- The walk up misses none of the tasks above. -/
theorem TreeInv.mem_ancestors {currentId : String} {ancestors : List (Task β)}
    (hwalk : store.getAncestorsFrom runtime fuel currentId = some (.ok ancestors))
    (habove : AtOrAbove (store.link runtime) (runtime.fileOf currentId) name)
    (hname : name ∈ store.files.keys) : ∃ ancestor ∈ ancestors, ancestor.id = name := by
  induction fuel generalizing currentId ancestors with
  | zero => cases hwalk
  | succ fuel ih =>
    by_cases hmem : runtime.fileOf currentId ∈ store.files.keys
    · obtain ⟨-, task, htask, hid⟩ := h.stored _ hmem
      rw [getAncestorsFrom, htask.get_eq] at hwalk
      cases hparent : task.parentId with
      | none =>
        simp only [hparent] at hwalk
        injection hwalk with hwalk
        injection hwalk with hwalk
        have hlink : store.link runtime (runtime.fileOf currentId) = none := by
          rw [htask.link_eq, hparent]
          rfl
        rcases Relation.ReflTransGen.cases_head habove with heq | ⟨next, hnext, -⟩
        · exact ⟨task, hwalk ▸ mem_cons_self, hid.trans heq⟩
        · exact absurd (hlink.symm.trans hnext) nofun
      | some parentId =>
        simp only [hparent] at hwalk
        have hlink : store.link runtime (runtime.fileOf currentId) =
            some (runtime.fileOf parentId) := by
          rw [htask.link_eq, hparent]
          rfl
        obtain ⟨answer, hrest, hanswer⟩ := map_eq_some_iff.mp hwalk
        cases answer with
        | error error => cases hanswer
        | ok rest =>
          injection hanswer with hanswer
          rcases Relation.ReflTransGen.cases_head habove with heq | ⟨next, hnext, hrestAbove⟩
          · exact ⟨task, hanswer ▸ mem_cons_self, hid.trans heq⟩
          · rw [rightUnique_isParent hnext hlink] at hrestAbove
            obtain ⟨ancestor, hancestor, hsame⟩ := ih hrest hrestAbove
            exact ⟨ancestor, hanswer ▸ mem_cons_of_mem _ hancestor, hsame⟩
    · rcases Relation.ReflTransGen.cases_head habove with heq | ⟨next, hnext, -⟩
      · exact absurd (heq ▸ hname) hmem
      · exact absurd ((link_of_not_mem hmem).symm.trans hnext) nofun

/-! ## The walk down -/

theorem TreeInv.mapM_get (names : List String) (hnames : ∀ name ∈ names, name ∈ store.files.keys) :
    ∃ loaded, names.mapM (store.get runtime) = .ok loaded ∧
      (loaded.filterMap id).map (·.id) = names ∧
      ∀ task ∈ loaded.filterMap id, store.Stored runtime task.id task := by
  induction names with
  | nil => exact ⟨[], rfl, rfl, nofun⟩
  | cons name names ih =>
    obtain ⟨loaded, hloaded, hids, hstored⟩ :=
      ih fun other hother => hnames other (mem_cons_of_mem _ hother)
    obtain ⟨hname, task, htask, hid⟩ := h.stored name (hnames name mem_cons_self)
    have hget : store.get runtime name = .ok (some task) := by
      apply Stored.get_eq
      rw [hname]
      exact htask
    have hcons : (some task :: loaded).filterMap id = task :: loaded.filterMap id := rfl
    refine ⟨some task :: loaded, ?_, ?_, ?_⟩
    · rw [mapM_cons, hget, hloaded]
      rfl
    · rw [hcons, map_cons, hids]
      exact congrArg (· :: names) hid
    · intro other hother
      rw [hcons] at hother
      rcases mem_cons.mp hother with heq | hmem
      · rw [heq, hid]
        exact htask
      · exact hstored other hmem

theorem TreeInv.getChildren (parentId : String) :
    ∃ children, store.getChildren runtime parentId = .ok children ∧
      (children.map (·.id)).Nodup ∧ ∀ child ∈ children, store.Stored runtime child.id child ∧
        store.link runtime child.id = some (runtime.fileOf parentId) := by
  obtain ⟨loaded, hloaded, hids, hstored⟩ := h.mapM_get store.files.keys fun _ hname => hname
  have hlist : store.list runtime = .ok ((loaded.filterMap id).mergeSort
      fun a b => runtime.localeCompare a.created b.created ≤ 0) := by
    rw [list, hloaded]
    rfl
  rw [FileTaskStore.getChildren, hlist]
  refine ⟨_, rfl, ?_, ?_⟩
  · have hnodup : ((loaded.filterMap id).map (·.id)).Nodup := by
      rw [hids]
      exact store.files.nodup_keys
    have hsorted := ((mergeSort_perm (loaded.filterMap id)
      fun a b => runtime.localeCompare a.created b.created ≤ 0).map (·.id)).nodup_iff.mpr hnodup
    apply ((mergeSort_perm _ _).map _).nodup_iff.mpr
    exact hsorted.sublist (filter_sublist.map _)
  · intro child hchild
    rw [mem_mergeSort, mem_filter, mem_mergeSort] at hchild
    have hparent : child.parentId = some parentId := by simpa using hchild.2
    refine ⟨hstored child hchild.1, ?_⟩
    rw [(hstored child hchild.1).link_eq, hparent]
    rfl

/-- The subtrees of the children of one task have no task in common. -/
theorem TreeInv.collect {below : Task β → Option (Except TaskError (List (Task β)))} {parent : String}
    {children : List (Task β)} (hnodup : (children.map (·.id)).Nodup)
    (hlink : ∀ child ∈ children, store.link runtime child.id = some parent)
    (hbelow : ∀ child ∈ children, ∃ tasks, below child = some (.ok tasks) ∧
      (tasks.map (·.id)).Nodup ∧ ∀ task ∈ tasks, Above (store.link runtime) task.id child.id) :
    ∃ tasks, collect below children = some (.ok tasks) ∧ (tasks.map (·.id)).Nodup ∧
      ∀ task ∈ tasks, ∃ child ∈ children, AtOrAbove (store.link runtime) task.id child.id := by
  induction children with
  | nil => exact ⟨[], rfl, nodup_nil, nofun⟩
  | cons child children ih =>
    rw [map_cons, nodup_cons] at hnodup
    obtain ⟨rest, hrest, hrestNodup, hrestBelow⟩ := ih hnodup.2
      (fun other hother => hlink other (mem_cons_of_mem _ hother))
      (fun other hother => hbelow other (mem_cons_of_mem _ hother))
    obtain ⟨tasks, htasks, htasksNodup, htasksBelow⟩ := hbelow child mem_cons_self
    have hchild := hlink child mem_cons_self
    -- a task of this subtree and one of another would be above both of the children
    have hapart : ∀ task ∈ child :: tasks, ∀ other ∈ rest, task.id ≠ other.id := by
      intro task htask other hother hsame
      have habove : AtOrAbove (store.link runtime) task.id child.id := by
        rcases mem_cons.mp htask with rfl | hmem
        · exact .refl
        · exact (htasksBelow task hmem).to_reflTransGen
      obtain ⟨sibling, hsibling, hsiblingAbove⟩ := hrestBelow other hother
      have hne : child.id ≠ sibling.id := fun heq =>
        hnodup.1 (heq ▸ List.mem_map_of_mem hsibling)
      have hsiblingLink := hlink sibling (mem_cons_of_mem _ hsibling)
      rw [← hsame] at hsiblingAbove
      rcases habove.total hsiblingAbove with hup | hdown
      · exact h.forest.siblings hchild hsiblingLink hne hup
      · exact h.forest.siblings hsiblingLink hchild hne.symm hdown
    refine ⟨child :: tasks ++ rest, ?_, ?_, ?_⟩
    · simp only [FileTaskStore.collect, htasks, hrest, map_some]
      rfl
    · rw [map_append, nodup_append]
      refine ⟨?_, hrestNodup, ?_⟩
      · rw [map_cons, nodup_cons]
        refine ⟨?_, htasksNodup⟩
        intro hagain
        obtain ⟨task, htask, hsame⟩ := List.mem_map.mp hagain
        have hcycle := htasksBelow task htask
        rw [hsame] at hcycle
        exact h.forest child.id hcycle
      · intro a ha b hb
        obtain ⟨task, htask, rfl⟩ := List.mem_map.mp ha
        obtain ⟨other, hother, rfl⟩ := List.mem_map.mp hb
        exact hapart task htask other hother
    · intro task htask
      rcases mem_append.mp htask with hmem | hmem
      · refine ⟨child, mem_cons_self, ?_⟩
        rcases mem_cons.mp hmem with rfl | hmem
        · exact .refl
        · exact (htasksBelow task hmem).to_reflTransGen
      · obtain ⟨other, hother, habove⟩ := hrestBelow task hmem
        exact ⟨other, mem_cons_of_mem _ hother, habove⟩

/-- The walk down ends, and meets each task once. -/
theorem TreeInv.descendants {parentId : String} (hfuel : store.files.keys.toFinset.card < fuel +
      depth (store.link runtime) store.files.keys.toFinset (runtime.fileOf parentId)) :
    ∃ tasks, store.getDescendants runtime fuel parentId = some (.ok tasks) ∧
      (tasks.map (·.id)).Nodup ∧
      ∀ task ∈ tasks, Above (store.link runtime) task.id (runtime.fileOf parentId) := by
  induction fuel generalizing parentId with
  | zero =>
    have hle : depth (store.link runtime) store.files.keys.toFinset (runtime.fileOf parentId) ≤
        store.files.keys.toFinset.card := depth_le _ _
    omega
  | succ fuel ih =>
    obtain ⟨children, hchildren, hnodup, hspec⟩ := h.getChildren parentId
    have hbelow : ∀ child ∈ children, ∃ tasks,
        store.getDescendants runtime fuel child.id = some (.ok tasks) ∧
        (tasks.map (·.id)).Nodup ∧
        ∀ task ∈ tasks, Above (store.link runtime) task.id child.id := by
      intro child hchild
      obtain ⟨hstored, hlink⟩ := hspec child hchild
      have hname : runtime.fileOf child.id = child.id := h.fileOf_id hstored
      have hless := h.forest.depth_lt (List.mem_toFinset.mpr hstored.mem_keys) hlink
      have hchildFuel : store.files.keys.toFinset.card < fuel +
          depth (store.link runtime) store.files.keys.toFinset (runtime.fileOf child.id) := by
        rw [hname]
        omega
      obtain ⟨tasks, htasks, htasksNodup, habove⟩ := ih hchildFuel
      rw [hname] at habove
      exact ⟨tasks, htasks, htasksNodup, habove⟩
    obtain ⟨tasks, htasks, htasksNodup, habove⟩ :=
      h.collect hnodup (fun child hchild => (hspec child hchild).2) hbelow
    refine ⟨tasks, ?_, htasksNodup, ?_⟩
    · rw [getDescendants, hchildren]
      exact htasks
    · intro task htask
      obtain ⟨child, hchild, hup⟩ := habove task htask
      exact Relation.TransGen.tail' hup (hspec child hchild).2

/-! ## Operations -/

/-- Texts that are written into the front matter are in one line. -/
structure OneLineOptions (title : String) (opts : CreateTaskOptions β) : Prop where
  title : OneLine title
  deps : ∀ deps ∈ opts.deps, ∀ dep ∈ deps, OneLine dep
  parentId : ∀ parentId ∈ opts.parentId, OneLine parentId
  status : ∀ status ∈ opts.status, OneLine status.text
  assignee : ∀ assignee ∈ opts.assignee, OneLine assignee

structure OneLineChanges (changes : TaskChanges β) : Prop where
  title : ∀ title ∈ changes.title, OneLine title
  status : ∀ status ∈ changes.status, OneLine status.text
  deps : ∀ deps ∈ changes.deps, ∀ dep ∈ deps, OneLine dep
  parentId : ∀ value ∈ changes.parentId, ∀ parentId ∈ value, OneLine parentId
  assignee : ∀ value ∈ changes.assignee, ∀ assignee ∈ value, OneLine assignee

/-- A parent that is neither the task in a file nor below it. -/
def FreeParent (runtime : Runtime β) (store : FileTaskStore) (name : String)
    (parentId : Option String) : Prop :=
  ∀ parent ∈ parentId, parent ≠ "" →
    ¬ AtOrAbove (store.link runtime) (runtime.fileOf parent) name

/-- What keeps the tree a forest: texts in one line, parents that are not below their tasks where
nothing checks it, and the task's own id where `setParent` checks it. -/
def Harmless (runtime : Runtime β) (store : FileTaskStore) : TaskOperation β → Prop
  | .create title opts random _ =>
    OneLineOptions title opts ∧ store.FreeParent runtime (generateId random) opts.parentId
  | .update id changes => OneLineChanges changes ∧
    ∀ value ∈ changes.parentId, store.FreeParent runtime (runtime.fileOf id) value
  | .setParent id parentId => (∀ parent ∈ parentId, OneLine parent) ∧
    ∀ task, store.get runtime id = .ok (some task) → task.id = id
  | .addDep _ depId => OneLine depId
  | _ => True

omit h in
theorem oneLine_apply (hchanges : OneLineChanges changes) (htask : OneLineTask task) :
    OneLineTask (changes.apply task) where
  id := htask.id
  title := by
    show OneLine (changes.title.getD task.title)
    cases htitle : changes.title with
    | none => exact htask.title
    | some title => exact hchanges.title title htitle
  status := by
    show OneLine (changes.status.getD task.status).text
    cases hstatus : changes.status with
    | none => exact htask.status
    | some status => exact hchanges.status status hstatus
  deps := by
    show ∀ dep ∈ changes.deps.getD task.deps, OneLine dep
    cases hdeps : changes.deps with
    | none => exact htask.deps
    | some deps => exact hchanges.deps deps hdeps
  parentId := by
    show ∀ parentId ∈ changes.parentId.getD task.parentId, OneLine parentId
    cases hparent : changes.parentId with
    | none => exact htask.parentId
    | some parentId => exact hchanges.parentId parentId hparent
  created := htask.created
  assignee := by
    show ∀ assignee ∈ changes.assignee.getD task.assignee, OneLine assignee
    cases hassignee : changes.assignee with
    | none => exact htask.assignee
    | some assignee => exact hchanges.assignee assignee hassignee

omit h in
theorem Stored.oneLine (h : store.Stored runtime name task) : OneLineTask task := by
  obtain ⟨document, -, hparse⟩ := h
  exact oneLine_parseTask hparse

theorem TreeInv.update (hchanges : OneLineChanges changes)
    (hfree : ∀ value ∈ changes.parentId, store.FreeParent runtime (runtime.fileOf taskId) value)
    (hupdate : store.update runtime taskId changes = .ok store') : store'.TreeInv runtime := by
  obtain ⟨task, hrequire, rfl⟩ := map_eq_ok.mp hupdate
  have htask := require_eq_ok hrequire
  apply h.writeTask (oneLine_apply hchanges htask.oneLine)
  · show runtime.fileOf task.id = task.id
    exact h.fileOf_id htask
  · intro parentId hparent hne
    show ¬ AtOrAbove _ _ task.id
    change parentId ∈ changes.parentId.getD task.parentId at hparent
    cases hvalue : changes.parentId with
    | none =>
      rw [hvalue] at hparent
      exact h.not_atOrAbove htask parentId hparent
    | some value =>
      rw [hvalue] at hparent
      rw [h.id_eq htask]
      exact hfree value hvalue parentId hparent hne

omit h in
theorem oneLine_open : OneLine TaskStatus.open.text := by
  show OneLine "open"
  simp [OneLine, isLineTerminator]

omit h in
theorem oneLine_hexDigit (n : ℕ) (h : n < 16) : isLineTerminator (Json.hexDigit n) = false := by
  interval_cases n <;> decide

omit h in
theorem oneLine_generateId (random : BitVec 32) : OneLine (generateId random) := by
  intro c hc
  rw [generateId, String.toList_ofList] at hc
  obtain ⟨i, -, rfl⟩ := List.mem_map.mp hc
  exact oneLine_hexDigit _ (Nat.mod_lt _ (by decide))

theorem TreeInv.create {title : String} {opts : CreateTaskOptions β} {random : BitVec 32}
    {created : IsoDate} (hlines : OneLineOptions title opts)
    (hfree : store.FreeParent runtime (generateId random) opts.parentId)
    (hcreate : store.create runtime title opts random created = .ok store') :
    store'.TreeInv runtime := by
  have hlines' : OneLineTask
      { id := generateId random
        title
        status := opts.status.getD .open
        deps := opts.deps.getD []
        parentId := opts.parentId
        content := opts.content
        created := created.text
        assignee := opts.assignee
        priority := opts.priority } :=
    { id := oneLine_generateId random
      title := hlines.title
      status := by
        cases hstatus : opts.status with
        | none => exact oneLine_open
        | some status => exact hlines.status status hstatus
      deps := by
        cases hdeps : opts.deps with
        | none => exact nofun
        | some deps => exact hlines.deps deps hdeps
      parentId := hlines.parentId
      created := created.oneLine
      assignee := hlines.assignee }
  have hwritten := h.writeTask hlines' (runtime.fileOf_generateId random) hfree
  unfold FileTaskStore.create at hcreate
  simp only at hcreate
  split at hcreate
  · injection hcreate with hcreate
    rw [← hcreate]
    exact hwritten
  · obtain ⟨found, -, hcreate⟩ := bind_eq_ok.mp hcreate
    cases found with
    | none => cases hcreate
    | some parent =>
      injection hcreate with hcreate
      rw [← hcreate]
      exact hwritten

theorem TreeInv.delete_task (hdelete : store.delete runtime taskId = .ok store') :
    store'.TreeInv runtime := by
  obtain ⟨task, -, rfl⟩ := map_eq_ok.mp hdelete
  exact h.delete _

/-- A task that keeps its parent is written. -/
theorem TreeInv.writeDeps (htask : store.Stored runtime name task) {deps : List String}
    (hdeps : ∀ dep ∈ deps, OneLine dep) :
    (store.writeTask runtime { task with deps }).TreeInv runtime := by
  have hlines := htask.oneLine
  have hlines' : OneLineTask { task with deps } :=
    ⟨hlines.id, hlines.title, hlines.status, hdeps, hlines.parentId, hlines.created,
      hlines.assignee⟩
  apply h.writeTask hlines'
  · show runtime.fileOf task.id = task.id
    exact h.fileOf_id htask
  · intro parentId hparent _
    show ¬ AtOrAbove _ _ task.id
    exact h.not_atOrAbove htask parentId hparent

theorem TreeInv.addDep {depId : String} (hline : OneLine depId)
    (hadd : store.addDep runtime taskId depId = .ok store') :
    store'.TreeInv runtime := by
  obtain ⟨task, hrequire, hadd⟩ := bind_eq_ok.mp hadd
  obtain ⟨found, -, hadd⟩ := bind_eq_ok.mp hadd
  have htask := require_eq_ok hrequire
  cases found with
  | none => cases hadd
  | some dep =>
    simp only at hadd
    split at hadd
    · injection hadd with hadd
      rw [← hadd]
      exact h
    · injection hadd with hadd
      rw [← hadd]
      apply h.writeDeps htask
      intro other hother
      rcases mem_append.mp hother with hold | hnew
      · exact htask.oneLine.deps other hold
      · rw [mem_singleton.mp hnew]
        exact hline

theorem TreeInv.removeDep {depId : String} (hremove : store.removeDep runtime taskId depId = .ok store') :
    store'.TreeInv runtime := by
  obtain ⟨task, hrequire, rfl⟩ := map_eq_ok.mp hremove
  have htask := require_eq_ok hrequire
  apply h.writeDeps htask
  exact fun dep hdep => htask.oneLine.deps dep (mem_filter.mp hdep).1

/-- The check of `setParent` finds a task that its new parent is below. -/
theorem TreeInv.setParent {parentId : Option String} (hline : ∀ parent ∈ parentId, OneLine parent)
    (hown : ∀ task, store.get runtime taskId = .ok (some task) → task.id = taskId)
    (hset : store.setParent runtime fuel taskId parentId = some (.ok store')) :
    store'.TreeInv runtime := by
  have hchanges : OneLineChanges { (TaskChanges.none : TaskChanges β) with
      parentId := some parentId } := by
    refine ⟨nofun, nofun, nofun, ?_, nofun⟩
    intro value hvalue
    rw [← some.inj hvalue]
    exact hline
  have hupdated : ∀ {store'}, store.FreeParent runtime (runtime.fileOf taskId) parentId →
      store.update runtime taskId { (TaskChanges.none : TaskChanges β) with
        parentId := some parentId } = .ok store' → store'.TreeInv runtime := by
    intro store' hfree hupdate
    apply h.update hchanges _ hupdate
    intro value hvalue
    rw [← some.inj hvalue]
    exact hfree
  unfold FileTaskStore.setParent at hset
  cases hrequire : store.require runtime taskId with
  | error error =>
    rw [hrequire] at hset
    cases hset
  | ok task =>
    have htask := require_eq_ok hrequire
    have hname : runtime.fileOf taskId = taskId := by
      rw [← hown task htask.get_eq]
      exact h.fileOf_id htask
    simp only [hrequire] at hset
    split at hset
    · next hnone =>
      apply hupdated _ (some.inj hset)
      intro parent hparent hne
      rw [hparent, bind_some, nonEmpty, if_neg hne] at hnone
      cases hnone
    · next parent hparent =>
      split at hset
      · cases hset
      · cases hset
      · split at hset
        · cases hset
        · split at hset
          · cases hset
          · cases hset
          · next ancestors hwalk =>
            split at hset
            · cases hset
            · next hnone =>
              apply hupdated _ (some.inj hset)
              intro other hother _ habove
              obtain ⟨value, hvalue, hnonEmpty⟩ := bind_eq_some_iff.mp hparent
              have hsame : other = parent := by
                rw [hother] at hvalue
                rw [some.inj hvalue]
                unfold nonEmpty at hnonEmpty
                split at hnonEmpty
                · cases hnonEmpty
                · exact some.inj hnonEmpty
              rw [hsame, hname] at habove
              obtain ⟨ancestor, hancestor, hid⟩ :=
                h.mem_ancestors hwalk habove (hname ▸ htask.mem_keys)
              apply hnone
              rw [List.any_eq_true]
              exact ⟨ancestor, hancestor, by simpa using hid⟩

/-! ## Runs -/

theorem TreeInv.step {operation : TaskOperation β} (hharmless : store.Harmless runtime operation)
    (hstep : store.step runtime fuel operation = some store') : store'.TreeInv runtime := by
  obtain ⟨answer, hperform, rfl⟩ := map_eq_some_iff.mp hstep
  cases answer with
  | error error => exact h
  | ok store' =>
    cases operation with
    | create title opts random created =>
      exact h.create hharmless.1 hharmless.2 (some.inj hperform)
    | update id changes => exact h.update hharmless.1 hharmless.2 (some.inj hperform)
    | setParent id parentId => exact h.setParent hharmless.1 hharmless.2 hperform
    | delete id => exact h.delete_task (some.inj hperform)
    | addDep id depId => exact h.addDep hharmless (some.inj hperform)
    | removeDep id depId => exact h.removeDep (some.inj hperform)

/-- Every operation of a run is harmless when it is called. -/
def HarmlessRun (runtime : Runtime β) (fuel : ℕ) (store : FileTaskStore) :
    List (TaskOperation β) → Prop
  | [] => True
  | operation :: operations => store.Harmless runtime operation ∧
    ∀ store' ∈ store.step runtime fuel operation, HarmlessRun runtime fuel store' operations

theorem TreeInv.run {operations : List (TaskOperation β)}
    (hharmless : HarmlessRun runtime fuel store operations)
    (hrun : store.run runtime fuel operations = some store') : store'.TreeInv runtime := by
  induction operations generalizing store with
  | nil =>
    rw [← some.inj hrun]
    exact h
  | cons operation operations ih =>
    obtain ⟨middle, hstep, hrest⟩ := bind_eq_some_iff.mp hrun
    exact ih (h.step hharmless.1 hstep) (hharmless.2 middle hstep) hrest

omit h in
theorem treeInv_empty : empty.TreeInv runtime where
  stored := nofun
  forest := forest_of_empty fun _ => rfl

/-- The links are a forest, and the walks over it end and return each task at most once. -/
structure IsForest (runtime : Runtime β) (store : FileTaskStore) : Prop where
  forest : Forest (store.link runtime)
  ancestors : ∀ id, ∃ fuel answer, store.getAncestors runtime fuel id = some answer ∧
    ∀ tasks, answer = .ok tasks → (tasks.map (·.id)).Nodup
  descendants : ∀ id, ∃ fuel tasks, store.getDescendants runtime fuel id = some (.ok tasks) ∧
    (tasks.map (·.id)).Nodup

theorem TreeInv.isForest : store.IsForest runtime where
  forest := h.forest
  ancestors := fun id => by
    cases hrequire : store.require runtime id with
    | error error =>
      exact ⟨0, .error error, by rw [getAncestors, hrequire], nofun⟩
    | ok task =>
      cases hparent : task.parentId with
      | none =>
        refine ⟨0, .ok [], by rw [getAncestors, hrequire]; simp only [hparent], ?_⟩
        intro tasks htasks
        injection htasks with htasks
        rw [← htasks]
        exact List.nodup_nil
      | some parentId =>
        have hfuel : depth (store.link runtime) store.files.keys.toFinset
            (runtime.fileOf parentId) < store.files.keys.toFinset.card + 1 :=
          Nat.lt_succ_of_le (depth_le _ _)
        obtain ⟨ancestors, hwalk, hnodup, -⟩ := h.ancestors hfuel
        refine ⟨store.files.keys.toFinset.card + 1, .ok ancestors, ?_, ?_⟩
        · rw [getAncestors, hrequire]
          simp only [hparent]
          exact hwalk
        · intro tasks htasks
          injection htasks with htasks
          rw [← htasks]
          exact hnodup
  descendants := fun id => by
    have hfuel : store.files.keys.toFinset.card < store.files.keys.toFinset.card + 1 +
        depth (store.link runtime) store.files.keys.toFinset (runtime.fileOf id) := by
      omega
    obtain ⟨tasks, hwalk, hnodup, -⟩ := h.descendants hfuel
    exact ⟨_, tasks, hwalk, hnodup⟩

end

/-- In every run of harmless operations from an empty directory. -/
theorem taskTree_isForest (runtime : Runtime β) (fuel : ℕ) (operations : List (TaskOperation β))
    (store : FileTaskStore) (hharmless : HarmlessRun runtime fuel empty operations)
    (hrun : empty.run runtime fuel operations = some store) : store.IsForest runtime :=
  (treeInv_empty.run hharmless hrun).isForest

/-! ## A cycle -/

/-- Documents without a body, over file names as ids. -/
def plainRuntime : Runtime Unit where
  renderContent _ := ""
  parseContent _ := ()
  fileOf := id
  fileOf_generateId _ := rfl
  localeCompare _ _ := 0
  now := ⟨"2026-01-01T00:00:00.000Z", by simp [OneLine, isLineTerminator]⟩

def plainOptions : CreateTaskOptions Unit := ⟨none, none, none, (), none, none⟩

/-- A task is created and updated to be its own parent. -/
def ownParent : List (TaskOperation Unit) :=
  [.create "a" plainOptions 1 plainRuntime.now,
    .update (generateId 1) { TaskChanges.none with parentId := some (some (generateId 1)) }]

theorem update_closes_cycle :
    ∃ store, empty.run plainRuntime 0 ownParent = some store ∧
      ¬ Forest (store.link plainRuntime) ∧
      ∀ fuel, store.getAncestors plainRuntime fuel (generateId 1) = none := by
  have hrun : ((empty.run plainRuntime 0 ownParent).bind fun store =>
      store.link plainRuntime (generateId 1)) = some (generateId 1) := by
    decide +kernel
  obtain ⟨store, hstore, hlink⟩ := Option.bind_eq_some_iff.mp hrun
  refine ⟨store, hstore, fun hforest => hforest _ (Relation.TransGen.single hlink), ?_⟩
  obtain ⟨document, hget, hread⟩ := Option.bind_eq_some_iff.mp hlink
  obtain ⟨task, hparse, hparent⟩ := Option.bind_eq_some_iff.mp hread
  have htask : store.get plainRuntime (generateId 1) = .ok (some task) :=
    Stored.get_eq ⟨document, hget, hparse⟩
  have hparent : task.parentId = some (generateId 1) := by
    obtain ⟨parentId, hsome, hid⟩ := Option.map_eq_some_iff.mp hparent
    rw [hsome]
    exact congrArg some hid
  have hwalk : ∀ fuel, store.getAncestorsFrom plainRuntime fuel (generateId 1) = none := by
    intro fuel
    induction fuel with
    | zero => rfl
    | succ fuel ih =>
      rw [getAncestorsFrom, htask]
      simp only [hparent, ih, Option.map_none]
  have hrequire : store.require plainRuntime (generateId 1) = .ok task := by
    rw [require, htask]
    rfl
  intro fuel
  rw [getAncestors, hrequire]
  simp only [hparent]
  exact hwalk fuel

/-- Two tasks are created, and one becomes the parent of the other. -/
def childOfOther : List (TaskOperation Unit) :=
  [.create "a" plainOptions 1 plainRuntime.now, .create "b" plainOptions 2 plainRuntime.now,
    .setParent (generateId 2) (some (generateId 1))]

theorem harmless_create_plain {title : String} (h : OneLine title) (store : FileTaskStore)
    (random : BitVec 32) (created : IsoDate) :
    store.Harmless plainRuntime (.create title plainOptions random created) :=
  ⟨⟨h, nofun, nofun, nofun, nofun⟩, nofun⟩

theorem taskTree_isForest_childOfOther :
    ∃ store, empty.run plainRuntime 3 childOfOther = some store ∧
      store.link plainRuntime (generateId 2) = some (generateId 1) ∧
      store.IsForest plainRuntime := by
  have hrun : ((empty.run plainRuntime 3 childOfOther).bind fun store =>
      store.link plainRuntime (generateId 2)) = some (generateId 1) := by
    decide +kernel
  obtain ⟨store, hstore, hlink⟩ := Option.bind_eq_some_iff.mp hrun
  have ha : OneLine "a" := by simp [OneLine, isLineTerminator]
  have hb : OneLine "b" := by simp [OneLine, isLineTerminator]
  have hfirst := harmless_create_plain ha
  have hsecond := harmless_create_plain hb
  refine ⟨store, hstore, hlink, taskTree_isForest plainRuntime 3 childOfOther store ?_ hstore⟩
  refine ⟨hfirst _ _ _, fun one hone => ⟨hsecond _ _ _, fun two htwo => ⟨⟨?_, ?_⟩,
    fun _ _ => trivial⟩⟩⟩
  · intro parent hparent
    rw [← Option.some.inj hparent]
    exact oneLine_generateId 1
  · intro task htask
    have hinv : two.TreeInv plainRuntime :=
      (treeInv_empty.step (hfirst _ _ _) hone).step (hsecond _ _ _) htwo
    exact hinv.id_eq (stored_of_get htask)

end FileTaskStore

end Orqara.TaskFiles
