import Orqara.Library.Table
import Orqara.TaskFiles.TaskStore

/-!
# The order in which tasks are worked on

The tasks of a scope that are done come first, by their dates. The others follow one at a time, each
chosen among those whose dependencies and whose children in the scope came before.
-/

namespace Orqara.TaskFiles

variable {β : Type}

/-- Tasks under their ids. -/
abbrev Tasks (β : Type) := Table fun task : Task β => task.id

/-! ## What the graph is loaded from -/

namespace Tasks

variable (runtime : Runtime β) (tasks : Tasks β)

def list : List (Task β) :=
  tasks.rows.mergeSort fun a b => runtime.localeCompare a.created b.created ≤ 0

def getChildren (id : String) : List (Task β) :=
  ((list runtime tasks).filter fun task => task.parentId = some id).mergeSort
    fun a b => FileTaskStore.sortByPriorityThenCreated runtime a b ≤ 0

/-- The children in turn, each with what is below it. -/
def traverse (below : Task β → Option (List (Task β))) : List (Task β) → Option (List (Task β))
  | [] => some []
  | child :: children =>
    (below child).bind fun tasks => (traverse below children).map (child :: tasks ++ ·)

/-- The fuel bounds the depth. -/
def getDescendants : ℕ → String → Option (List (Task β))
  | 0, _ => none
  | fuel + 1, parentId =>
    traverse (fun child => getDescendants fuel child.id) (getChildren runtime tasks parentId)

end Tasks

/-! ## The graph -/

structure TaskGraph (β : Type) where
  candidates : List (Task β)
  taskMap : OrderedMap String (Task β)
  childrenMap : OrderedMap String (List (Task β))
  candidateIds : List String
  doneTaskIds : List String

def buildTaskMap (tasks : List (Task β)) : OrderedMap String (Task β) :=
  tasks.foldl (fun taskMap task => taskMap.set task.id task) ∅

def addSibling (childrenMap : OrderedMap String (List (Task β))) (task : Task β) :
    OrderedMap String (List (Task β)) :=
  match task.parentId.bind nonEmpty with
  | none => childrenMap
  | some parentId => childrenMap.set parentId ((childrenMap.get parentId).getD [] ++ [task])

def buildChildrenMap (tasks : List (Task β)) : OrderedMap String (List (Task β)) :=
  tasks.foldl addSibling ∅

def loadScopedCandidates (runtime : Runtime β) (tasks : Tasks β) (fuel : ℕ)
    (scopeId : Option String) : Option (List (Task β)) :=
  match scopeId.bind nonEmpty with
  | none => some (tasks.list runtime)
  | some scopeId =>
    (Tasks.getDescendants runtime tasks fuel scopeId).map ((tasks.get? scopeId).toList ++ ·)

def loadScopedTaskGraph (runtime : Runtime β) (tasks : Tasks β) (fuel : ℕ)
    (scopeId : Option String) : Option (TaskGraph β) :=
  let allTasks := tasks.list runtime
  (loadScopedCandidates runtime tasks fuel scopeId).map fun candidates =>
    { candidates
      taskMap := buildTaskMap allTasks
      childrenMap := buildChildrenMap allTasks
      candidateIds := candidates.map (·.id)
      doneTaskIds := (allTasks.filter (·.status = .done)).map (·.id) }

namespace TaskGraph

variable (graph : TaskGraph β)

def areTaskDepsDone (task : Task β) (completedTaskIds : List String) : Bool :=
  task.deps.all fun depId => (graph.taskMap.get depId).isSome && completedTaskIds.contains depId

def areTaskChildrenDone (taskId : String) (completedTaskIds : List String) (isScoped : Bool) : Bool :=
  ((graph.childrenMap.get taskId).getD []).all fun child =>
    (isScoped && !graph.candidateIds.contains child.id) || completedTaskIds.contains child.id

def isTaskExecutableInOrder (taskId : String) (completedTaskIds : List String) : Bool :=
  match graph.taskMap.get taskId with
  | none => false
  | some task =>
    graph.areTaskDepsDone task completedTaskIds &&
      graph.areTaskChildrenDone task.id completedTaskIds true

def getTasksById (taskIds : List String) : List (Task β) := taskIds.filterMap graph.taskMap.get

end TaskGraph

/-! ## The order -/

def Task.isPending (task : Task β) : Bool := task.status = .open || task.status = .inProgress

structure Simulation (β : Type) where
  timeline : List (Task β)
  orderMap : OrderedMap String ℕ
  orderIdx : ℕ
  simDone : List String
  remaining : OrderedMap String Unit

namespace Simulation

/-- The next place of the timeline. -/
def push (s : Simulation β) (task : Task β) : Simulation β :=
  { s with
    timeline := s.timeline ++ [task]
    orderMap := s.orderMap.set task.id s.orderIdx
    orderIdx := s.orderIdx + 1 }

def start (runtime : Runtime β) (graph : TaskGraph β) : Simulation β :=
  let done := (graph.candidates.filter (·.status = .done)).mergeSort
    fun a b => runtime.localeCompare a.created b.created ≤ 0
  let remaining := (graph.candidates.filter Task.isPending).foldl
    (fun remaining task => remaining.set task.id ()) (∅ : OrderedMap String Unit)
  done.foldl push
    { timeline := [], orderMap := ∅, orderIdx := 0, simDone := graph.doneTaskIds, remaining }

def readyNow (runtime : Runtime β) (graph : TaskGraph β) (s : Simulation β) : List (Task β) :=
  ((graph.getTasksById s.remaining.keys).filter
    fun task => graph.isTaskExecutableInOrder task.id s.simDone).mergeSort
    fun a b => FileTaskStore.sortByPriorityThenCreated runtime a b ≤ 0

def execute (s : Simulation β) (next : Task β) : Simulation β :=
  { s.push next with
    simDone := s.simDone ++ [next.id]
    remaining := s.remaining.delete next.id }

/-- The loop; nothing where the fuel does not last. -/
def run (runtime : Runtime β) (graph : TaskGraph β) : ℕ → Simulation β → Option (Simulation β)
  | fuel, s =>
    if s.remaining.keys = [] then some s
    else
      match s.readyNow runtime graph with
      | [] => some s
      | next :: _ =>
        match fuel with
        | 0 => none
        | fuel + 1 => run runtime graph fuel (s.execute next)

end Simulation

structure ExecutionOrderResult (β : Type) where
  timeline : List (Task β)
  orderMap : OrderedMap String ℕ
  blocked : List String

/-- Nothing where the walk down from the scope or the loop does not end within the fuel. -/
def computeExecutionOrder (runtime : Runtime β) (fuel : ℕ) (tasks : Tasks β)
    (scopeId : Option String) : Option (ExecutionOrderResult β) :=
  (loadScopedTaskGraph runtime tasks fuel scopeId).bind fun graph =>
    ((Simulation.start runtime graph).run runtime graph fuel).map fun s =>
      { timeline := s.timeline, orderMap := s.orderMap, blocked := s.remaining.keys }

end Orqara.TaskFiles
