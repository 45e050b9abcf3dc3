import Orqara.Library.JsonText
import Orqara.Library.OrderedMap
import Orqara.TaskFiles.TaskDocument

/-!
# The store of task documents

Every task is a file, which its id names. An operation reads the files it needs, and writes one
of them as a whole. Only `setParent` looks for a cycle before it writes the parent of a task;
the walks up and down the tree do not keep what they have visited.
-/

namespace Orqara.TaskFiles

variable {β : Type}

/-- `randomBytes(4).toString("hex")` -/
def generateId (random : BitVec 32) : String :=
  String.ofList ((List.range 8).map fun i => Json.hexDigit (random.toNat / 16 ^ (7 - i) % 16))

/-- What the store has from the runtime, and the part of a document after its front matter. -/
structure Runtime (β : Type) where
  renderContent : β → String
  parseContent : String → β
  /-- The file that an id leads to, without its extension. -/
  fileOf : String → String
  /-- an id without separators is the name of its file -/
  fileOf_generateId : ∀ random, fileOf (generateId random) = generateId random
  localeCompare : String → String → ℤ
  now : IsoDate

inductive TaskError
  | taskNotFound (id : String)
  | parentNotFound (id : String)
  | dependencyNotFound (id : String)
  | ownParent
  | circularReference
  | missingFrontmatter
  deriving DecidableEq

def TaskError.message : TaskError → String
  | .taskNotFound id => "Task not found: " ++ id
  | .parentNotFound id => "Parent task not found: " ++ id
  | .dependencyNotFound id => "Dependency not found: " ++ id
  | .ownParent => "Task cannot be its own parent"
  | .circularReference => "Cannot set parent: would create circular reference"
  | .missingFrontmatter => "Invalid task file: missing frontmatter"

/-- The documents under the names of their files. -/
structure FileTaskStore where
  files : OrderedMap String String

structure CreateTaskOptions (β : Type) where
  deps : Option (List String)
  parentId : Option String
  status : Option TaskStatus
  content : β
  assignee : Option String
  priority : Option Priority

/-- The fields that an update sets. -/
structure TaskChanges (β : Type) where
  title : Option String
  status : Option TaskStatus
  deps : Option (List String)
  parentId : Option (Option String)
  content : Option (β → β)
  assignee : Option (Option String)
  priority : Option (Option Priority)

def TaskChanges.none : TaskChanges β := ⟨.none, .none, .none, .none, .none, .none, .none⟩

/-- `{ ...task, ...changes }` -/
def TaskChanges.apply (changes : TaskChanges β) (task : Task β) : Task β where
  id := task.id
  title := changes.title.getD task.title
  status := changes.status.getD task.status
  deps := changes.deps.getD task.deps
  parentId := changes.parentId.getD task.parentId
  content := (changes.content.getD id) task.content
  created := task.created
  assignee := changes.assignee.getD task.assignee
  priority := changes.priority.getD task.priority

namespace FileTaskStore

variable (runtime : Runtime β) (store : FileTaskStore)

/-! ## Reading and writing -/

/-- Nothing where there is no such file. -/
def get (id : String) : Except TaskError (Option (Task β)) :=
  match store.files.get (runtime.fileOf id) with
  | none => .ok none
  | some document =>
    match parseTask runtime.parseContent runtime.now document with
    | none => .error .missingFrontmatter
    | some task => .ok (some task)

/-- A task that has to be there. -/
def require (id : String) : Except TaskError (Task β) :=
  store.get runtime id >>= fun task =>
    match task with
    | none => .error (.taskNotFound id)
    | some task => .ok task

def writeTask (task : Task β) : FileTaskStore where
  files := store.files.set (runtime.fileOf task.id) (serializeTask runtime.renderContent task)

def list : Except TaskError (List (Task β)) :=
  (store.files.keys.mapM (store.get runtime)).map fun loaded =>
    (loaded.filterMap id).mergeSort fun a b => runtime.localeCompare a.created b.created ≤ 0

/-! ## The tree -/

/-- Below zero where `a` comes first; a comparison with `NaN` counts as equal. -/
def sortByPriorityThenCreated (a b : Task β) : ℤ :=
  match a.priority, b.priority with
  | some _, none => -1
  | none, some _ => 1
  | some (.number p), some (.number q) =>
    if p ≠ q then p - q else runtime.localeCompare a.created b.created
  | some _, some _ => 0
  | none, none => runtime.localeCompare a.created b.created

def getChildren (id : String) : Except TaskError (List (Task β)) :=
  (store.list runtime).map fun allTasks =>
    (allTasks.filter fun task => task.parentId = some id).mergeSort
      fun a b => sortByPriorityThenCreated runtime a b ≤ 0

/-- The tasks from an id up; nothing where the fuel does not last. -/
def getAncestorsFrom : ℕ → String → Option (Except TaskError (List (Task β)))
  | 0, _ => none
  | fuel + 1, currentId =>
    match store.get runtime currentId with
    | .error error => some (.error error)
    | .ok none => some (.ok [])
    | .ok (some task) =>
      match task.parentId with
      | none => some (.ok [task])
      | some parentId =>
        (getAncestorsFrom fuel parentId).map fun ancestors => ancestors.map (task :: ·)

def getAncestors (fuel : ℕ) (id : String) : Option (Except TaskError (List (Task β))) :=
  match store.require runtime id with
  | .error error => some (.error error)
  | .ok task =>
    match task.parentId with
    | none => some (.ok [])
    | some parentId => store.getAncestorsFrom runtime fuel parentId

/-- The children in turn, each with what is below it. -/
def collect (below : Task β → Option (Except TaskError (List (Task β)))) :
    List (Task β) → Option (Except TaskError (List (Task β)))
  | [] => some (.ok [])
  | child :: children =>
    match below child with
    | none => none
    | some (.error error) => some (.error error)
    | some (.ok tasks) =>
      (collect below children).map fun rest => rest.map (child :: tasks ++ ·)

/-- The fuel bounds the depth. -/
def getDescendants : ℕ → String → Option (Except TaskError (List (Task β)))
  | 0, _ => none
  | fuel + 1, parentId =>
    match store.getChildren runtime parentId with
    | .error error => some (.error error)
    | .ok children => collect (fun child => getDescendants fuel child.id) children

/-! ## Operations -/

def create (title : String) (opts : CreateTaskOptions β) (random : BitVec 32)
    (created : IsoDate) : Except TaskError FileTaskStore :=
  let task : Task β :=
    { id := generateId random
      title
      status := opts.status.getD .open
      deps := opts.deps.getD []
      parentId := opts.parentId
      content := opts.content
      created := created.text
      assignee := opts.assignee
      priority := opts.priority }
  match opts.parentId.bind nonEmpty with
  | none => .ok (store.writeTask runtime task)
  | some parentId =>
    store.get runtime parentId >>= fun parent =>
      match parent with
      | none => .error (.parentNotFound parentId)
      | some _ => .ok (store.writeTask runtime task)

def update (id : String) (changes : TaskChanges β) : Except TaskError FileTaskStore :=
  (store.require runtime id).map fun task => store.writeTask runtime (changes.apply task)

def delete (id : String) : Except TaskError FileTaskStore :=
  (store.require runtime id).map fun _ => ⟨store.files.delete (runtime.fileOf id)⟩

def addDep (id depId : String) : Except TaskError FileTaskStore :=
  store.require runtime id >>= fun task =>
    store.get runtime depId >>= fun dep =>
      match dep with
      | none => .error (.dependencyNotFound depId)
      | some _ =>
        if depId ∈ task.deps then .ok store
        else .ok (store.writeTask runtime { task with deps := task.deps ++ [depId] })

def removeDep (id depId : String) : Except TaskError FileTaskStore :=
  (store.require runtime id).map fun task =>
    store.writeTask runtime { task with deps := task.deps.filter (· ≠ depId) }

/-- Nothing where the walk up does not end within the fuel. -/
def setParent (fuel : ℕ) (id : String) (parentId : Option String) :
    Option (Except TaskError FileTaskStore) :=
  match store.require runtime id with
  | .error error => some (.error error)
  | .ok _ =>
    let changes : TaskChanges β := { TaskChanges.none with parentId := some parentId }
    match parentId.bind nonEmpty with
    | none => some (store.update runtime id changes)
    | some parentId =>
      match store.get runtime parentId with
      | .error error => some (.error error)
      | .ok none => some (.error (.parentNotFound parentId))
      | .ok (some _) =>
        if parentId = id then some (.error .ownParent)
        else
          match store.getAncestorsFrom runtime fuel parentId with
          | none => none
          | some (.error error) => some (.error error)
          | some (.ok ancestors) =>
            if ancestors.any fun ancestor => ancestor.id = id then some (.error .circularReference)
            else some (store.update runtime id changes)

end FileTaskStore

/-! ## Runs -/

inductive TaskOperation (β : Type)
  | create (title : String) (opts : CreateTaskOptions β) (random : BitVec 32) (created : IsoDate)
  | update (id : String) (changes : TaskChanges β)
  | setParent (id : String) (parentId : Option String)
  | delete (id : String)
  | addDep (id depId : String)
  | removeDep (id depId : String)

namespace FileTaskStore

variable (runtime : Runtime β) (store : FileTaskStore)

def perform (fuel : ℕ) : TaskOperation β → Option (Except TaskError FileTaskStore)
  | .create title opts random created => some (store.create runtime title opts random created)
  | .update id changes => some (store.update runtime id changes)
  | .setParent id parentId => store.setParent runtime fuel id parentId
  | .delete id => some (store.delete runtime id)
  | .addDep id depId => some (store.addDep runtime id depId)
  | .removeDep id depId => some (store.removeDep runtime id depId)

/-- An operation that fails leaves the files as they are; nothing where it does not return within
the fuel. -/
def step (fuel : ℕ) (operation : TaskOperation β) : Option FileTaskStore :=
  (store.perform runtime fuel operation).map fun answer =>
    match answer with
    | .ok store' => store'
    | .error _ => store

def run (fuel : ℕ) (store : FileTaskStore) : List (TaskOperation β) → Option FileTaskStore
  | [] => some store
  | operation :: operations =>
    (store.step runtime fuel operation).bind fun store' => run fuel store' operations

def empty : FileTaskStore := ⟨∅⟩

end FileTaskStore

end Orqara.TaskFiles
