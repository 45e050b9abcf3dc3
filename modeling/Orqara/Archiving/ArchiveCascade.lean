import Mathlib

/-!
# Archiving an agent with its children

The stored records of the agents, and the mutations that archive them: the calls of `archiveAgent`, and
what these queue for the children. Storage and provider calls succeed. A step is what a mutation does
between two awaits, and the steps of different mutations come in any order.
-/

namespace Orqara.Archiving

variable {ι : Type*}

/-- What archiving uses of a stored agent. An id is not blank, so that a label that is one names a
parent. -/
structure Record (ι : Type*) where
  id : ι
  /-- the label with the parent agent -/
  parent : Option ι
  /-- the clients with a label for a tab that is open -/
  openTabs : List String
  workspaceId : Option String
  /-- the number of the marking, in place of its time -/
  archivedAt : Option ℕ
  deriving DecidableEq, Repr

def Record.hasOpenAgentTab (record : Record ι) : Bool := !record.openTabs.isEmpty

def shouldDetachFromArchivedParent (parent child : Record ι) : Bool :=
  let isCrossWorkspace := parent.workspaceId.isSome && child.workspaceId.isSome &&
    parent.workspaceId != child.workspaceId
  isCrossWorkspace || child.hasOpenAgentTab

/-- `detachedAgentLabelPatch` -/
def Record.detach (record : Record ι) : Record ι := { record with parent := none, openTabs := [] }

/-- `buildArchivedAgentRecord` -/
def Record.archive (archivedAt : ℕ) (record : Record ι) : Record ι :=
  { record with archivedAt := some archivedAt }

/-! ## Mutations -/

inductive Outcome where
  | archived (mark : ℕ)
  | detached
  /-- the child is archived already, or is no child any more -/
  | skipped
  | rejected
  deriving DecidableEq, Repr

/-- How far a mutation has come. From the marking of the record on, the number of the marking is kept. -/
inductive Stage (ι : Type*) where
  | queued
  /-- a child's record is read again in its lane -/
  | reading
  | detaching
  /-- the record is about to be written; `closes` where the agent was live -/
  | marking (closes : Bool)
  | marked (mark : ℕ) (closes : Bool)
  | listing (mark : ℕ)
  /-- the records are gone through as they were listed -/
  | cascading (mark : ℕ) (parent : Record ι) (rest : List (Record ι))
  | getting (mark : ℕ) (parent : Record ι) (child : ι) (rest : List (Record ι))
  | queueing (mark : ℕ) (parent : Record ι) (child : ι) (rest : List (Record ι))
  /-- the mutation with the given number, of the child, is waited for -/
  | awaiting (mark : ℕ) (parent : Record ι) (child : ι) (mutation : ℕ) (rest : List (Record ι))
  | settled (outcome : Outcome)
  deriving DecidableEq, Repr

/-- A call of `archiveAgent`, or what the cascade queues for a child, with the parent as listed. -/
structure Mutation (ι : Type*) where
  agent : ι
  parent : Option (Record ι)
  stage : Stage ι
  deriving DecidableEq, Repr

def Stage.isSettled : Stage ι → Bool
  | settled _ => true
  | _ => false

/-- All mutations, in the order they are queued. -/
structure State (ι : Type*) where
  records : List (Record ι)
  live : ι → Bool
  /-- how many records have been marked -/
  clock : ℕ
  mutations : List (Mutation ι)

namespace State

variable [DecidableEq ι]

/-- `registry.get` -/
def get (s : State ι) (agent : ι) : Option (Record ι) := s.records.find? (·.id = agent)

/-- A record is written. -/
def update (s : State ι) (agent : ι) (change : Record ι → Record ι) : State ι :=
  { s with records := s.records.map fun record => if record.id = agent then change record else record }

def goOn (s : State ι) (i : ℕ) (stage : Stage ι) : State ι :=
  { s with mutations := s.mutations.modify i fun mutation => { mutation with stage } }

def runLifecycleMutation (s : State ι) (agent : ι) (parent : Option (Record ι)) : State ι :=
  { s with mutations := s.mutations ++ [⟨agent, parent, .queued⟩] }

/-- The mutations queued before for the same agent have settled. -/
def LaneFree (s : State ι) (i : ℕ) (agent : ι) : Prop :=
  ∀ mutation ∈ s.mutations.take i, mutation.agent = agent → mutation.stage.isSettled

instance (s : State ι) (i : ℕ) (agent : ι) : Decidable (s.LaneFree i agent) :=
  inferInstanceAs (Decidable (∀ mutation ∈ s.mutations.take i, _))

/-! ## Steps -/

/-- A call requires that the agent is live; the cascade reads the child again. -/
def begin (s : State ι) (i : ℕ) (mutation : Mutation ι) : State ι :=
  match mutation.parent with
  | none => s.goOn i (if s.live mutation.agent then .marking true else .settled .rejected)
  | some _ => s.goOn i .reading

/-- A child is left alone, detached or archived. -/
def classify (s : State ι) (i : ℕ) (mutation : Mutation ι) : State ι :=
  match s.get mutation.agent, mutation.parent with
  | some child, some parent =>
    if child.archivedAt.isSome || child.parent != some parent.id then s.goOn i (.settled .skipped)
    else if shouldDetachFromArchivedParent parent child then s.goOn i .detaching
    else s.goOn i (.marking (s.live mutation.agent))
  | _, _ => s.goOn i (.settled .skipped)

def detachAgentUnlocked (s : State ι) (i : ℕ) (mutation : Mutation ι) : State ι :=
  (s.update mutation.agent Record.detach).goOn i (.settled .detached)

def markRecordArchived (s : State ι) (i : ℕ) (mutation : Mutation ι) (closes : Bool) : State ι :=
  match s.get mutation.agent with
  | none => s.goOn i (.settled .rejected)
  | some _ =>
    { (s.update mutation.agent (Record.archive s.clock)).goOn i (.marked s.clock closes) with
      clock := s.clock + 1 }

/-- `closeAgentRuntime`, where the agent was live -/
def close (s : State ι) (i : ℕ) (mutation : Mutation ι) (mark : ℕ) (closes : Bool) : State ι :=
  { s.goOn i (.listing mark) with
    live := if closes then Function.update s.live mutation.agent false else s.live }

def list (s : State ι) (i : ℕ) (mutation : Mutation ι) (mark : ℕ) : State ι :=
  match s.get mutation.agent with
  | none => s.goOn i (.settled .rejected)
  | some parent => s.goOn i (.cascading mark parent s.records)

/-- The next of the records that were listed. -/
def nextChild (s : State ι) (i : ℕ) (mutation : Mutation ι) (mark : ℕ) (parent : Record ι) :
    List (Record ι) → State ι
  | [] => s.goOn i (.settled (.archived mark))
  | record :: rest =>
    if record.archivedAt.isSome || record.parent != some mutation.agent then
      s.goOn i (.cascading mark parent rest)
    else s.goOn i (.getting mark parent record.id rest)

/-- The child as it is by now. -/
def getChild (s : State ι) (i : ℕ) (mutation : Mutation ι) (mark : ℕ) (parent : Record ι) (child : ι)
    (rest : List (Record ι)) : State ι :=
  if (s.get child).any fun record =>
      record.archivedAt.isNone && record.parent == some mutation.agent then
    s.goOn i (.queueing mark parent child rest)
  else s.goOn i (.cascading mark parent rest)

def queueChild (s : State ι) (i : ℕ) (mark : ℕ) (parent : Record ι) (child : ι)
    (rest : List (Record ι)) : State ι :=
  (s.goOn i (.awaiting mark parent child s.mutations.length rest)).runLifecycleMutation child
    (some parent)

/-- What a mutation does next, if it can do anything. An error of the child's mutation is passed on. -/
def advanceMutation (s : State ι) (i : ℕ) (mutation : Mutation ι) : Option (State ι) :=
  match mutation.stage with
  | .queued => if s.LaneFree i mutation.agent then some (s.begin i mutation) else none
  | .reading => some (s.classify i mutation)
  | .detaching => some (s.detachAgentUnlocked i mutation)
  | .marking closes => some (s.markRecordArchived i mutation closes)
  | .marked mark closes => some (s.close i mutation mark closes)
  | .listing mark => some (s.list i mutation mark)
  | .cascading mark parent rest => some (s.nextChild i mutation mark parent rest)
  | .getting mark parent child rest => some (s.getChild i mutation mark parent child rest)
  | .queueing mark parent child rest => some (s.queueChild i mark parent child rest)
  | .awaiting mark parent _ awaited rest =>
    match (s.mutations[awaited]?).map Mutation.stage with
    | some (.settled .rejected) => some (s.goOn i (.settled .rejected))
    | some (.settled _) => some (s.goOn i (.cascading mark parent rest))
    | _ => none
  | .settled _ => none

def advance (s : State ι) (i : ℕ) : Option (State ι) :=
  s.mutations[i]?.bind (s.advanceMutation i)

end State

/-! ## Runs -/

inductive Event (ι : Type*) where
  | archiveAgent (agent : ι)
  | advance (mutation : ℕ)
  deriving DecidableEq, Repr

namespace State

variable [DecidableEq ι]

def step (s : State ι) : Event ι → Option (State ι)
  | .archiveAgent agent => some (s.runLifecycleMutation agent none)
  | .advance i => s.advance i

def run (s : State ι) : List (Event ι) → Option (State ι)
  | [] => some s
  | event :: events => (s.step event).bind fun s' => s'.run events

/-- Before the calls: every live agent is stored. -/
structure Start (s : State ι) : Prop where
  live : ∀ agent, s.live agent → (s.get agent).isSome
  mutations : s.mutations = []

end State

end Orqara.Archiving
