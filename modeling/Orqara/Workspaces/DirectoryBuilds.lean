import Orqara.Workspaces.StrongestStatus

/-!
# Overlapping builds of workspace descriptors

A build asks its five sources at once. Each answers at a moment of its own, then the descriptors are
built, and at the end the build reads and writes what the directory remembers. Everything may change
in between.
-/

namespace Orqara.Workspaces

inductive DirectorySource where
  | agents
  | subagents
  | workspaces
  | projects
  | terminals
  deriving DecidableEq, Repr

/-- A call of `buildDescriptorMap`, with what has been answered so far. -/
structure DirectoryBuild where
  workspaceIds : Option (List String)
  agents : Option (List AgentPayload)
  subagents : Option (List SubagentActivity)
  workspaces : Option (List WorkspaceRecord)
  projects : Option (List ProjectRecord)
  terminals : Option (List TerminalContribution)
  /-- how often the contributions of each workspace had changed when the call was made -/
  started : String → ℕ

/-- What a build that has ended has said of a workspace. -/
structure BuildResult where
  workspaceId : String
  /-- how often the contributions had changed when it started, and when it ended -/
  started : ℕ
  ended : ℕ
  statusEnteredAt : Option String
  deriving DecidableEq, Repr

/-- The directory and all that it reads. -/
structure WorkspaceDirectory where
  world : DirectorySnapshot
  archivingByWorkspaceId : OrderedMap String String
  bucketHistoryByWorkspaceId : BucketHistory
  builds : OrderedMap ℕ DirectoryBuild
  /-- how often the contributions of each workspace have changed -/
  changes : String → ℕ
  results : List BuildResult

inductive DirectoryEvent (δ : Type) where
  | changed (world : DirectorySnapshot)
  | markArchiving (workspaceIds : List String) (archivingAt : String)
  | clearArchiving (workspaceIds : List String)
  | buildStarted (n : ℕ) (workspaceIds : Option (List String))
  | sourceRead (n : ℕ) (source : DirectorySource)
  /-- A source or a descriptor has failed. -/
  | buildFailed (n : ℕ)
  | descriptorsBuilt (n : ℕ) (buildWorkspaceDescriptor : WorkspaceRecord → Option ProjectRecord → δ)
      (nowIso : String)

namespace DirectoryBuild

def read (build : DirectoryBuild) (world : DirectorySnapshot) : DirectorySource → DirectoryBuild
  | .agents => { build with agents := build.agents.or (some world.agents) }
  | .subagents => { build with subagents := build.subagents.or (some world.subagents) }
  | .workspaces => { build with workspaces := build.workspaces.or (some world.workspaces) }
  | .projects => { build with projects := build.projects.or (some world.projects) }
  | .terminals => { build with terminals := build.terminals.or (some world.terminals) }

/-- Everything, when all sources have answered. -/
def snapshot (build : DirectoryBuild) : Option DirectorySnapshot :=
  match build.agents, build.subagents, build.workspaces, build.projects, build.terminals with
  | some agents, some subagents, some workspaces, some projects, some terminals =>
    some ⟨agents, subagents, workspaces, projects, terminals⟩
  | _, _, _, _, _ => none

end DirectoryBuild

namespace WorkspaceDirectory

variable {δ : Type}

def start (world : DirectorySnapshot) : WorkspaceDirectory := ⟨world, ∅, ∅, ∅, fun _ => 0, []⟩

/-- The contributions of a workspace have changed when their buckets have. -/
def change (deps : DirectoryDeps) (s : WorkspaceDirectory) (world : DirectorySnapshot) : WorkspaceDirectory :=
  { s with
    world := world
    changes := fun workspaceId =>
      if (bucketsFor deps world workspaceId).isPerm (bucketsFor deps s.world workspaceId) then
        s.changes workspaceId
      else s.changes workspaceId + 1 }

def contextOf (s : WorkspaceDirectory) (build : DirectoryBuild)
    (buildWorkspaceDescriptor : WorkspaceRecord → Option ProjectRecord → δ) (nowIso : String) :
    BuildContext δ :=
  ⟨build.workspaceIds, buildWorkspaceDescriptor, s.archivingByWorkspaceId, nowIso⟩

def finish (deps : DirectoryDeps) (s : WorkspaceDirectory) (n : ℕ) (build : DirectoryBuild)
    (read : DirectorySnapshot) (context : BuildContext δ) : WorkspaceDirectory :=
  let (descriptors, history) := describe deps context read s.bucketHistoryByWorkspaceId
  { s with
    builds := s.builds.delete n
    bucketHistoryByWorkspaceId := history
    results := s.results ++ descriptors.entries.map fun entry =>
      ⟨entry.1, build.started entry.1, s.changes entry.1, entry.2.statusEnteredAt⟩ }

/-- `none` when the event cannot happen. -/
def step (deps : DirectoryDeps) (s : WorkspaceDirectory) : DirectoryEvent δ → Option WorkspaceDirectory
  | .changed world => some (s.change deps world)
  | .markArchiving workspaceIds archivingAt =>
    some { s with
      archivingByWorkspaceId :=
        workspaceIds.foldl (fun m workspaceId => m.set workspaceId archivingAt) s.archivingByWorkspaceId }
  | .clearArchiving workspaceIds =>
    some { s with archivingByWorkspaceId := workspaceIds.foldl OrderedMap.delete s.archivingByWorkspaceId }
  | .buildStarted n workspaceIds =>
    match s.builds.get n with
    | some _ => none
    | none => some { s with
        builds := s.builds.set n ⟨workspaceIds, none, none, none, none, none, s.changes⟩ }
  | .sourceRead n source =>
    (s.builds.get n).map fun build => { s with builds := s.builds.set n (build.read s.world source) }
  | .buildFailed n => (s.builds.get n).map fun _ => { s with builds := s.builds.delete n }
  | .descriptorsBuilt n buildWorkspaceDescriptor nowIso =>
    (s.builds.get n).bind fun build =>
      build.snapshot.map fun read =>
        s.finish deps n build read (s.contextOf build buildWorkspaceDescriptor nowIso)

def run (deps : DirectoryDeps) (s : WorkspaceDirectory) : List (DirectoryEvent δ) → Option WorkspaceDirectory
  | [] => some s
  | event :: events => (s.step deps event).bind fun s' => s'.run deps events

end WorkspaceDirectory

end Orqara.Workspaces
