import Orqara.Workspaces.DescribedWorkspaces
import Orqara.Workspaces.DirectoryBuilds

/-!
# Entry times stay

As long as no build ends with an outdated status, what is remembered of a workspace is the bucket of
its present contributions, and every build that ends repeats the time that goes with it.
-/

namespace Orqara.Workspaces

open List Option

variable {δ : Type} {deps : DirectoryDeps} {context : BuildContext δ} {read : DirectorySnapshot}
variable {workspaceId : String}

/-! ## One workspace of one build -/

/-- Nothing contributes to a workspace without agents and without entries. -/
theorem strongest_of_empty (hagents : agentsIn deps read workspaceId = [])
    (hentries : entriesFor deps read workspaceId = []) :
    strongest (bucketsFor deps read workspaceId) = .done := by
  have hnone : contributedTo workspaceId (agentContributions deps read) = [] := by
    rw [contributedTo, map_eq_nil_iff, filter_eq_nil_iff]
    intro contribution hmem hid
    obtain ⟨agent, hagent, hcontribution⟩ := mem_filterMap.mp hmem
    have hworkspace := (workspaceId_of_agentContribution hcontribution).1
    rw [decide_eq_true_eq] at hid
    rw [agentsIn, filter_eq_nil_iff] at hagents
    exact hagents agent hagent (by simp [hworkspace, hid])
  rw [bucketsFor, hnone, hentries]
  rfl

/-- The time of a status is remembered with it, and stays if it has been remembered. -/
theorem timeOf_spec (deps : DirectoryDeps) (context : BuildContext δ) (previous : Option HistoryEntry)
    (hcreated : ∃ createdAt, createdAtOf read workspaceId = some createdAt ∧ createdAt ≠ "") :
    ∃ enteredAt, timeOf deps context read workspaceId previous = ⟨some enteredAt,
      some ⟨strongest (bucketsFor deps read workspaceId), enteredAt⟩⟩ ∧
    ∀ old, previous = some ⟨strongest (bucketsFor deps read workspaceId), old⟩ → enteredAt = old := by
  obtain ⟨createdAt, hcreatedAt, hne⟩ := hcreated
  have htext : nonEmptyText (some createdAt) = some createdAt := by simp [nonEmptyText, hne]
  unfold timeOf resolveStatusEnteredAt
  by_cases hempty : ((agentsIn deps read workspaceId).isEmpty && (entriesFor deps read workspaceId).isEmpty) =
      true
  · rw [if_pos hempty]
    rw [Bool.and_eq_true, List.isEmpty_iff, List.isEmpty_iff] at hempty
    rw [strongest_of_empty hempty.1 hempty.2]
    cases previous with
    | none =>
      rw [hcreatedAt, htext]
      exact ⟨createdAt, rfl, nofun⟩
    | some entry =>
      refine ⟨_, rfl, fun old hold => ?_⟩
      rw [some.inj hold, if_pos rfl]
  · rw [if_neg hempty]
    cases previous with
    | none => exact ⟨_, rfl, nofun⟩
    | some entry =>
      dsimp only
      by_cases hbucket : entry.bucket ≠ strongest (bucketsFor deps read workspaceId)
      · rw [if_pos hbucket]
        refine ⟨_, rfl, fun old hold => absurd ?_ hbucket⟩
        rw [some.inj hold]
      · rw [if_neg hbucket]
        refine ⟨entry.enteredAt, ?_, fun old hold => ?_⟩
        · rw [← not_not.mp hbucket]
        · rw [some.inj hold]

theorem createdAtOf_ne_empty (hcreated : ∀ workspace ∈ includedWorkspacesOf read context.workspaceIds,
      workspace.createdAt ≠ "") (h : workspaceId ∈ (initialDescriptors context read).keys) :
    ∃ createdAt, createdAtOf read workspaceId = some createdAt ∧ createdAt ≠ "" := by
  have hactive := List.mem_map.mp (mem_activeRecordsOf h)
  have hsome : ((OrderedMap.setAll (·.workspaceId) (activeRecordsOf read) ∅).get workspaceId).isSome := by
    rw [OrderedMap.get_setAll]
    exact KeyedUpdates.upserts_isSome_iff.mpr hactive
  obtain ⟨record, hrecord⟩ := isSome_iff_exists.mp hsome
  have hkey : record.workspaceId = workspaceId :=
    OrderedMap.keyed_empty.setAll (activeRecordsOf read) workspaceId record hrecord
  have hmem : record ∈ activeRecordsOf read := OrderedMap.mem_of_get_setAll hrecord
  refine ⟨record.createdAt, by rw [createdAtOf, hrecord, map_some], hcreated record ?_⟩
  obtain ⟨descriptor, hget⟩ := OrderedMap.get_of_mem_keys h
  obtain ⟨-, workspace, hincluded, hid⟩ := status_initialDescriptors hget
  have hids := (mem_filter.mp hincluded).2
  rw [hid, ← hkey] at hids
  exact mem_filter.mpr ⟨hmem, hids⟩

/-- The build started and ended while the contributions of the workspace were the same. -/
def BuildResult.Undisturbed (r : BuildResult) : Prop := r.started = r.ended

namespace WorkspaceDirectory

variable {s s' : WorkspaceDirectory}

/-! ## Runs -/

/-- The strongest of what the build has read of each workspace is the strongest of its present
contributions, and the workspace knows when it was created. -/
def UpToDate (deps : DirectoryDeps) (world read : DirectorySnapshot) (workspaceIds : Option (List String)) :
    Bool :=
  (includedWorkspacesOf read workspaceIds).all fun workspace =>
    strongest (bucketsFor deps read workspace.workspaceId) ==
      strongest (bucketsFor deps world workspace.workspaceId) && workspace.createdAt != ""

def Timely (deps : DirectoryDeps) (s : WorkspaceDirectory) : DirectoryEvent δ → Bool
  | .descriptorsBuilt n _ _ => (s.builds.get n).all fun build =>
    build.snapshot.all fun read => UpToDate deps s.world read build.workspaceIds
  | _ => true

def TimelyAlong (deps : DirectoryDeps) (s : WorkspaceDirectory) : List (DirectoryEvent δ) → Bool
  | [] => true
  | event :: events => s.Timely deps event && (s.step deps event).all fun s' => s'.TimelyAlong deps events

def KeepsEntryTimes (s : WorkspaceDirectory) : Prop :=
  ∀ r ∈ s.results, ∀ r' ∈ s.results, r.workspaceId = r'.workspaceId → r.Undisturbed → r'.Undisturbed →
    r.ended = r'.ended → r.statusEnteredAt = r'.statusEnteredAt

structure Inv (deps : DirectoryDeps) (s : WorkspaceDirectory) : Prop where
  past : ∀ r ∈ s.results, r.ended ≤ s.changes r.workspaceId
  same : ∀ r ∈ s.results, ∀ r' ∈ s.results, r.workspaceId = r'.workspaceId → r.ended = r'.ended →
    r.statusEnteredAt = r'.statusEnteredAt
  /-- What has been said since the last change is remembered. -/
  remembered : ∀ r ∈ s.results, r.ended = s.changes r.workspaceId → ∃ enteredAt,
    r.statusEnteredAt = some enteredAt ∧ s.bucketHistoryByWorkspaceId.get r.workspaceId =
      some ⟨strongest (bucketsFor deps s.world r.workspaceId), enteredAt⟩

theorem inv_start (world : DirectorySnapshot) : Inv deps (start world) where
  past := nofun
  same := nofun
  remembered := nofun

/-- Only what is remembered and said, and the world, matters. -/
theorem Inv.keep (h : Inv deps s) (hworld : s'.world = s.world)
    (hhistory : s'.bucketHistoryByWorkspaceId = s.bucketHistoryByWorkspaceId)
    (hchanges : s'.changes = s.changes) (hresults : s'.results = s.results) : Inv deps s' := by
  obtain ⟨hpast, hsame, hremembered⟩ := h
  constructor
  · rwa [hresults, hchanges]
  · rwa [hresults]
  · rwa [hresults, hchanges, hhistory, hworld]

theorem Inv.change (h : Inv deps s) (world : DirectorySnapshot) : Inv deps (s.change deps world) where
  past r hr := by
    have hle := h.past r hr
    simp only [WorkspaceDirectory.change]
    split_ifs
    · exact hle
    · omega
  same := h.same
  remembered r hr hended := by
    have hle := h.past r hr
    simp only [WorkspaceDirectory.change] at hended ⊢
    split_ifs at hended with hperm
    · rw [strongest_perm (isPerm_iff.mp hperm)]
      exact h.remembered r hr hended
    · omega

variable {n : ℕ} {build : DirectoryBuild}

/-- What a build says of a workspace when it is up to date. -/
structure Said (deps : DirectoryDeps) (s s' : WorkspaceDirectory) (r : BuildResult) : Prop where
  ended : r.ended = s.changes r.workspaceId
  time : ∃ enteredAt, r.statusEnteredAt = some enteredAt ∧
    s'.bucketHistoryByWorkspaceId.get r.workspaceId =
      some ⟨strongest (bucketsFor deps s.world r.workspaceId), enteredAt⟩ ∧
    ∀ old, s.bucketHistoryByWorkspaceId.get r.workspaceId =
      some ⟨strongest (bucketsFor deps s.world r.workspaceId), old⟩ → enteredAt = old

theorem upToDate_of_mem (h : UpToDate deps s.world read context.workspaceIds)
    (hmem : workspaceId ∈ (initialDescriptors context read).keys) :
    strongest (bucketsFor deps read workspaceId) = strongest (bucketsFor deps s.world workspaceId) := by
  obtain ⟨descriptor, hget⟩ := OrderedMap.get_of_mem_keys hmem
  obtain ⟨-, workspace, hincluded, hid⟩ := status_initialDescriptors hget
  have hworkspace := List.all_eq_true.mp h workspace hincluded
  rw [Bool.and_eq_true, beq_iff_eq, hid] at hworkspace
  exact hworkspace.1

/-- A workspace that is described has the time that is remembered from then on. -/
theorem remembered_finish (n : ℕ) (build : DirectoryBuild)
    (h : UpToDate deps s.world read context.workspaceIds)
    (hmem : workspaceId ∈ (initialDescriptors context read).keys) :
    ∃ enteredAt,
      (∀ descriptor, (describe deps context read s.bucketHistoryByWorkspaceId).1.get workspaceId =
        some descriptor → descriptor.statusEnteredAt = some enteredAt) ∧
      (s.finish deps n build read context).bucketHistoryByWorkspaceId.get workspaceId =
        some ⟨strongest (bucketsFor deps s.world workspaceId), enteredAt⟩ ∧
      ∀ old, s.bucketHistoryByWorkspaceId.get workspaceId =
        some ⟨strongest (bucketsFor deps s.world workspaceId), old⟩ → enteredAt = old := by
  have hcreated : ∀ workspace ∈ includedWorkspacesOf read context.workspaceIds,
      workspace.createdAt ≠ "" := by
    intro workspace hincluded
    have hworkspace := List.all_eq_true.mp h workspace hincluded
    rw [Bool.and_eq_true, bne_iff_ne] at hworkspace
    exact hworkspace.2
  obtain ⟨⟨described, hdescribed, -, hentered⟩, hhistory⟩ :=
    describe_spec deps s.bucketHistoryByWorkspaceId hmem
  obtain ⟨enteredAt, htime, hold⟩ := timeOf_spec deps context
    (s.bucketHistoryByWorkspaceId.get workspaceId) (createdAtOf_ne_empty hcreated hmem)
  rw [htime] at hentered hhistory
  rw [upToDate_of_mem h hmem] at hhistory hold
  refine ⟨enteredAt, fun descriptor hdescriptor => ?_, hhistory, hold⟩
  rw [hdescribed, Option.some.injEq] at hdescriptor
  rw [← hdescriptor, hentered]

theorem said_finish (h : UpToDate deps s.world read context.workspaceIds) {r : BuildResult}
    (hr : r ∈ (s.finish deps n build read context).results) :
    r ∈ s.results ∨ Said deps s (s.finish deps n build read context) r := by
  have hresults : (s.finish deps n build read context).results = s.results ++
      (describe deps context read s.bucketHistoryByWorkspaceId).1.entries.map fun entry =>
        ⟨entry.1, build.started entry.1, s.changes entry.1, entry.2.statusEnteredAt⟩ := rfl
  rw [hresults] at hr
  rcases mem_append.mp hr with hold | hnew
  · exact .inl hold
  · right
    obtain ⟨⟨id, descriptor⟩, hentry, rfl⟩ := List.mem_map.mp hnew
    have hget := OrderedMap.get_eq_some_iff.mpr hentry
    have hmem : id ∈ (initialDescriptors context read).keys := by
      rw [← keys_describe deps context read s.bucketHistoryByWorkspaceId]
      exact OrderedMap.mem_keys_of_get hget
    obtain ⟨enteredAt, hdescribed, hremembered, hold⟩ :=
      remembered_finish n build h hmem
    exact ⟨rfl, enteredAt, hdescribed descriptor hget, hremembered, hold⟩

theorem history_finish_other (h : workspaceId ∉ (initialDescriptors context read).keys) :
    (s.finish deps n build read context).bucketHistoryByWorkspaceId.get workspaceId =
      s.bucketHistoryByWorkspaceId.get workspaceId := describe_other h

/-- A build that is up to date repeats the time that is remembered. -/
theorem Inv.finish (h : Inv deps s) (huptodate : UpToDate deps s.world read context.workspaceIds) :
    Inv deps (s.finish deps n build read context) := by
  -- what was said before and is still valid, beside what is said now
  have hagree (r : BuildResult) (hr : r ∈ s.results) (r' : BuildResult)
      (hsaid : Said deps s (s.finish deps n build read context) r') (hid : r.workspaceId = r'.workspaceId)
      (hended : r.ended = r'.ended) : r.statusEnteredAt = r'.statusEnteredAt := by
    rw [hsaid.ended, ← hid] at hended
    obtain ⟨old, hstatus, hhistory⟩ := h.remembered r hr hended
    obtain ⟨enteredAt, hstatus', -, hkept⟩ := hsaid.time
    rw [hid] at hhistory
    rw [hstatus, hstatus', hkept old hhistory]
  have hboth (r r' : BuildResult) (hsaid : Said deps s (s.finish deps n build read context) r)
      (hsaid' : Said deps s (s.finish deps n build read context) r')
      (hid : r.workspaceId = r'.workspaceId) : r.statusEnteredAt = r'.statusEnteredAt := by
    obtain ⟨enteredAt, hstatus, hhistory, -⟩ := hsaid.time
    obtain ⟨enteredAt', hstatus', hhistory', -⟩ := hsaid'.time
    rw [hid, hhistory', Option.some.injEq, HistoryEntry.mk.injEq] at hhistory
    rw [hstatus, hstatus', hhistory.2]
  constructor
  · intro r hr
    rcases said_finish huptodate hr with hold | hsaid
    · exact h.past r hold
    · exact hsaid.ended.le
  · intro r hr r' hr' hid hended
    rcases said_finish huptodate hr with hold | hsaid
    · rcases said_finish huptodate hr' with hold' | hsaid'
      · exact h.same r hold r' hold' hid hended
      · exact hagree r hold r' hsaid' hid hended
    · rcases said_finish huptodate hr' with hold' | hsaid'
      · exact (hagree r' hold' r hsaid hid.symm hended.symm).symm
      · exact hboth r r' hsaid hsaid' hid
  · intro r hr hended
    rcases said_finish huptodate hr with hold | hsaid
    · obtain ⟨enteredAt, hstatus, hhistory⟩ := h.remembered r hold hended
      by_cases hmem : r.workspaceId ∈ (initialDescriptors context read).keys
      · obtain ⟨kept, -, hremembered, hkept⟩ :=
          remembered_finish n build huptodate hmem
        have hsame := hkept enteredAt hhistory
        exact ⟨enteredAt, hstatus, hsame ▸ hremembered⟩
      · rw [history_finish_other hmem]
        exact ⟨enteredAt, hstatus, hhistory⟩
    · obtain ⟨enteredAt, hstatus, hhistory, -⟩ := hsaid.time
      exact ⟨enteredAt, hstatus, hhistory⟩

theorem inv_step {event : DirectoryEvent δ} (h : Inv deps s) (htimely : s.Timely deps event)
    (hstep : s.step deps event = some s') : Inv deps s' := by
  cases event with
  | changed world => exact some.inj hstep ▸ h.change world
  | markArchiving => exact some.inj hstep ▸ h.keep rfl rfl rfl rfl
  | clearArchiving => exact some.inj hstep ▸ h.keep rfl rfl rfl rfl
  | buildStarted =>
    rw [step] at hstep
    split at hstep
    · contradiction
    · exact some.inj hstep ▸ h.keep rfl rfl rfl rfl
  | sourceRead =>
    obtain ⟨build, -, hs'⟩ := map_eq_some_iff.mp hstep
    exact hs' ▸ h.keep rfl rfl rfl rfl
  | buildFailed =>
    obtain ⟨build, -, hs'⟩ := map_eq_some_iff.mp hstep
    exact hs' ▸ h.keep rfl rfl rfl rfl
  | descriptorsBuilt n buildWorkspaceDescriptor nowIso =>
    obtain ⟨build, hbuild, hfinish⟩ := bind_eq_some_iff.mp hstep
    obtain ⟨read, hread, hs'⟩ := map_eq_some_iff.mp hfinish
    rw [Timely, hbuild, all_some, hread, all_some] at htimely
    exact hs' ▸ h.finish htimely

theorem inv_run (events : List (DirectoryEvent δ)) (h : Inv deps s) (htimely : s.TimelyAlong deps events)
    (hrun : s.run deps events = some s') : Inv deps s' := by
  induction events generalizing s with
  | nil => exact some.inj hrun ▸ h
  | cons event events ih =>
    obtain ⟨mid, hstep, hrest⟩ := bind_eq_some_iff.mp hrun
    rw [TimelyAlong, Bool.and_eq_true, hstep] at htimely
    exact ih (inv_step h htimely.1 hstep) htimely.2 hrest

theorem Inv.keepsEntryTimes (h : Inv deps s) : KeepsEntryTimes s :=
  fun r hr r' hr' hid _ _ hended => h.same r hr r' hr' hid hended

theorem statuses_keepEntryTimes :
    (∀ (context : BuildContext δ) (read : DirectorySnapshot) (history : BucketHistory),
      (read.agents.map (·.id)).Nodup → StrongestStatuses deps context read history) ∧
    ∀ (world : DirectorySnapshot) (events : List (DirectoryEvent δ)) (s : WorkspaceDirectory),
      (start world).TimelyAlong deps events → (start world).run deps events = some s → KeepsEntryTimes s :=
  ⟨fun _ _ _ hnodup => strongestStatuses hnodup,
    fun world events _ htimely hrun => (inv_run events (inv_start world) htimely hrun).keepsEntryTimes⟩

/-! ## Two runs -/

def plainDeps : DirectoryDeps := ⟨fun _ => true, toString⟩

def agentWith (id : String) (parentLabel : Option String) (status : AgentStatus) : AgentPayload :=
  ⟨id, "claude", some "w1", parentLabel, status, 0, false, none, none, "08:00", none⟩

/-- One workspace, with an agent and a subagent of it. -/
def worldWith (status : AgentStatus) : DirectorySnapshot where
  agents := [agentWith "a1" none status, agentWith "a2" (some "a1") .idle]
  subagents := []
  workspaces := [⟨"w1", "p1", "07:00", none⟩]
  projects := [⟨"p1", none⟩]
  terminals := []

def readAll (n : ℕ) : List (DirectoryEvent Unit) :=
  [.sourceRead n .agents, .sourceRead n .subagents, .sourceRead n .workspaces, .sourceRead n .projects,
    .sourceRead n .terminals]

def emptyContext : BuildContext Unit := ⟨none, fun _ _ => (), ∅, "09:00"⟩

/-- A build that has read the agent before it runs ends before that. -/
def buildsInTurn : List (DirectoryEvent Unit) :=
  .buildStarted 0 none :: readAll 0 ++ .descriptorsBuilt 0 (fun _ _ => ()) "09:00" ::
    .changed (worldWith .running) :: .buildStarted 1 none :: .buildStarted 2 (some ["w1"]) :: readAll 2 ++
    .descriptorsBuilt 2 (fun _ _ => ()) "09:02" :: readAll 1 ++ [.descriptorsBuilt 1 (fun _ _ => ()) "09:03"]

theorem buildsInTurn_keepEntryTimes :
    StrongestStatuses plainDeps emptyContext (worldWith .running) ∅ ∧
    ∃ s, (start (worldWith .idle)).run plainDeps buildsInTurn = some s ∧ KeepsEntryTimes s := by
  refine ⟨statuses_keepEntryTimes.1 _ _ _ (by decide), ?_⟩
  obtain ⟨s, hrun⟩ : ∃ s, (start (worldWith .idle)).run plainDeps buildsInTurn = some s :=
    Option.isSome_iff_exists.mp (by decide +kernel)
  exact ⟨s, hrun, statuses_keepEntryTimes.2 _ buildsInTurn s (by decide +kernel) hrun⟩

/-- The same build ends between two builds that have read the running agent. -/
def slowBuild : List (DirectoryEvent Unit) :=
  .buildStarted 0 none :: readAll 0 ++ .changed (worldWith .running) :: .buildStarted 1 none :: readAll 1 ++
    .descriptorsBuilt 1 (fun _ _ => ()) "09:01" :: .descriptorsBuilt 0 (fun _ _ => ()) "09:02" ::
    .buildStarted 2 none :: readAll 2 ++ [.descriptorsBuilt 2 (fun _ _ => ()) "09:03"]

theorem slowBuild_restamps :
    ∃ s, (start (worldWith .idle)).run plainDeps slowBuild = some s ∧ ¬ KeepsEntryTimes s := by
  have hresults : ((start (worldWith .idle)).run plainDeps slowBuild).map (·.results) =
      some [⟨"w1", 1, 1, some "08:00"⟩, ⟨"w1", 0, 1, some "09:02"⟩, ⟨"w1", 1, 1, some "09:03"⟩] := by
    decide +kernel
  obtain ⟨s, hrun, hs⟩ := Option.map_eq_some_iff.mp hresults
  refine ⟨s, hrun, fun hkeeps => ?_⟩
  rw [KeepsEntryTimes, hs] at hkeeps
  have hsame := hkeeps ⟨"w1", 1, 1, some "08:00"⟩ (by simp) ⟨"w1", 1, 1, some "09:03"⟩ (by simp) rfl rfl rfl rfl
  exact absurd hsame (by decide)

end WorkspaceDirectory

end Orqara.Workspaces
