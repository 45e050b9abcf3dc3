import Orqara.Services.PlanPorts

/-!
# Runs of the port registry

What each call keeps, over every order of the calls, the answers of `allocatePort` and
the continuations.
-/

namespace Orqara.Services

namespace PortRegistry

/-- What a step must find for the registry to stay sound. Workspace ids hold no NUL; a
port is reserved for a service that has none, or has that very port, or (unless the maps
are to be inverse `exact`ly all the time) whose port the reserving refresh remembers and
is about to give back; and a refresh stores its port when its workspace has not been
released since it began and no other service of its plan has come to that port. -/
def Fits (exact : Prop) (s : PortRegistry) : Action → Prop
  | .ensure workspaceId _ => NulFree workspaceId
  | .refresh workspaceId _ => NulFree workspaceId
  | .release workspaceId => NulFree workspaceId
  | .allocated id port => ∀ job ∈ s.jobs, job.id = id → ∀ reservedPorts attempt,
      job.stage = .allocating reservedPorts attempt → s.Accepts job reservedPorts port →
      ∀ current, s.dynamicPort job.workspaceId job.scriptName = some current → current ≠ port →
        ¬ exact ∧ ∃ plan outdated, job.kind = .refresh plan (some current) outdated
  | .allocationFails _ _ => True
  | .proceed id => ∀ job ∈ s.jobs, job.id = id → ∀ plan oldDynamicPort outdated port,
      job.kind = .refresh plan oldDynamicPort outdated → job.stage = .resolved port →
        outdated = false ∧ ∀ n, n ≠ job.scriptName → (s.heap plan).get n ≠ some port

structure Inv (exact : Prop) (s : PortRegistry) : Prop where
  jobs : JobsInv s.jobs s.nextId s.tokens
  owners : OwnersInv exact s s.jobs
  plans : PlansInv s.heap s.jobs

variable {exact : Prop} {s : PortRegistry} {job : Job} {w : String}

theorem inv_empty : Inv exact empty where
  jobs := ⟨List.nodup_nil, fun _ h => absurd h List.not_mem_nil, fun _ h => absurd h List.not_mem_nil,
    fun _ h => absurd h List.not_mem_nil, fun _ h => absurd h List.not_mem_nil⟩
  owners := ⟨fun _ _ _ h => by contradiction, fun _ _ h => by contradiction⟩
  plans := ⟨fun _ => distinctPorts_empty, fun _ h => absurd h List.not_mem_nil⟩

theorem onJob_cases (s : PortRegistry) (id : ℕ) (f : Job → PortRegistry) :
    s.onJob id f = s ∨ ∃ job ∈ s.jobs, job.id = id ∧ s.onJob id f = f job := by
  unfold onJob
  cases hfind : s.jobs.find? fun job => job.id = id with
  | none => exact Or.inl rfl
  | some job =>
    refine Or.inr ⟨job, List.mem_of_find?_eq_some hfind, ?_, rfl⟩
    simpa using List.find?_some hfind

/-! ## Beginning a call -/

/-- A call that begins is at its first `await`. -/
theorem Inv.addJob (h : Inv exact s) (hid : job.id = s.nextId) (hname : NulFree job.workspaceId)
    {heap : ℕ → Plan} {nextPlan : ℕ} {tokens : String → Option Bool}
    (hheap : PlansInv heap s.jobs) (hkept : ∀ w, s.tokens w ≠ none → tokens w ≠ none)
    (hbuild : job.isBuild → s.tokens job.workspaceId = none ∧ tokens job.workspaceId ≠ none)
    (hjob : BuildInv job) : Inv exact ({ s with heap, nextPlan, tokens }.addJob job) where
  jobs := h.jobs.add hid hname hkept hbuild
  owners := h.owners.frame rfl rfl fun _ _ _ ⟨old, hold, hreplaces⟩ =>
    ⟨old, List.mem_append_left _ hold, hreplaces⟩
  plans := by
    apply hheap.withJobs
    intro other hother
    rcases List.mem_append.mp hother with hold | hnew
    · exact Or.inl hold
    · rw [List.mem_singleton.mp hnew]
      exact Or.inr hjob

theorem isBuild_buildJob (id : ℕ) (w : String) (plan : Plan) (explicitPorts : List ℤ)
    (services : List WorkspaceServicePortDeclaration) :
    (buildJob id w plan explicitPorts services).isBuild :=
  ⟨_, _, _, (buildJob_eq id w plan explicitPorts services).2.2.1⟩

theorem buildable_start {services : List WorkspaceServicePortDeclaration} {ports : List ℤ}
    (h : explicitPortOwners [] services = .ok ports) : Buildable ∅ ports services := by
  obtain ⟨heq, hnodup, -⟩ := explicitPortOwners_spec h
  refine ⟨distinctPorts_empty, hnodup, fun p hp => ⟨heq ▸ hp, fun n hget => ?_⟩⟩
  rw [OrderedMap.get_empty] at hget
  contradiction

section

variable (h : Inv exact s)
include h

theorem inv_ensure (hname : NulFree w) (services : List WorkspaceServicePortDeclaration) :
    Inv exact (s.ensure w services) := by
  simp only [ensure]
  cases s.plans w with
  | some plan =>
    refine ⟨⟨h.jobs.ids, ?_, h.jobs.names, h.jobs.pending, h.jobs.single⟩,
      h.owners.frame rfl rfl fun _ _ _ hreplaced => hreplaced, h.plans⟩
    exact fun other hother => (h.jobs.fresh other hother).trans (Nat.lt_succ_self _)
  | none =>
    cases htoken : s.tokens w with
    | some isReleased => exact h
    | none =>
      have hkept : ∀ w', s.tokens w' ≠ none →
          Function.update s.tokens w (some false) w' ≠ none := by
        intro w' hne
        rw [Function.update_apply]
        by_cases hw : w' = w
        · rw [if_pos hw]
          exact Option.some_ne_none _
        · rwa [if_neg hw]
      have hnew : Function.update s.tokens w (some false) w ≠ none := by
        rw [Function.update_self]
        exact Option.some_ne_none _
      cases hports : explicitPortOwners [] services with
      | error message =>
        refine h.addJob rfl hname h.plans hkept (fun _ => ⟨htoken, hnew⟩) ?_
        intro plan explicitPorts rest hkind
        obtain ⟨rfl, rfl, rfl⟩ := JobKind.build.inj hkind
        refine ⟨⟨distinctPorts_empty, List.nodup_nil, fun p hp => absurd hp List.not_mem_nil⟩, ?_, ?_⟩
        · intro reservedPorts attempt hstage
          contradiction
        · intro port hstage
          contradiction
      | ok ports =>
        obtain ⟨hid, hw, -, -⟩ := buildJob_eq s.nextId w ∅ ports services
        refine h.addJob hid (hw.symm ▸ hname) h.plans hkept (fun _ => ?_)
          (buildInv_buildJob (buildable_start hports))
        rw [hw]
        exact ⟨htoken, hnew⟩

theorem inv_refresh (hname : NulFree w) (service : WorkspaceServicePortDeclaration) :
    Inv exact (s.refresh w service) := by
  unfold refresh
  have hkept : ∀ w, s.tokens w ≠ none → s.tokens w ≠ none := fun _ h => h
  have hbuild : ∀ {job : Job} {plan : ℕ} {old : Option ℤ} {outdated : Bool},
      job.kind = .refresh plan old outdated → ¬ job.isBuild := by
    rintro job plan old outdated hkind ⟨plan', ports, rest, heq⟩
    rw [hkind] at heq
    contradiction
  have hinv : ∀ {job : Job} {plan : ℕ} {old : Option ℤ} {outdated : Bool},
      job.kind = .refresh plan old outdated → BuildInv job := by
    intro job plan old outdated hkind plan' ports rest heq
    rw [hkind] at heq
    contradiction
  cases s.plans w with
  | some plan =>
    exact h.addJob rfl hname h.plans hkept (fun hb => absurd hb (hbuild rfl)) (hinv rfl)
  | none =>
    exact h.addJob rfl hname (h.plans.update _ distinctPorts_empty) hkept
      (fun hb => absurd hb (hbuild rfl)) (hinv rfl)

/-! ## Going on -/

/-- A call goes on in place, with the maps as they are. -/
theorem Inv.setJob (hjob : job ∈ s.jobs) {job' : Job} (hid : job'.id = job.id)
    (hw : job'.workspaceId = job.workspaceId) (hbuild : job'.isBuild → job.isBuild)
    (hnot : ∀ w n p, ¬ job.Replaces w n p) (hinv : BuildInv job') : Inv exact (s.setJob job') where
  jobs := h.jobs.set hjob hid hw hbuild
  owners := by
    refine h.owners.frame ?_ ?_ ?_
    · rfl
    · rfl
    rintro w n p ⟨other, hother, hreplaces⟩
    refine ⟨other, mem_setJobs_of_ne hother ?_, hreplaces⟩
    intro heq
    rw [h.jobs.eq_of_id hjob hother (heq.trans hid)] at hreplaces
    exact hnot w n p hreplaces
  plans := by
    apply h.plans.withJobs
    intro other hother
    rcases mem_setJobs hother with ⟨hold, -⟩ | rfl
    · exact Or.inl hold
    · exact Or.inr hinv

omit h in
theorem not_replaces_of_allocating {reservedPorts : List ℤ} {attempt : ℕ}
    (hstage : job.stage = .allocating reservedPorts attempt) (w n : String) (p : ℤ) :
    ¬ job.Replaces w n p := by
  rintro ⟨-, -, -, newPort, hresolved, -⟩
  rw [hstage] at hresolved
  contradiction

omit h in
theorem not_replaces_of_isBuild (hbuild : job.isBuild) (w n : String) (p : ℤ) :
    ¬ job.Replaces w n p := by
  rintro ⟨-, -, ⟨plan, outdated, hkind⟩, -⟩
  obtain ⟨plan', ports, rest, hkind'⟩ := hbuild
  rw [hkind] at hkind'
  contradiction

omit h in
/-- A call that still waits for a port, or gives up. -/
theorem buildInv_of_stage {stage : Stage} (h : BuildInv job)
    (hstage : ∀ reservedPorts attempt, stage = .allocating reservedPorts attempt →
      ∃ attempt', job.stage = .allocating reservedPorts attempt')
    (hport : ∀ port, stage = .resolved port → ∃ reservedPorts attempt,
      job.stage = .allocating reservedPorts attempt ∧ port ∉ reservedPorts) :
    BuildInv { job with stage := stage } := by
  intro plan explicitPorts rest hkind
  obtain ⟨hbuildable, hreserved, -⟩ := h plan explicitPorts rest hkind
  refine ⟨hbuildable, ?_, ?_⟩
  · intro reservedPorts attempt heq
    obtain ⟨attempt', hold⟩ := hstage reservedPorts attempt heq
    exact hreserved reservedPorts attempt' hold
  · intro port heq
    obtain ⟨reservedPorts, attempt, hold, hnot⟩ := hport port heq
    rw [← hreserved reservedPorts attempt hold]
    exact hnot

section

variable (hjob : job ∈ s.jobs)
include hjob

theorem inv_allocated {port : ℤ} (hfits : s.Fits exact (.allocated job.id port)) :
    Inv exact (s.allocated job port) := by
  unfold allocated
  cases hstage : job.stage with
  | resolved | built | failing => exact h
  | allocating reservedPorts attempt =>
    have hnot := not_replaces_of_allocating hstage
    have hbuild := h.plans.builds job hjob
    dsimp only
    by_cases haccepts : s.Accepts job reservedPorts port
    · rw [if_pos haccepts]
      refine ⟨h.jobs.set hjob rfl rfl fun hb => hb, ?_, ?_⟩
      · refine (h.owners.reserve h.jobs hjob hstage haccepts.2 ?_).frame rfl rfl fun _ _ _ hr => hr
        exact hfits job hjob rfl reservedPorts attempt hstage haccepts
      · apply h.plans.withJobs
        intro other hother
        rcases mem_setJobs hother with ⟨hold, -⟩ | rfl
        · exact Or.inl hold
        · right
          apply buildInv_of_stage hbuild
          · intro _ _ heq
            contradiction
          · intro port' heq
            rw [← Stage.resolved.inj heq]
            exact ⟨reservedPorts, attempt, hstage, haccepts.1⟩
    · rw [if_neg haccepts]
      by_cases hattempt : attempt + 1 < MAX_DYNAMIC_PORT_ALLOCATION_ATTEMPTS
      · rw [if_pos hattempt]
        refine h.setJob hjob rfl rfl (fun hb => hb) hnot (buildInv_of_stage hbuild ?_ ?_)
        · intro reserved attempt' heq
          rw [← (Stage.allocating.inj heq).1]
          exact ⟨attempt, hstage⟩
        · intro _ heq
          contradiction
      · rw [if_neg hattempt]
        refine h.setJob hjob rfl rfl (fun hb => hb) hnot (buildInv_of_stage hbuild ?_ ?_)
        · intro _ _ heq
          contradiction
        · intro _ heq
          contradiction

theorem inv_allocationFails (message : String) :
    Inv exact (s.allocationFails job message) := by
  unfold allocationFails
  cases hstage : job.stage with
  | resolved | built | failing => exact h
  | allocating reservedPorts attempt =>
    refine h.setJob hjob rfl rfl (fun hb => hb) (not_replaces_of_allocating hstage)
      (buildInv_of_stage (h.plans.builds job hjob) ?_ ?_)
    · intro _ _ heq
      contradiction
    · intro _ heq
      contradiction

omit h hjob in
/-- The calls but one, which has given back what it replaced. -/
theorem replaces_dropJob {jobs : List Job} (hids : JobsInv s.jobs s.nextId s.tokens)
    (hjobs : jobs = s.jobs) (hjob : job ∈ s.jobs) (hnot : ∀ w n p, ¬ job.Replaces w n p)
    (w n : String) (p : ℤ) (h : ∃ other ∈ jobs, other.Replaces w n p) :
    ∃ other ∈ dropJob jobs job.id, other.Replaces w n p := by
  obtain ⟨other, hother, hreplaces⟩ := h
  refine ⟨other, mem_dropJob.mpr ⟨hother, ?_⟩, hreplaces⟩
  intro heq
  rw [hids.eq_of_id hjob (hjobs ▸ hother) heq] at hreplaces
  exact hnot w n p hreplaces

theorem inv_failPending (hbuild : job.isBuild) (message : String) :
    Inv exact (s.failPending job message) := by
  have hjobs : (s.releaseWorkspaceServicePortPlan job.workspaceId).jobs = s.jobs :=
    jobs_releaseWorkspace
  refine ⟨?_, ?_, ?_⟩
  · show JobsInv (dropJob (releaseWorkspaceServicePortPlan s job.workspaceId).jobs job.id)
      (s.releaseWorkspaceServicePortPlan job.workspaceId).nextId
      (Function.update (s.releaseWorkspaceServicePortPlan job.workspaceId).tokens
        job.workspaceId none)
    rw [hjobs, nextId_releaseWorkspace, tokens_releaseWorkspace]
    apply h.jobs.drop
    intro other hother hne hother'
    have hw : other.workspaceId ≠ job.workspaceId := fun hw =>
      hne (h.jobs.single other hother job hjob hother' hbuild hw)
    rw [Function.update_of_ne hw, Function.update_of_ne hw]
    exact h.jobs.pending other hother hother'
  · refine (h.owners.releaseWorkspace job.workspaceId).frame rfl rfl ?_
    intro w n p hreplaced
    exact replaces_dropJob h.jobs hjobs hjob (not_replaces_of_isBuild hbuild) w n p
      (hjobs ▸ hreplaced)
  · have hplans := h.plans.drop job.id
    rw [← hjobs, ← heap_releaseWorkspace (w := job.workspaceId)] at hplans
    exact hplans

theorem inv_storePending {plan : Plan} {ports : List ℤ} {rest : List WorkspaceServicePortDeclaration}
    (hkind : job.kind = .build plan ports rest) :
    Inv exact (s.storePending job plan) := by
  have hbuild : job.isBuild := ⟨plan, ports, rest, hkind⟩
  unfold storePending
  by_cases hreleased : s.tokens job.workspaceId = some true
  · rw [if_pos hreleased]
    exact inv_failPending h hjob hbuild _
  · rw [if_neg hreleased]
    refine ⟨h.jobs.drop ?_, h.owners.frame rfl rfl ?_, ?_⟩
    · intro other hother hne hother'
      have hw : other.workspaceId ≠ job.workspaceId := fun hw =>
        hne (h.jobs.single other hother job hjob hother' hbuild hw)
      show Function.update s.tokens _ _ _ ≠ _
      rw [Function.update_of_ne hw]
      exact h.jobs.pending other hother hother'
    · exact replaces_dropJob h.jobs rfl hjob (not_replaces_of_isBuild hbuild)
    · have hdistinct := ((h.plans.builds job hjob) plan ports rest hkind).1.distinct
      exact (h.plans.update s.nextPlan hdistinct).drop job.id

theorem inv_storeRefreshed {plan : ℕ} {oldDynamicPort : Option ℤ} {outdated : Bool} {port : ℤ}
    (hkind : job.kind = .refresh plan oldDynamicPort outdated) (hstage : job.stage = .resolved port)
    (hfree : ∀ n, n ≠ job.scriptName → (s.heap plan).get n ≠ some port) :
    Inv exact (s.storeRefreshed job plan oldDynamicPort port) := by
  -- what a refresh replaces is the port it remembers
  have hreplaces : ∀ w n p, job.Replaces w n p → oldDynamicPort = some p ∧ p ≠ port := by
    rintro w n p ⟨-, -, ⟨plan', outdated', hkind'⟩, newPort, hresolved, hne⟩
    rw [hkind] at hkind'
    rw [hstage] at hresolved
    refine ⟨(JobKind.refresh.inj hkind').2.1, ?_⟩
    rw [Stage.resolved.inj hresolved]
    exact hne.symm
  have hdone : ∀ s' : PortRegistry, s'.heap = s.heap → s'.jobs = s.jobs → s'.nextId = s.nextId →
      s'.tokens = s.tokens → OwnersInv exact s' (dropJob s.jobs job.id) →
      Inv exact ({ s' with
        heap := Function.update s'.heap plan ((s'.heap plan).set job.scriptName port)
        plans := Function.update s'.plans job.workspaceId (some plan) }.settle job.id
          (.ok (.port port))) := by
    intro s' hheap hjobs hnext htokens howners
    have hplans := (h.plans.update plan ((h.plans.stored plan).set hfree)).drop job.id
    have hids : JobsInv (dropJob s.jobs job.id) s.nextId s.tokens :=
      h.jobs.drop fun other hother _ hb => h.jobs.pending other hother hb
    rw [← hheap, ← hjobs] at hplans
    rw [← hjobs, ← hnext, ← htokens] at hids
    rw [← hjobs] at howners
    exact ⟨hids, howners.frame rfl rfl fun _ _ _ hr => hr, hplans⟩
  unfold storeRefreshed
  cases hold : oldDynamicPort with
  | none =>
    refine hdone s rfl rfl rfl rfl (h.owners.frame rfl rfl (replaces_dropJob h.jobs rfl hjob ?_))
    intro w n p hrep
    have := (hreplaces w n p hrep).1
    rw [hold] at this
    contradiction
  | some old =>
    dsimp only
    by_cases hne : old ≠ port
    · rw [if_pos hne]
      refine hdone _ heap_releaseDynamicPort jobs_releaseDynamicPort
        (releaseDynamicPort_frame nextId fun _ _ _ => rfl)
        (releaseDynamicPort_frame tokens fun _ _ _ => rfl) ?_
      apply h.owners.giveBack h.jobs hjob
      intro w n p hrep
      have := (hreplaces w n p hrep).1
      rw [hold] at this
      exact (Option.some.inj this).symm
    · rw [if_neg hne]
      refine hdone s rfl rfl rfl rfl (h.owners.frame rfl rfl (replaces_dropJob h.jobs rfl hjob ?_))
      intro w n p hrep
      obtain ⟨heq, hport⟩ := hreplaces w n p hrep
      rw [hold] at heq
      rw [← Option.some.inj heq] at hport
      exact hne hport

theorem inv_proceed (hfits : s.Fits exact (.proceed job.id)) :
    Inv exact (s.proceed job) := by
  unfold proceed
  cases hstage : job.stage with
  | allocating => exact h
  | resolved port =>
    cases hkind : job.kind with
    | build plan ports rest =>
      obtain ⟨hbuildable, -, hport⟩ := (h.plans.builds job hjob) plan ports rest hkind
      have hgo := hbuildable.resolve (hport port hstage) job.scriptName
      obtain ⟨hid, hw, -, -⟩ :=
        buildJob_eq job.id job.workspaceId (plan.set job.scriptName port) ports rest
      exact h.setJob hjob hid hw (fun _ => ⟨plan, ports, rest, hkind⟩)
        (not_replaces_of_isBuild ⟨plan, ports, rest, hkind⟩) (buildInv_buildJob hgo)
    | refresh plan old outdated =>
      exact inv_storeRefreshed h hjob hkind hstage
        (hfits job hjob rfl plan old outdated port hkind hstage).2
  | built =>
    cases hkind : job.kind with
    | build plan ports rest => exact inv_storePending h hjob hkind
    | refresh => exact h
  | failing message =>
    cases hkind : job.kind with
    | build plan ports rest => exact inv_failPending h hjob ⟨plan, ports, rest, hkind⟩ message
    | refresh plan old outdated =>
      refine ⟨h.jobs.drop fun other hother _ hb => h.jobs.pending other hother hb,
        h.owners.frame rfl rfl (replaces_dropJob h.jobs rfl hjob ?_), h.plans.drop job.id⟩
      rintro w n p ⟨-, -, -, newPort, hresolved, -⟩
      rw [hstage] at hresolved
      contradiction

end

theorem inv_release (w : String) : Inv exact (s.release w) := by
  have hjobs : (s.releaseWorkspaceServicePortPlan w).jobs = s.jobs := jobs_releaseWorkspace
  refine ⟨?_, ?_, ?_⟩
  · show JobsInv (outdateJobs (s.releaseWorkspaceServicePortPlan w).jobs w)
      (s.releaseWorkspaceServicePortPlan w).nextId (s.releaseWorkspaceServicePortPlan w).tokens
    rw [hjobs, nextId_releaseWorkspace, tokens_releaseWorkspace]
    apply (h.jobs.withTokens _).outdate
    intro w' hne
    rw [Function.update_apply]
    by_cases hw : w' = w
    · rw [if_pos hw, ← hw]
      exact fun hnone => hne (Option.map_eq_none_iff.mp hnone)
    · rwa [if_neg hw]
  · refine (h.owners.releaseWorkspace w).frame rfl rfl ?_
    rintro w' n p ⟨other, hother, hreplaces⟩
    refine ⟨if other.workspaceId = w then other.outdate else other,
      List.mem_map.mpr ⟨other, hjobs.symm ▸ hother, rfl⟩, ?_⟩
    by_cases hw : other.workspaceId = w
    · rw [if_pos hw]
      exact Job.replaces_outdate.mpr hreplaces
    · rw [if_neg hw]
      exact hreplaces
  · show PlansInv (s.releaseWorkspaceServicePortPlan w).heap
      (outdateJobs (s.releaseWorkspaceServicePortPlan w).jobs w)
    rw [hjobs, heap_releaseWorkspace]
    refine ⟨h.plans.stored, ?_⟩
    intro other hother
    obtain ⟨old, hold, rfl⟩ := mem_outdateJobs hother
    by_cases hw : old.workspaceId = w
    · rw [if_pos hw]
      have hinv := h.plans.builds old hold
      unfold Job.outdate
      cases hkind : old.kind with
      | build => exact hinv
      | refresh plan oldDynamicPort outdated =>
        intro plan' ports rest heq
        contradiction
    · rw [if_neg hw]
      exact h.plans.builds old hold

/-- An action on a call that has not settled is one on the call. -/
theorem inv_onJob (id : ℕ) {f : Job → PortRegistry} (hf : ∀ job ∈ s.jobs, job.id = id → Inv exact (f job)) :
    Inv exact (s.onJob id f) := by
  rcases onJob_cases s id f with heq | ⟨job, hjob, hid, heq⟩
  · rw [heq]
    exact h
  · rw [heq]
    exact hf job hjob hid

theorem inv_step {action : Action} (hfits : s.Fits exact action) :
    Inv exact (s.step action) := by
  cases action with
  | ensure w services => exact inv_ensure h hfits services
  | refresh w service => exact inv_refresh h hfits service
  | release w => exact inv_release h w
  | allocated id port =>
    apply inv_onJob h id
    rintro job hjob rfl
    exact inv_allocated h hjob hfits
  | allocationFails id message =>
    apply inv_onJob h id
    rintro job hjob -
    exact inv_allocationFails h hjob message
  | proceed id =>
    apply inv_onJob h id
    rintro job hjob rfl
    exact inv_proceed h hjob hfits

end

end PortRegistry

end Orqara.Services
