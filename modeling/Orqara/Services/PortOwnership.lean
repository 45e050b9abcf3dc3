import Orqara.Services.PortRuns

/-!
# Service ports are owned by one service

What a released workspace keeps, and the ownership of ports over whole runs.
-/

namespace Orqara.Services.PortRegistry

open List Option Function

/-- A workspace that was released, while the calls it had then may still be on their
way: none of them will store a plan. -/
structure Released (w : String) (s : PortRegistry) : Prop where
  plans : s.plans w = none
  calls : ∀ job ∈ s.jobs, job.workspaceId = w → (job.isBuild → s.tokens w = some true) ∧
    ∀ plan oldDynamicPort outdated, job.kind = .refresh plan oldDynamicPort outdated →
      outdated = true
  ports : ∀ n p, s.dynamicPort w n = some p → ∃ job ∈ s.jobs, job.workspaceId = w ∧
    (job.isBuild ∨ ∃ port, job.stage = .resolved port)

variable {exact : Prop} {s s' : PortRegistry} {job : Job} {w : String} {actions : List Action}

section

variable (h : Released w s) {w' : String}
include h

/-- A step of another workspace. -/
theorem Released.other (hplans : s'.plans w = s.plans w) (htokens : s'.tokens w = s.tokens w)
    (hports : ∀ n, s'.dynamicPort w n = s.dynamicPort w n)
    (hjobs : ∀ job, job.workspaceId = w → (job ∈ s'.jobs ↔ job ∈ s.jobs)) : Released w s' where
  plans := hplans.trans h.plans
  calls job hjob hw := by
    rw [htokens]
    exact h.calls job ((hjobs job hw).mp hjob) hw
  ports n p hport := by
    rw [hports] at hport
    obtain ⟨job, hjob, hw, hholds⟩ := h.ports n p hport
    exact ⟨job, (hjobs job hw).mpr hjob, hw, hholds⟩

section

variable (hids : JobsInv s.jobs s.nextId s.tokens)
include hids

section

variable (hjob : job ∈ s.jobs)
include hjob

/-- A call of the workspace goes on in place. -/
theorem Released.setJob {job' : Job} (hid : job'.id = job.id)
    (hw : job'.workspaceId = job.workspaceId) (hbuild : job'.isBuild ↔ job.isBuild)
    (hkind : job'.isBuild ∨ job'.kind = job.kind)
    (hwaits : job.isBuild ∨ ∀ port, job.stage ≠ .resolved port) : Released w (s.setJob job') where
  plans := h.plans
  calls other hother hother' := by
    rcases mem_setJobs hother with ⟨hold, -⟩ | rfl
    · exact h.calls other hold hother'
    · have hcalls := h.calls job hjob (hw.symm.trans hother')
      refine ⟨fun hb => hcalls.1 (hbuild.mp hb), ?_⟩
      intro plan old outdated hk
      rcases hkind with ⟨plan', ports, rest, hb⟩ | hsame
      · rw [hk] at hb
        contradiction
      · exact hcalls.2 plan old outdated (hsame ▸ hk)
  ports n p hport := by
    obtain ⟨other, hother, hother', hholds⟩ := h.ports n p hport
    by_cases hsame : other.id = job'.id
    · have heq := hids.eq_of_id hjob hother (hsame.trans hid)
      rw [heq] at hholds hother'
      refine ⟨job', mem_setJobs_self hother hsame, hw.trans hother', Or.inl ?_⟩
      rcases hholds with hb | ⟨port, hresolved⟩
      · exact hbuild.mpr hb
      · rcases hwaits with hb | hnot
        · exact hbuild.mpr hb
        · exact absurd hresolved (hnot port)
    · exact ⟨other, mem_setJobs_of_ne hother hsame, hother', hholds⟩

omit h in
theorem mem_setJobs_other {job' : Job} (hid : job'.id = job.id)
    (hw : job'.workspaceId = job.workspaceId) (hne : job.workspaceId ≠ w) (other : Job)
    (hother : other.workspaceId = w) :
    other ∈ setJobs s.jobs job' ↔ other ∈ s.jobs := by
  constructor
  · intro hmem
    rcases mem_setJobs hmem with ⟨hold, -⟩ | rfl
    · exact hold
    · exact absurd (hw.symm.trans hother) hne
  · intro hmem
    apply mem_setJobs_of_ne hmem
    intro heq
    rw [hids.eq_of_id hjob hmem (heq.trans hid)] at hother
    exact hne hother

omit h in
theorem mem_dropJob_other (hne : job.workspaceId ≠ w) (other : Job)
    (hother : other.workspaceId = w) :
    other ∈ dropJob s.jobs job.id ↔ other ∈ s.jobs := by
  rw [mem_dropJob]
  refine and_iff_left_of_imp fun hmem heq => ?_
  rw [hids.eq_of_id hjob hmem heq] at hother
  exact hne hother

end

end

omit h in
/-- Releasing a workspace makes it so. -/
theorem released_release (h : Inv exact s) (w : String) : Released w (s.release w) where
  plans := by
    show (s.releaseWorkspaceServicePortPlan w).plans w = none
    rw [plans_releaseWorkspace, update_self]
  calls job hjob hw := by
    have hjob' : job ∈ outdateJobs (s.releaseWorkspaceServicePortPlan w).jobs w := hjob
    rw [jobs_releaseWorkspace] at hjob'
    obtain ⟨old, hold, heq⟩ := mem_outdateJobs hjob'
    by_cases hold' : old.workspaceId = w
    · rw [if_pos hold'] at heq
      rw [heq]
      constructor
      · intro hb
        have hpending := h.jobs.pending old hold (Job.isBuild_outdate.mp hb)
        obtain ⟨isReleased, htoken⟩ := ne_none_iff_exists'.mp hpending
        show (s.releaseWorkspaceServicePortPlan w).tokens w = some true
        rw [tokens_releaseWorkspace, update_self, ← hold', htoken]
        rfl
      · intro plan oldDynamicPort outdated hkind
        unfold Job.outdate at hkind
        cases hk : old.kind with
        | build plan' ports rest =>
          rw [hk] at hkind
          dsimp only at hkind
          rw [hk] at hkind
          contradiction
        | refresh plan' old' outdated' =>
          rw [hk] at hkind
          exact (JobKind.refresh.inj hkind).2.2.symm
    · rw [if_neg hold'] at heq
      rw [heq] at hw
      exact absurd hw hold'
  ports n p hport := by
    have hnone : (s.releaseWorkspaceServicePortPlan w).dynamicPort w n = none := by
      rw [dynamicPort_releaseWorkspace, if_pos rfl]
    rw [show (s.release w).dynamicPort w n = none from hnone] at hport
    contradiction

theorem released_release_other (hne : w ≠ w') :
    Released w (s.release w') := by
  refine h.other ?_ ?_ ?_ ?_
  · show (s.releaseWorkspaceServicePortPlan w').plans w = _
    rw [plans_releaseWorkspace, update_of_ne hne]
  · show (s.releaseWorkspaceServicePortPlan w').tokens w = _
    rw [tokens_releaseWorkspace, update_of_ne hne]
  · intro n
    show (s.releaseWorkspaceServicePortPlan w').dynamicPort w n = _
    rw [dynamicPort_releaseWorkspace, if_neg hne]
  · intro job hw
    show job ∈ outdateJobs (s.releaseWorkspaceServicePortPlan w').jobs w' ↔ _
    rw [jobs_releaseWorkspace]
    constructor
    · intro hjob
      obtain ⟨old, hold, heq⟩ := mem_outdateJobs hjob
      by_cases hold' : old.workspaceId = w'
      · rw [if_pos hold'] at heq
        rw [heq, Job.outdate_workspaceId, hold'] at hw
        exact absurd hw.symm hne
      · rw [if_neg hold'] at heq
        rw [heq]
        exact hold
    · intro hjob
      exact List.mem_map.mpr ⟨job, hjob, if_neg (hw ▸ hne)⟩

/-! ## The calls of a released workspace -/

section

variable (hinv : Inv exact s) (hjob : job ∈ s.jobs)
include hinv hjob

theorem released_allocated (port : ℤ) :
    Released w (s.allocated job port) := by
  unfold allocated
  cases hstage : job.stage with
  | resolved | built | failing => exact h
  | allocating reservedPorts attempt =>
    have hnot : ∀ port, job.stage ≠ .resolved port := by
      intro port heq
      rw [hstage] at heq
      contradiction
    dsimp only
    by_cases haccepts : s.Accepts job reservedPorts port
    · rw [if_pos haccepts]
      by_cases hw : job.workspaceId = w
      · have hset : Released w (s.setJob { job with stage := .resolved port }) :=
          h.setJob hinv.jobs hjob rfl rfl Iff.rfl (Or.inr rfl) (Or.inr hnot)
        refine ⟨hset.plans, hset.calls, fun n p _ => ?_⟩
        exact ⟨{ job with stage := .resolved port }, mem_setJobs_self hjob rfl, hw, Or.inr ⟨port, rfl⟩⟩
      · refine h.other rfl rfl ?_ (mem_setJobs_other hinv.jobs hjob rfl rfl hw)
        intro n
        show (s.reserveDynamicPort _ _ _).dynamicPort w n = _
        rw [dynamicPort_reserve, if_neg fun heq => hw heq.1.symm]
    · rw [if_neg haccepts]
      by_cases hattempt : attempt + 1 < MAX_DYNAMIC_PORT_ALLOCATION_ATTEMPTS
      · rw [if_pos hattempt]
        exact h.setJob hinv.jobs hjob rfl rfl Iff.rfl (Or.inr rfl) (Or.inr hnot)
      · rw [if_neg hattempt]
        exact h.setJob hinv.jobs hjob rfl rfl Iff.rfl (Or.inr rfl) (Or.inr hnot)

theorem released_allocationFails (message : String) :
    Released w (s.allocationFails job message) := by
  unfold allocationFails
  cases hstage : job.stage with
  | resolved | built | failing => exact h
  | allocating reservedPorts attempt =>
    refine h.setJob hinv.jobs hjob rfl rfl Iff.rfl (Or.inr rfl) (Or.inr ?_)
    intro port heq
    rw [hstage] at heq
    contradiction

theorem released_failPending (hbuild : job.isBuild) (message : String) :
    Released w (s.failPending job message) := by
  by_cases hw : job.workspaceId = w
  · refine ⟨?_, ?_, ?_⟩
    · show (s.releaseWorkspaceServicePortPlan job.workspaceId).plans w = none
      rw [plans_releaseWorkspace, hw, update_self]
    · intro other hother hother'
      have hmem : other ∈ dropJob (s.releaseWorkspaceServicePortPlan job.workspaceId).jobs job.id :=
        hother
      rw [jobs_releaseWorkspace] at hmem
      obtain ⟨hold, hne⟩ := mem_dropJob.mp hmem
      refine ⟨fun hb => ?_, (h.calls other hold hother').2⟩
      -- a workspace has no second pending plan
      exact absurd (hinv.jobs.single other hold job hjob hb hbuild (hother'.trans hw.symm)) hne
    · intro n p hport
      have hnone : (s.releaseWorkspaceServicePortPlan job.workspaceId).dynamicPort w n = none := by
        rw [dynamicPort_releaseWorkspace, if_pos hw.symm]
      rw [show (s.failPending job message).dynamicPort w n = none from hnone] at hport
      contradiction
  · refine h.other ?_ ?_ ?_ ?_
    · show (s.releaseWorkspaceServicePortPlan job.workspaceId).plans w = _
      rw [plans_releaseWorkspace, update_of_ne (Ne.symm hw)]
    · show Function.update (s.releaseWorkspaceServicePortPlan job.workspaceId).tokens _ none w = _
      rw [update_of_ne (Ne.symm hw), tokens_releaseWorkspace,
        update_of_ne (Ne.symm hw)]
    · intro n
      show (s.releaseWorkspaceServicePortPlan job.workspaceId).dynamicPort w n = _
      rw [dynamicPort_releaseWorkspace, if_neg (Ne.symm hw)]
    · intro other hother
      show other ∈ dropJob (s.releaseWorkspaceServicePortPlan job.workspaceId).jobs job.id ↔ _
      rw [jobs_releaseWorkspace]
      exact mem_dropJob_other hinv.jobs hjob hw other hother

theorem released_storeRefreshed (hw : job.workspaceId ≠ w) (plan : ℕ) (oldDynamicPort : Option ℤ)
    (port : ℤ) :
    Released w (s.storeRefreshed job plan oldDynamicPort port) := by
  have hdone : ∀ s' : PortRegistry, s'.plans = s.plans → s'.tokens = s.tokens → s'.jobs = s.jobs →
      (∀ n, s'.dynamicPort w n = s.dynamicPort w n) →
      Released w ({ s' with
        heap := Function.update s'.heap plan ((s'.heap plan).set job.scriptName port)
        plans := Function.update s'.plans job.workspaceId (some plan) }.settle job.id
          (.ok (.port port))) := by
    intro s' hplans htokens hjobs hports
    refine h.other ?_ ?_ hports ?_
    · show Function.update s'.plans job.workspaceId (some plan) w = _
      rw [update_of_ne (Ne.symm hw), hplans]
    · show s'.tokens w = _
      rw [htokens]
    · intro other hother
      show other ∈ dropJob s'.jobs job.id ↔ _
      rw [hjobs]
      exact mem_dropJob_other hinv.jobs hjob hw other hother
  unfold storeRefreshed
  cases oldDynamicPort with
  | none => exact hdone s rfl rfl rfl fun _ => rfl
  | some old =>
    dsimp only
    by_cases hne : old ≠ port
    · rw [if_pos hne]
      refine hdone _ (releaseDynamicPort_frame PortRegistry.plans fun _ _ _ => rfl)
        (releaseDynamicPort_frame tokens fun _ _ _ => rfl) jobs_releaseDynamicPort ?_
      intro n
      rw [dynamicPort_releaseDynamicPort, if_neg fun heq => hw heq.1.symm]
    · rw [if_neg hne]
      exact hdone s rfl rfl rfl fun _ => rfl

theorem released_proceed (hfits : s.Fits exact (.proceed job.id)) : Released w (s.proceed job) := by
  unfold proceed
  cases hstage : job.stage with
  | allocating => exact h
  | resolved port =>
    cases hkind : job.kind with
    | build plan ports rest =>
      obtain ⟨hid, hw, -, -⟩ :=
        buildJob_eq job.id job.workspaceId (plan.set job.scriptName port) ports rest
      have hbuild : job.isBuild := ⟨plan, ports, rest, hkind⟩
      exact h.setJob hinv.jobs hjob hid hw (iff_of_true (isBuild_buildJob ..) hbuild)
        (Or.inl (isBuild_buildJob ..)) (Or.inl hbuild)
    | refresh plan old outdated =>
      by_cases hw : job.workspaceId = w
      · -- the workspace was released since this refresh began
        have hcurrent := (hfits job hjob rfl plan old outdated port hkind hstage).1
        rw [(h.calls job hjob hw).2 plan old outdated hkind] at hcurrent
        contradiction
      · exact released_storeRefreshed h hinv hjob hw plan old port
  | built =>
    cases hkind : job.kind with
    | build plan ports rest =>
      have hbuild : job.isBuild := ⟨plan, ports, rest, hkind⟩
      dsimp only
      unfold storePending
      by_cases hreleased : s.tokens job.workspaceId = some true
      · rw [if_pos hreleased]
        exact released_failPending h hinv hjob hbuild _
      · rw [if_neg hreleased]
        have hw : job.workspaceId ≠ w := by
          rintro rfl
          exact hreleased ((h.calls job hjob rfl).1 hbuild)
        exact h.other (update_of_ne (Ne.symm hw) ..) (update_of_ne (Ne.symm hw) ..)
          (fun _ => rfl) fun other hother => mem_dropJob_other hinv.jobs hjob hw other hother
    | refresh => exact h
  | failing message =>
    cases hkind : job.kind with
    | build plan ports rest =>
      exact released_failPending h hinv hjob ⟨plan, ports, rest, hkind⟩ message
    | refresh plan old outdated =>
      refine ⟨h.plans, fun other hother => h.calls other (mem_dropJob.mp hother).1, ?_⟩
      intro n p hport
      obtain ⟨other, hother, hw, hholds⟩ := h.ports n p hport
      refine ⟨other, mem_dropJob.mpr ⟨hother, fun heq => ?_⟩, hw, hholds⟩
      rw [hinv.jobs.eq_of_id hjob hother heq] at hholds
      rcases hholds with ⟨plan', ports, rest, hb⟩ | ⟨port, hresolved⟩
      · rw [hkind] at hb
        contradiction
      · rw [hstage] at hresolved
        contradiction

end

/-- A call that is not for the workspace to begin. -/
def Action.Begins (w : String) : Action → Prop
  | .ensure workspaceId _ => workspaceId = w
  | .refresh workspaceId _ => workspaceId = w
  | _ => False

theorem released_onJob (id : ℕ) {f : Job → PortRegistry}
    (hf : ∀ job ∈ s.jobs, job.id = id → Released w (f job)) : Released w (s.onJob id f) := by
  rcases onJob_cases s id f with heq | ⟨job, hjob, hid, heq⟩
  · rw [heq]
    exact h
  · rw [heq]
    exact hf job hjob hid

theorem released_ensure (hne : w ≠ w') (services : List WorkspaceServicePortDeclaration) :
    Released w (s.ensure w' services) := by
  have hadd : ∀ job : Job, job.workspaceId = w' →
      Released w ({ s with tokens := Function.update s.tokens w' (some false) }.addJob job) := by
    intro job hw
    refine h.other rfl (update_of_ne hne ..) (fun _ => rfl) ?_
    intro other hother
    refine mem_append.trans (or_iff_left ?_)
    intro hnew
    rw [mem_singleton.mp hnew] at hother
    exact hne (hother.symm.trans hw)
  simp only [ensure]
  cases s.plans w' with
  | some plan => exact h.other rfl rfl (fun _ => rfl) fun _ _ => Iff.rfl
  | none =>
    cases s.tokens w' with
    | some isReleased => exact h
    | none =>
      cases explicitPortOwners [] services with
      | error message => exact hadd _ rfl
      | ok ports => exact hadd _ (buildJob_eq s.nextId w' ∅ ports services).2.1

theorem released_refresh (hne : w ≠ w') (service : WorkspaceServicePortDeclaration) :
    Released w (s.refresh w' service) := by
  have hadd : ∀ (heap : ℕ → Plan) (nextPlan : ℕ) (job : Job), job.workspaceId = w' →
      Released w ({ s with heap, nextPlan }.addJob job) := by
    intro heap nextPlan job hw
    refine h.other rfl rfl (fun _ => rfl) ?_
    intro other hother
    refine mem_append.trans (or_iff_left ?_)
    intro hnew
    rw [mem_singleton.mp hnew] at hother
    exact hne (hother.symm.trans hw)
  unfold refresh
  cases s.plans w' with
  | some plan => exact hadd s.heap s.nextPlan _ rfl
  | none => exact hadd _ _ _ rfl

theorem released_step (hinv : Inv exact s) {action : Action} (hfits : s.Fits exact action)
    (hbegins : ¬ Action.Begins w action) :
    Released w (s.step action) := by
  cases action with
  | ensure w' services => exact released_ensure h (fun heq => hbegins heq.symm) services
  | refresh w' service => exact released_refresh h (fun heq => hbegins heq.symm) service
  | release w' =>
    by_cases hw : w = w'
    · rw [hw]
      exact released_release hinv w'
    · exact released_release_other h hw
  | allocated id port =>
    apply released_onJob h id
    rintro job hjob -
    exact released_allocated h hinv hjob port
  | allocationFails id message =>
    apply released_onJob h id
    rintro job hjob -
    exact released_allocationFails h hinv hjob message
  | proceed id =>
    apply released_onJob h id
    rintro job hjob rfl
    exact released_proceed h hinv hjob hfits

end

/-! ## Runs -/

/-- Every step of the run fits the registry it meets. -/
def RunFits (exact : Prop) (actions : List Action) : Prop :=
  ∀ before action after, actions = before ++ action :: after → (run before).Fits exact action

theorem run_concat (actions : List Action) (action : Action) :
    run (actions ++ [action]) = (run actions).step action := by
  unfold run
  rw [foldl_append]
  rfl

theorem RunFits.take {reached : List Action} (h : RunFits exact actions) (hreached : reached <+: actions) :
    RunFits exact reached := by
  obtain ⟨rest, rfl⟩ := hreached
  intro before action after heq
  apply h before action (after ++ rest)
  rw [heq, append_assoc, cons_append]

theorem inv_run (h : RunFits exact actions) : Inv exact (run actions) := by
  induction actions using List.reverseRecOn with
  | nil => exact inv_empty
  | append_singleton actions action ih =>
    rw [run_concat]
    apply inv_step (ih (h.take (prefix_append _ _)))
    exact h actions action [] rfl

theorem released_run {before after : List Action}
    (h : RunFits exact (before ++ .release w :: after))
    (hbegins : ∀ action ∈ after, ¬ Action.Begins w action) :
    Released w (run (before ++ .release w :: after)) := by
  induction after using List.reverseRecOn with
  | nil =>
    rw [run_concat]
    exact released_release (inv_run (h.take (prefix_append _ _))) w
  | append_singleton after action ih =>
    have hsplit : before ++ .release w :: (after ++ [action]) =
        (before ++ .release w :: after) ++ [action] := by simp
    rw [hsplit] at h ⊢
    have hstart := h.take (prefix_append _ _)
    rw [run_concat]
    refine released_step (ih hstart fun other hother => ?_) (inv_run hstart)
      (h _ action [] rfl) ?_
    · exact hbegins other (mem_append_left _ hother)
    · exact hbegins action (mem_append_right _ (mem_singleton_self action))

/-! ## Ownership -/

/-- A refresh is between its reserve and its release of an old port. -/
def Replacing (s : PortRegistry) (w n : String) (p : ℤ) : Prop :=
  ∃ job ∈ s.jobs, job.Replaces w n p

/-- The two maps agree, but for the ports that a refresh is about to give back. -/
structure Owned (s : PortRegistry) : Prop where
  owner : ∀ w n p, s.dynamicPort w n = some p → s.owners p = some (toServiceOwner w n)
  port : ∀ w n p, NulFree w → s.owners p = some (toServiceOwner w n) →
    s.dynamicPort w n = some p ∨ s.Replacing w n p
  once : ∀ w n w' n' p, s.dynamicPort w n = some p → s.dynamicPort w' n' = some p →
    w = w' ∧ n = n'
  plans : ∀ w plan, s.plans w = some plan → DistinctPorts (s.heap plan)

/-- The two maps are inverse to each other. -/
def Inverse (s : PortRegistry) : Prop :=
  ∀ w n p, NulFree w → (s.owners p = some (toServiceOwner w n) ↔ s.dynamicPort w n = some p)

/-- No plan and no port is left of the workspace. -/
structure Free (s : PortRegistry) (w : String) : Prop where
  plan : s.plans w = none
  port : ∀ n, s.dynamicPort w n = none
  owner : ∀ n p, s.owners p ≠ some (toServiceOwner w n)

theorem Inv.owned (h : Inv exact s) : s.Owned where
  owner w n p hport := (h.owners.named w n p hport).2
  port w n p hname howner := by
    obtain ⟨w', n', hname', heq, hheld⟩ := h.owners.held p _ howner
    obtain ⟨rfl, rfl⟩ := toServiceOwner_inj hname hname' heq
    exact hheld.imp_right fun hreplaced => hreplaced.2
  once w n w' n' p hport hport' := by
    obtain ⟨hname, howner⟩ := h.owners.named w n p hport
    obtain ⟨hname', howner'⟩ := h.owners.named w' n' p hport'
    rw [howner] at howner'
    exact toServiceOwner_inj hname hname' (some.inj howner')
  plans w plan _ := h.plans.stored plan

theorem Inv.inverse (h : Inv True s) : s.Inverse := by
  intro w n p hname
  refine ⟨fun howner => ?_, fun hport => (h.owners.named w n p hport).2⟩
  obtain ⟨w', n', hname', heq, hport | ⟨hexact, -⟩⟩ := h.owners.held p _ howner
  · obtain ⟨rfl, rfl⟩ := toServiceOwner_inj hname hname' heq
    exact hport
  · exact absurd trivial hexact

theorem Released.free (h : Released w s) (hinv : Inv exact s) (hname : NulFree w)
    (hsettled : ∀ job ∈ s.jobs, job.workspaceId ≠ w) : s.Free w := by
  have hnone : ∀ n p, s.dynamicPort w n ≠ some p := by
    intro n p hport
    obtain ⟨job, hjob, hw, -⟩ := h.ports n p hport
    exact hsettled job hjob hw
  refine ⟨h.plans, fun n => eq_none_iff_forall_ne_some.mpr (hnone n), ?_⟩
  intro n p howner
  rcases hinv.owned.port w n p hname howner with hport | ⟨job, hjob, hreplaces⟩
  · exact hnone n p hport
  · exact hsettled job hjob hreplaces.1

/-- Over every run whose steps fit, each port has one owner, a stored plan has no port
twice and a released workspace is free once its calls have settled; the maps are inverse
to each other wherever no refresh is about to give a port back, and everywhere if no
reserve replaces a port. -/
theorem servicePorts_owned (actions : List Action) (hfits : RunFits False actions) :
    (∀ reached, reached <+: actions → (run reached).Owned ∧
        ((∀ w n p, ¬ (run reached).Replacing w n p) → (run reached).Inverse)) ∧
      (RunFits True actions → ∀ reached, reached <+: actions → (run reached).Inverse) ∧
      ∀ before w after, actions = before ++ .release w :: after →
        (∀ action ∈ after, ¬ Action.Begins w action) →
        (∀ job ∈ (run actions).jobs, job.workspaceId ≠ w) → (run actions).Free w := by
  refine ⟨?_, ?_, ?_⟩
  · intro reached hreached
    have howned := (inv_run (hfits.take hreached)).owned
    refine ⟨howned, fun hnone w n p hname => ⟨fun howner => ?_, howned.owner w n p⟩⟩
    exact (howned.port w n p hname howner).resolve_right (hnone w n p)
  · intro hexact reached hreached
    exact (inv_run (hexact.take hreached)).inverse
  · rintro before w after rfl hbegins hsettled
    have hname : NulFree w := hfits before (.release w) after rfl
    exact (released_run hfits hbegins).free (inv_run hfits) hname hsettled

/-! ## A refresh, and two that overlap -/

theorem RunFits.concat {action : Action} (h : RunFits exact actions)
    (hfits : (run actions).Fits exact action) : RunFits exact (actions ++ [action]) := by
  intro before action' after heq
  rcases eq_nil_or_concat after with rfl | ⟨front, last, rfl⟩
  · obtain ⟨rfl, hlast⟩ := append_inj' heq rfl
    rw [← (List.cons.inj hlast).1]
    exact hfits
  · have hsplit : before ++ action' :: (front.concat last) = (before ++ action' :: front) ++ [last] := by
      simp
    rw [hsplit] at heq
    exact h before action' front (append_inj' heq rfl).1

theorem nulFree_w : NulFree "w" := by
  unfold NulFree
  decide

theorem runFits_nil : RunFits exact [] := by
  intro before action after heq
  have := congrArg List.length heq
  simp at this

/-- An answer that reserves a first port. -/
theorem fits_allocated_of_none {id : ℕ} {port : ℤ} {job : Job} (hjobs : s.jobs = [job])
    (hnone : s.dynamicPort job.workspaceId job.scriptName = none) :
    s.Fits exact (.allocated id port) := by
  intro other hother _ reservedPorts attempt _ _ current hcurrent
  rw [hjobs] at hother
  rw [mem_singleton.mp hother, hnone] at hcurrent
  contradiction

theorem fits_proceed_of_build {id : ℕ} {job : Job} (hjobs : s.jobs = [job]) (hbuild : job.isBuild) :
    s.Fits exact (.proceed id) := by
  intro other hother _ plan oldDynamicPort outdated port hkind _
  rw [hjobs] at hother
  rw [mem_singleton.mp hother] at hkind
  obtain ⟨plan', ports, rest, hkind'⟩ := hbuild
  rw [hkind] at hkind'
  contradiction

def apiService : WorkspaceServicePortDeclaration := ⟨"api", some 3000⟩

def plannedRun : List Action :=
  [.ensure "w" [⟨"web", none⟩, apiService], .allocated 0 8080, .proceed 0, .proceed 0]

theorem runFits_plannedRun : RunFits False plannedRun := by
  have hensure : RunFits False [.ensure "w" [⟨"web", none⟩, apiService]] :=
    runFits_nil.concat nulFree_w
  have hallocated := hensure.concat (fits_allocated_of_none
    (show _ = [⟨0, "w", "web", .allocating [3000] 0, .build ∅ [3000] [apiService]⟩] by decide +kernel)
    (by decide +kernel) : Fits False _ (.allocated 0 8080))
  have hbuilt := hallocated.concat (fits_proceed_of_build
    (show _ = [⟨0, "w", "web", .resolved 8080, .build ∅ [3000] [apiService]⟩] by decide +kernel)
    ⟨_, _, _, rfl⟩ : Fits False _ (.proceed 0))
  exact hbuilt.concat (fits_proceed_of_build
    (show _ = [⟨0, "w", "", .built, .build ((∅ : Plan).set "web" 8080 |>.set "api" 3000) [3000] []⟩]
      by decide +kernel)
    ⟨_, _, _, rfl⟩ : Fits False _ (.proceed 0))

/-- A refresh of the dynamic port, and a release. -/
def refreshRun : List Action :=
  plannedRun ++ [.refresh "w" ⟨"web", none⟩] ++ [.allocated 1 8081] ++ [.proceed 1] ++ [.release "w"]

theorem fits_refreshed :
    (run (plannedRun ++ [.refresh "w" ⟨"web", none⟩])).Fits False (.allocated 1 8081) := by
  have hjobs : (run (plannedRun ++ [.refresh "w" ⟨"web", none⟩])).jobs =
      [⟨1, "w", "web", .allocating [3000] 0, .refresh 0 (some 8080) false⟩] := by decide +kernel
  have hport : (run (plannedRun ++ [.refresh "w" ⟨"web", none⟩])).dynamicPort "w" "web" =
      some 8080 := by decide +kernel
  intro job hjob _ reservedPorts attempt _ _ current hcurrent _
  rw [hjobs] at hjob
  rw [mem_singleton.mp hjob, hport] at hcurrent
  rw [mem_singleton.mp hjob, ← some.inj hcurrent]
  exact ⟨id, 0, false, rfl⟩

theorem fits_stored :
    (run (plannedRun ++ [.refresh "w" ⟨"web", none⟩] ++ [.allocated 1 8081])).Fits False
      (.proceed 1) := by
  have hjobs : (run (plannedRun ++ [.refresh "w" ⟨"web", none⟩] ++ [.allocated 1 8081])).jobs =
      [⟨1, "w", "web", .resolved 8081, .refresh 0 (some 8080) false⟩] := by decide +kernel
  have hplan : (run (plannedRun ++ [.refresh "w" ⟨"web", none⟩] ++ [.allocated 1 8081])).heap 0 =
      ((∅ : Plan).set "web" 8080).set "api" 3000 := by decide +kernel
  intro job hjob _ plan old outdated port hkind hstage
  rw [hjobs] at hjob
  rw [mem_singleton.mp hjob] at hkind hstage ⊢
  obtain ⟨rfl, -, rfl⟩ := JobKind.refresh.inj hkind
  obtain rfl := Stage.resolved.inj hstage
  refine ⟨rfl, fun n hn => ?_⟩
  rw [hplan, OrderedMap.get_set, OrderedMap.get_set, if_neg hn, OrderedMap.get_empty]
  by_cases hapi : n = "api"
  · rw [if_pos hapi]
    decide
  · rw [if_neg hapi]
    exact (some_ne_none _).symm

theorem runFits_refreshRun : RunFits False refreshRun := by
  have hrefresh : RunFits False (plannedRun ++ [.refresh "w" ⟨"web", none⟩]) :=
    runFits_plannedRun.concat nulFree_w
  exact ((hrefresh.concat fits_refreshed).concat fits_stored).concat nulFree_w

theorem servicePorts_owned_refreshed :
    (run refreshRun).Owned ∧ (run refreshRun).Free "w" := by
  have howned := servicePorts_owned refreshRun runFits_refreshRun
  refine ⟨(howned.1 refreshRun List.prefix_rfl).1, ?_⟩
  apply howned.2.2 (plannedRun ++ [.refresh "w" ⟨"web", none⟩] ++ [.allocated 1 8081] ++ [.proceed 1])
    "w" [] rfl
  · intro action haction
    exact absurd haction List.not_mem_nil
  · have hjobs : (run refreshRun).jobs = [] := by decide +kernel
    rw [hjobs]
    intro job hjob
    exact absurd hjob List.not_mem_nil

/-- Two refreshes of one service that overlap both remember the first port: the port
that the first of them reserves is owned for good, by nobody's map, even when the
workspace is released. -/
theorem overlappingRefreshes_leakPort :
    let actions : List Action :=
      plannedRun ++ [.refresh "w" ⟨"web", none⟩, .refresh "w" ⟨"web", none⟩, .allocated 1 8081,
        .proceed 1, .allocated 2 8082, .proceed 2]
    (run actions).jobs = [] ∧
      (run actions).owners 8081 = some (toServiceOwner "w" "web") ∧
      (run actions).dynamicPort "w" "web" = some 8082 ∧ ¬ (run actions).Inverse ∧
      ¬ ((run actions).release "w").Free "w" := by
  intro actions
  have howner : (run actions).owners 8081 = some (toServiceOwner "w" "web") := by decide +kernel
  have hport : (run actions).dynamicPort "w" "web" = some 8082 := by decide +kernel
  have hreleased : ((run actions).release "w").owners 8081 = some (toServiceOwner "w" "web") := by
    decide +kernel
  refine ⟨by decide +kernel, howner, hport, fun hinverse => ?_, fun hfree => ?_⟩
  · have := (hinverse "w" "web" 8081 nulFree_w).mp howner
    rw [hport] at this
    exact absurd this (by decide)
  · exact hfree.owner "web" 8081 hreleased

end Orqara.Services.PortRegistry
