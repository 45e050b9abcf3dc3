import Orqara.Services.PortOwners

/-!
# Calls in progress and the ports they hold

The calls that have not settled, and which service owns a port while a refresh is
about to give its old one back.
-/

namespace Orqara.Services

open PortRegistry List Option

def Job.isBuild (job : Job) : Prop :=
  ∃ plan explicitPorts rest, job.kind = .build plan explicitPorts rest

/-- A refresh that has reserved another port and is about to release this one. -/
def Job.Replaces (job : Job) (workspaceId scriptName : String) (port : ℤ) : Prop :=
  job.workspaceId = workspaceId ∧ job.scriptName = scriptName ∧
    (∃ plan outdated, job.kind = .refresh plan (some port) outdated) ∧
    ∃ newPort, job.stage = .resolved newPort ∧ newPort ≠ port

def setJobs (jobs : List Job) (job : Job) : List Job :=
  jobs.map fun other => if other.id = job.id then job else other

def dropJob (jobs : List Job) (id : ℕ) : List Job := jobs.filter fun job => job.id ≠ id

variable {jobs : List Job} {job other : Job} {id : ℕ}

theorem mem_setJobs (h : other ∈ setJobs jobs job) :
    (other ∈ jobs ∧ other.id ≠ job.id) ∨ other = job := by
  obtain ⟨old, hold, heq⟩ := List.mem_map.mp h
  by_cases hid : old.id = job.id
  · rw [if_pos hid] at heq
    exact Or.inr heq.symm
  · rw [if_neg hid] at heq
    rw [← heq]
    exact Or.inl ⟨hold, hid⟩

theorem mem_setJobs_of_ne (h : other ∈ jobs) (hid : other.id ≠ job.id) :
    other ∈ setJobs jobs job :=
  List.mem_map.mpr ⟨other, h, if_neg hid⟩

theorem mem_setJobs_self (h : other ∈ jobs) (hid : other.id = job.id) : job ∈ setJobs jobs job :=
  List.mem_map.mpr ⟨other, h, if_pos hid⟩

theorem mem_dropJob : other ∈ dropJob jobs id ↔ other ∈ jobs ∧ other.id ≠ id := by
  unfold dropJob
  rw [mem_filter, decide_eq_true_eq]

/-! ## The calls -/

/-- The calls have different ids, and a workspace has one pending plan at most. -/
structure JobsInv (jobs : List Job) (nextId : ℕ) (tokens : String → Option Bool) : Prop where
  ids : (jobs.map (·.id)).Nodup
  fresh : ∀ job ∈ jobs, job.id < nextId
  names : ∀ job ∈ jobs, NulFree job.workspaceId
  pending : ∀ job ∈ jobs, job.isBuild → tokens job.workspaceId ≠ none
  single : ∀ job ∈ jobs, ∀ other ∈ jobs, job.isBuild → other.isBuild →
    job.workspaceId = other.workspaceId → job.id = other.id

variable {nextId : ℕ} {tokens tokens' : String → Option Bool}

section

variable (h : JobsInv jobs nextId tokens)
include h

theorem JobsInv.eq_of_id (hjob : job ∈ jobs) (hother : other ∈ jobs) (hid : other.id = job.id) :
    other = job :=
  inj_on_of_nodup_map h.ids hother hjob hid

theorem JobsInv.withTokens (hkept : ∀ w, tokens w ≠ none → tokens' w ≠ none) :
    JobsInv jobs nextId tokens' :=
  ⟨h.ids, h.fresh, h.names, fun job hjob hbuild => hkept _ (h.pending job hjob hbuild), h.single⟩

theorem JobsInv.add (hid : job.id = nextId) (hname : NulFree job.workspaceId)
    (hkept : ∀ w, tokens w ≠ none → tokens' w ≠ none)
    (hbuild : job.isBuild → tokens job.workspaceId = none ∧ tokens' job.workspaceId ≠ none) :
    JobsInv (jobs ++ [job]) (nextId + 1) tokens' where
  ids := by
    rw [map_append, nodup_append]
    refine ⟨h.ids, nodup_singleton _, ?_⟩
    intro old hold new hnew heq
    obtain ⟨other, hother, rfl⟩ := List.mem_map.mp hold
    have hlt := h.fresh other hother
    have hnew' : new = job.id := mem_singleton.mp hnew
    omega
  fresh other hother := by
    rcases mem_append.mp hother with hold | hnew
    · have := h.fresh other hold
      omega
    · rw [mem_singleton.mp hnew]
      omega
  names other hother := by
    rcases mem_append.mp hother with hold | hnew
    · exact h.names other hold
    · rw [mem_singleton.mp hnew]
      exact hname
  pending other hother hisBuild := by
    rcases mem_append.mp hother with hold | hnew
    · exact hkept _ (h.pending other hold hisBuild)
    · rw [mem_singleton.mp hnew] at hisBuild ⊢
      exact (hbuild hisBuild).2
  single first hfirst second hsecond hbuild₁ hbuild₂ heq := by
    rcases mem_append.mp hfirst with hold₁ | hnew₁
    · rcases mem_append.mp hsecond with hold₂ | hnew₂
      · exact h.single first hold₁ second hold₂ hbuild₁ hbuild₂ heq
      · rw [mem_singleton.mp hnew₂] at hbuild₂ heq
        exact absurd (heq ▸ (hbuild hbuild₂).1) (h.pending first hold₁ hbuild₁)
    · rcases mem_append.mp hsecond with hold₂ | hnew₂
      · rw [mem_singleton.mp hnew₁] at hbuild₁ heq
        exact absurd (heq ▸ (hbuild hbuild₁).1) (h.pending second hold₂ hbuild₂)
      · rw [mem_singleton.mp hnew₁, mem_singleton.mp hnew₂]

/-- A call goes on in place. -/
theorem JobsInv.set (hother : other ∈ jobs) (hid : job.id = other.id)
    (hw : job.workspaceId = other.workspaceId) (hbuild : job.isBuild → other.isBuild) :
    JobsInv (setJobs jobs job) nextId tokens := by
  -- every call of the new list stands for one of the old list
  have hold : ∀ new ∈ setJobs jobs job, ∃ old ∈ jobs, new.id = old.id ∧
      new.workspaceId = old.workspaceId ∧ (new.isBuild → old.isBuild) := by
    intro new hnew
    rcases mem_setJobs hnew with ⟨hmem, -⟩ | rfl
    · exact ⟨new, hmem, rfl, rfl, fun hb => hb⟩
    · exact ⟨other, hother, hid, hw, hbuild⟩
  constructor
  · have hids : (setJobs jobs job).map (·.id) = jobs.map (·.id) := by
      unfold setJobs
      rw [List.map_map]
      apply map_congr_left
      intro old _
      show (if old.id = job.id then job else old).id = old.id
      by_cases hsame : old.id = job.id
      · rw [if_pos hsame, hsame]
      · rw [if_neg hsame]
    rw [hids]
    exact h.ids
  · intro new hnew
    obtain ⟨old, hmem, hid', -, -⟩ := hold new hnew
    rw [hid']
    exact h.fresh old hmem
  · intro new hnew
    obtain ⟨old, hmem, -, hw', -⟩ := hold new hnew
    rw [hw']
    exact h.names old hmem
  · intro new hnew hnewBuild
    obtain ⟨old, hmem, -, hw', hb⟩ := hold new hnew
    rw [hw']
    exact h.pending old hmem (hb hnewBuild)
  · intro first hfirst second hsecond hbuild₁ hbuild₂ heq
    obtain ⟨old₁, hmem₁, hid₁, hw₁, hb₁⟩ := hold first hfirst
    obtain ⟨old₂, hmem₂, hid₂, hw₂, hb₂⟩ := hold second hsecond
    rw [hid₁, hid₂]
    exact h.single old₁ hmem₁ old₂ hmem₂ (hb₁ hbuild₁) (hb₂ hbuild₂) (hw₁ ▸ hw₂ ▸ heq)

/-- A call settles; a plan that is no longer pending takes its token along. -/
theorem JobsInv.drop
    (hkept : ∀ other ∈ jobs, other.id ≠ id → other.isBuild → tokens' other.workspaceId ≠ none) :
    JobsInv (dropJob jobs id) nextId tokens' where
  ids := h.ids.sublist (List.filter_sublist.map _)
  fresh other hother := h.fresh other (mem_dropJob.mp hother).1
  names other hother := h.names other (mem_dropJob.mp hother).1
  pending other hother := hkept other (mem_dropJob.mp hother).1 (mem_dropJob.mp hother).2
  single first hfirst second hsecond :=
    h.single first (mem_dropJob.mp hfirst).1 second (mem_dropJob.mp hsecond).1

end

@[simp] theorem Job.outdate_id : job.outdate.id = job.id := by
  unfold Job.outdate
  cases job.kind <;> rfl

@[simp] theorem Job.outdate_workspaceId : job.outdate.workspaceId = job.workspaceId := by
  unfold Job.outdate
  cases job.kind <;> rfl

theorem Job.isBuild_outdate : job.outdate.isBuild ↔ job.isBuild := by
  unfold Job.outdate Job.isBuild
  cases hkind : job.kind with
  | build => simp [hkind]
  | refresh => simp

theorem Job.replaces_outdate {w n : String} {p : ℤ} :
    job.outdate.Replaces w n p ↔ job.Replaces w n p := by
  unfold Job.outdate Job.Replaces
  cases hkind : job.kind with
  | build => simp [hkind]
  | refresh => simp

/-- The refreshes of a workspace learn nothing of its release, but are outdated by it. -/
def outdateJobs (jobs : List Job) (workspaceId : String) : List Job :=
  jobs.map fun job => if job.workspaceId = workspaceId then job.outdate else job

theorem mem_outdateJobs {w : String} (h : other ∈ outdateJobs jobs w) :
    ∃ old ∈ jobs, other = if old.workspaceId = w then old.outdate else old := by
  obtain ⟨old, hold, heq⟩ := List.mem_map.mp h
  exact ⟨old, hold, heq.symm⟩

theorem JobsInv.outdate (h : JobsInv jobs nextId tokens) (w : String) :
    JobsInv (outdateJobs jobs w) nextId tokens := by
  have hold : ∀ new ∈ outdateJobs jobs w, ∃ old ∈ jobs, new.id = old.id ∧
      new.workspaceId = old.workspaceId ∧ (new.isBuild → old.isBuild) := by
    intro new hnew
    obtain ⟨old, hmem, rfl⟩ := mem_outdateJobs hnew
    refine ⟨old, hmem, ?_⟩
    by_cases hw : old.workspaceId = w
    · rw [if_pos hw]
      exact ⟨Job.outdate_id, Job.outdate_workspaceId, Job.isBuild_outdate.mp⟩
    · rw [if_neg hw]
      exact ⟨rfl, rfl, fun hb => hb⟩
  constructor
  · have hids : (outdateJobs jobs w).map (·.id) = jobs.map (·.id) := by
      unfold outdateJobs
      rw [List.map_map]
      apply map_congr_left
      intro old _
      show (if old.workspaceId = w then old.outdate else old).id = old.id
      by_cases hw : old.workspaceId = w
      · rw [if_pos hw, Job.outdate_id]
      · rw [if_neg hw]
    rw [hids]
    exact h.ids
  · intro new hnew
    obtain ⟨old, hmem, hid', -, -⟩ := hold new hnew
    rw [hid']
    exact h.fresh old hmem
  · intro new hnew
    obtain ⟨old, hmem, -, hw', -⟩ := hold new hnew
    rw [hw']
    exact h.names old hmem
  · intro new hnew hnewBuild
    obtain ⟨old, hmem, -, hw', hb⟩ := hold new hnew
    rw [hw']
    exact h.pending old hmem (hb hnewBuild)
  · intro first hfirst second hsecond hbuild₁ hbuild₂ heq
    obtain ⟨old₁, hmem₁, hid₁, hw₁, hb₁⟩ := hold first hfirst
    obtain ⟨old₂, hmem₂, hid₂, hw₂, hb₂⟩ := hold second hsecond
    rw [hid₁, hid₂]
    exact h.single old₁ hmem₁ old₂ hmem₂ (hb₁ hbuild₁) (hb₂ hbuild₂) (hw₁ ▸ hw₂ ▸ heq)

/-! ## Owners -/

/-- A port of a workspace has its owner, and an owner has its port, unless a refresh is
about to give it back; `exact` says that none is. -/
structure OwnersInv (exact : Prop) (s : PortRegistry) (jobs : List Job) : Prop where
  named : ∀ w n p, s.dynamicPort w n = some p →
    NulFree w ∧ s.owners p = some (toServiceOwner w n)
  held : ∀ p o, s.owners p = some o → ∃ w n, NulFree w ∧ o = toServiceOwner w n ∧
    (s.dynamicPort w n = some p ∨ ¬ exact ∧ ∃ job ∈ jobs, job.Replaces w n p)

variable {exact : Prop} {s : PortRegistry} {w n : String} {p : ℤ}

section

variable (h : OwnersInv exact s jobs)
include h

/-- Owners and ports are all that matters of a registry here. -/
theorem OwnersInv.frame {s' : PortRegistry} {jobs' : List Job} (howners : s'.owners = s.owners)
    (hports : s'.dynamicPorts = s.dynamicPorts)
    (hjobs : ∀ w n p, (∃ job ∈ jobs, job.Replaces w n p) → ∃ job ∈ jobs', job.Replaces w n p) :
    OwnersInv exact s' jobs' := by
  have hport : s'.dynamicPort = s.dynamicPort := by
    funext w n
    unfold dynamicPort
    rw [hports]
  constructor
  · intro w n p hp
    rw [hport] at hp
    rw [howners]
    exact h.named w n p hp
  · intro p o howner
    rw [howners] at howner
    rw [hport]
    obtain ⟨w, n, hname, heq, hheld⟩ := h.held p o howner
    exact ⟨w, n, hname, heq, hheld.imp_right (And.imp_right (hjobs w n p))⟩

/-- Reserving a port, when the service had none, or the same one, or one that the
reserving refresh gives back. -/
theorem OwnersInv.reserve (hids : JobsInv jobs nextId tokens) (hjob : job ∈ jobs) {reservedPorts : List ℤ}
    {attempt : ℕ} (hstage : job.stage = .allocating reservedPorts attempt)
    (hfree : ∀ owner, s.owners p = some owner → owner = toServiceOwner job.workspaceId job.scriptName)
    (hfits : ∀ p', s.dynamicPort job.workspaceId job.scriptName = some p' → p' ≠ p →
      ¬ exact ∧ ∃ plan outdated, job.kind = .refresh plan (some p') outdated) :
    OwnersInv exact (s.reserveDynamicPort job.workspaceId job.scriptName p)
      (setJobs jobs { job with stage := .resolved p }) where
  named w' n' p' hport := by
    rw [dynamicPort_reserve] at hport
    rw [owners_reserve]
    by_cases hsame : w' = job.workspaceId ∧ n' = job.scriptName
    · rw [if_pos hsame] at hport
      rw [if_pos (some.inj hport).symm, hsame.1, hsame.2]
      exact ⟨hids.names job hjob, rfl⟩
    · rw [if_neg hsame] at hport
      obtain ⟨hname, howner⟩ := h.named w' n' p' hport
      by_cases hp : p' = p
      · have hinj := toServiceOwner_inj hname (hids.names job hjob) (hfree _ (hp ▸ howner))
        exact absurd hinj hsame
      · rw [if_neg hp]
        exact ⟨hname, howner⟩
  held p' o howner := by
    rw [owners_reserve] at howner
    by_cases hp : p' = p
    · rw [if_pos hp] at howner
      refine ⟨job.workspaceId, job.scriptName, hids.names job hjob, (some.inj howner).symm, ?_⟩
      left
      rw [dynamicPort_reserve, if_pos ⟨rfl, rfl⟩, hp]
    · rw [if_neg hp] at howner
      obtain ⟨w, n, hname, heq, hport | ⟨hexact, replacing, hmem, hreplaces⟩⟩ := h.held p' o howner
      · refine ⟨w, n, hname, heq, ?_⟩
        rw [dynamicPort_reserve]
        by_cases hsame : w = job.workspaceId ∧ n = job.scriptName
        · obtain ⟨rfl, rfl⟩ := hsame
          obtain ⟨hexact, plan, outdated, hkind⟩ := hfits p' hport hp
          refine Or.inr ⟨hexact, { job with stage := .resolved p }, ?_, rfl, rfl,
            ⟨plan, outdated, hkind⟩, p, rfl, Ne.symm hp⟩
          exact mem_setJobs_self hjob rfl
        · rw [if_neg hsame]
          exact Or.inl hport
      · -- the refresh that gives a port back is not the one that waits for an answer
        refine ⟨w, n, hname, heq, Or.inr ⟨hexact, replacing, ?_, hreplaces⟩⟩
        apply mem_setJobs_of_ne hmem
        intro hid
        obtain ⟨-, -, -, newPort, hresolved, -⟩ := hreplaces
        rw [hids.eq_of_id hjob hmem hid, hstage] at hresolved
        contradiction

/-- A refresh gives its old port back and settles. -/
theorem OwnersInv.giveBack (hids : JobsInv jobs nextId tokens) (hjob : job ∈ jobs)
    (hold : ∀ w n p', job.Replaces w n p' → p' = p) :
    OwnersInv exact (s.releaseDynamicPort job.workspaceId job.scriptName p) (dropJob jobs job.id) where
  named w' n' p' hport := by
    rw [dynamicPort_releaseDynamicPort] at hport
    by_cases hgone : w' = job.workspaceId ∧ n' = job.scriptName ∧
        s.dynamicPort job.workspaceId job.scriptName = some p
    · rw [if_pos hgone] at hport
      contradiction
    · rw [if_neg hgone] at hport
      obtain ⟨hname, howner⟩ := h.named w' n' p' hport
      refine ⟨hname, ?_⟩
      rw [owners_releaseDynamicPort, if_neg]
      · exact howner
      · rintro ⟨rfl, hown⟩
        rw [howner] at hown
        obtain ⟨rfl, rfl⟩ := toServiceOwner_inj hname (hids.names job hjob) (some.inj hown)
        exact hgone ⟨rfl, rfl, hport⟩
  held p' o howner := by
    rw [owners_releaseDynamicPort] at howner
    by_cases hgone : p' = p ∧ s.owners p = some (toServiceOwner job.workspaceId job.scriptName)
    · rw [if_pos hgone] at howner
      contradiction
    · rw [if_neg hgone] at howner
      obtain ⟨w, n, hname, heq, hport | ⟨hexact, replacing, hmem, hreplaces⟩⟩ := h.held p' o howner
      · refine ⟨w, n, hname, heq, Or.inl ?_⟩
        rw [dynamicPort_releaseDynamicPort, if_neg]
        · exact hport
        · rintro ⟨rfl, rfl, hown⟩
          rw [hport] at hown
          obtain rfl := some.inj hown
          exact hgone ⟨rfl, (h.named _ _ _ hport).2⟩
      · refine ⟨w, n, hname, heq, Or.inr ⟨hexact, replacing, mem_dropJob.mpr ⟨hmem, ?_⟩, hreplaces⟩⟩
        intro hid
        rw [hids.eq_of_id hjob hmem hid] at hreplaces
        have hp := hold w n p' hreplaces
        obtain ⟨rfl, rfl, -⟩ := hreplaces
        exact hgone ⟨hp, hp ▸ heq ▸ howner⟩

theorem OwnersInv.releaseWorkspace (w : String) :
    OwnersInv exact (s.releaseWorkspaceServicePortPlan w) jobs where
  named w' n' p' hport := by
    rw [dynamicPort_releaseWorkspace] at hport
    by_cases hw : w' = w
    · rw [if_pos hw] at hport
      contradiction
    · rw [if_neg hw] at hport
      obtain ⟨hname, howner⟩ := h.named w' n' p' hport
      refine ⟨hname, owners_releaseWorkspace.mpr ⟨howner, ?_⟩⟩
      intro n hn heq
      obtain ⟨hname', howner'⟩ := h.named w n p' hn
      exact hw (toServiceOwner_inj hname hname' heq).1
  held p' o howner := by
    obtain ⟨howner, hkept⟩ := owners_releaseWorkspace.mp howner
    obtain ⟨w', n, hname, heq, hport | hreplaced⟩ := h.held p' o howner
    · refine ⟨w', n, hname, heq, Or.inl ?_⟩
      rw [dynamicPort_releaseWorkspace, if_neg]
      · exact hport
      · rintro rfl
        exact hkept n hport heq
    · exact ⟨w', n, hname, heq, Or.inr hreplaced⟩

end

end Orqara.Services
