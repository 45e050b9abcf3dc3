import Orqara.Schedule.ServiceEffects

/-!
# Runs in progress

A schedule has at most one run at a time, and is in the set of running schedules during it.
-/

namespace Orqara.Schedule.ScheduleService

open List

variable {γ : Type} {calendar : Calendar} {s s' : ScheduleService γ} {event : ServiceEvent γ}
  {run : ActiveRun}

structure RunsInv (s : ScheduleService γ) : Prop where
  ids : (s.runs.map ActiveRun.id).Nodup
  fresh : ∀ run ∈ s.runs, run.id < s.nextId
  schedules : (s.runs.map ActiveRun.scheduleId).Nodup
  held : ∀ run ∈ s.runs, run.scheduleId ∈ s.runningScheduleIds
  due : ∀ run ∈ s.runs, run.manual = false → run.scheduledFor ≤ s.clock

theorem runsInv_idle (schedules : OrderedMap String (StoredSchedule γ)) (clock nextId : ℕ) :
    RunsInv (idle schedules clock nextId) :=
  ⟨nodup_nil, nofun, nodup_nil, nofun, nofun⟩

/-! ## Changes of one run -/

theorem mem_setRun {runId : ℕ} {stage : RunStage} (h : run ∈ (s.setRun runId stage).runs) :
    ∃ other ∈ s.runs, run = if other.id = runId then { other with stage } else other := by
  obtain ⟨other, hother, heq⟩ := List.mem_map.mp h
  exact ⟨other, hother, heq.symm⟩

/-- A run keeps everything but its stage. -/
theorem map_setRun {α : Type} (f : ActiveRun → α) (runId : ℕ) (stage : RunStage)
    (hf : ∀ run, f { run with stage } = f run) :
    (s.setRun runId stage).runs.map f = s.runs.map f := by
  unfold setRun
  rw [List.map_map]
  apply map_congr_left
  intro run _
  show f (if run.id = runId then { run with stage } else run) = f run
  by_cases hid : run.id = runId
  · rw [if_pos hid]
    exact hf run
  · rw [if_neg hid]

theorem mem_of_mem_setRun {runId : ℕ} {stage : RunStage} (h : run ∈ (s.setRun runId stage).runs) :
    ∃ other ∈ s.runs, other.id = run.id ∧ other.scheduleId = run.scheduleId ∧
      other.manual = run.manual ∧ other.scheduledFor = run.scheduledFor := by
  obtain ⟨other, hother, rfl⟩ := mem_setRun h
  refine ⟨other, hother, ?_⟩
  by_cases hid : other.id = runId
  · rw [if_pos hid]
    exact ⟨rfl, rfl, rfl, rfl⟩
  · rw [if_neg hid]
    exact ⟨rfl, rfl, rfl, rfl⟩

namespace RunsInv

section

variable (h : RunsInv s)
include h

/-- A run is known by its schedule. -/
theorem eq_of_scheduleId {other : ActiveRun} (hrun : run ∈ s.runs) (hother : other ∈ s.runs)
    (hschedule : other.scheduleId = run.scheduleId) : other = run :=
  inj_on_of_nodup_map h.schedules hother hrun hschedule

theorem eq_of_id {other : ActiveRun} (hrun : run ∈ s.runs) (hother : other ∈ s.runs)
    (hid : other.id = run.id) : other = run :=
  inj_on_of_nodup_map h.ids hother hrun hid

/-- Store, ticks and calls do not matter, and the clock goes on. -/
theorem of_runs (hruns : s'.runs = s.runs) (hheld : s'.runningScheduleIds = s.runningScheduleIds)
    (hclock : s.clock ≤ s'.clock) (hnextId : s.nextId ≤ s'.nextId) : RunsInv s' where
  ids := by
    rw [hruns]
    exact h.ids
  fresh := by
    rw [hruns]
    exact fun run hrun => (h.fresh run hrun).trans_le hnextId
  schedules := by
    rw [hruns]
    exact h.schedules
  held := by
    rw [hruns, hheld]
    exact h.held
  due := by
    rw [hruns]
    exact fun run hrun hmanual => (h.due run hrun hmanual).trans hclock

theorem setRun (runId : ℕ) (stage : RunStage) : RunsInv (s.setRun runId stage) where
  ids := by
    rw [map_setRun ActiveRun.id runId stage fun _ => rfl]
    exact h.ids
  fresh := fun run hrun => by
    obtain ⟨other, hother, hid, -, -, -⟩ := mem_of_mem_setRun hrun
    rw [← hid]
    exact h.fresh other hother
  schedules := by
    rw [map_setRun ActiveRun.scheduleId runId stage fun _ => rfl]
    exact h.schedules
  held := fun run hrun => by
    obtain ⟨other, hother, -, hschedule, -, -⟩ := mem_of_mem_setRun hrun
    rw [← hschedule]
    exact h.held other hother
  due := fun run hrun hmanual => by
    obtain ⟨other, hother, -, -, hsame, hfor⟩ := mem_of_mem_setRun hrun
    rw [← hfor]
    exact h.due other hother (hsame.trans hmanual)

theorem filterRuns (runId : ℕ) :
    RunsInv { s with runs := s.runs.filter fun run => run.id ≠ runId } where
  ids := h.ids.sublist (List.filter_sublist.map _)
  fresh := fun run hrun => h.fresh run (List.mem_filter.mp hrun).1
  schedules := h.schedules.sublist (List.filter_sublist.map _)
  held := fun run hrun => h.held run (List.mem_filter.mp hrun).1
  due := fun run hrun => h.due run (List.mem_filter.mp hrun).1

/-- The runs that are left are of other schedules. -/
theorem release (hrun : run ∈ s.runs) :
    RunsInv
      { s with
        runningScheduleIds := s.runningScheduleIds.filter (· ≠ run.scheduleId)
        runs := s.runs.filter fun other => other.id ≠ run.id } where
  ids := (h.filterRuns run.id).ids
  fresh := (h.filterRuns run.id).fresh
  schedules := (h.filterRuns run.id).schedules
  held := fun other hother => by
    have hmem := List.mem_filter.mp hother
    have hne : other.scheduleId ≠ run.scheduleId := by
      intro hschedule
      rw [h.eq_of_scheduleId hrun hmem.1 hschedule] at hmem
      simp at hmem
    exact mem_filter.mpr ⟨h.held other hmem.1, decide_eq_true hne⟩
  due := (h.filterRuns run.id).due

theorem startRun {scheduleId : String} {manual : Bool} {scheduledFor startedAt : ℕ}
    (hfree : scheduleId ∉ s.runningScheduleIds) (hdue : manual = false → scheduledFor ≤ s.clock) :
    RunsInv (s.startRun scheduleId manual scheduledFor startedAt) where
  ids := by
    simp only [ScheduleService.startRun, map_append, map_cons, map_nil]
    apply nodup_append.mpr ⟨h.ids, nodup_singleton _, ?_⟩
    intro id hid id' hid' heq
    obtain ⟨run, hrun, rfl⟩ := List.mem_map.mp hid
    have hlt := h.fresh run hrun
    rw [heq, mem_singleton.mp hid'] at hlt
    exact lt_irrefl _ hlt
  fresh := fun run hrun => by
    rcases mem_append.mp hrun with hold | hnew
    · exact (h.fresh run hold).trans (Nat.lt_succ_self _)
    · rw [mem_singleton.mp hnew]
      exact Nat.lt_succ_self _
  schedules := by
    simp only [ScheduleService.startRun, map_append, map_cons, map_nil]
    apply nodup_append.mpr ⟨h.schedules, nodup_singleton _, ?_⟩
    intro id hid id' hid' heq
    obtain ⟨run, hrun, rfl⟩ := List.mem_map.mp hid
    rw [mem_singleton.mp hid'] at heq
    rw [← heq] at hfree
    exact hfree (h.held run hrun)
  held := fun run hrun => by
    rcases mem_append.mp hrun with hold | hnew
    · exact mem_insert_of_mem (h.held run hold)
    · rw [mem_singleton.mp hnew]
      exact mem_insert_self
  due := fun run hrun hmanual => by
    rcases mem_append.mp hrun with hold | hnew
    · exact h.due run hold hmanual
    · rw [mem_singleton.mp hnew] at hmanual ⊢
      exact hdue hmanual

theorem effect (heffect : Effect calendar s event s') : RunsInv s' := by
  cases heffect with
  | quiet ticks calls clock nextId hticks hclock hnextId => exact h.of_runs rfl rfl hclock hnextId
  | edited ticks hticks hget hedit => exact h.of_runs rfl rfl (le_refl _) (le_refl _)
  | deleted id => exact h.of_runs rfl rfl (le_refl _) (le_refl _)
  | started ticks calls hticks hfree hstarted hdue =>
    have hs : RunsInv { s with ticks, calls } := h.of_runs rfl rfl (le_refl _) (le_refl _)
    exact hs.startRun hfree fun hmanual => (hdue hmanual).trans hstarted
  | @appended run written current hevent hfound hstage hget =>
    exact (h.setRun run.id .executing).of_runs rfl rfl (le_refl _) (le_refl _)
  | @appendRejected ticks run written hticks hevent hfound hstage hfails =>
    exact (h.filterRuns run.id).of_runs rfl rfl (le_refl _) (le_refl _)
  | @staged run stage hfound hstage hnew => exact h.setRun run.id stage
  | finished ticks hticks hfound hstage hget hfinish =>
    exact (h.release (findRun_eq_some hfound).1).of_runs rfl rfl (le_refl _) (le_refl _)
  | finishRejected ticks hticks hevent hfound hstage hfails =>
    exact (h.release (findRun_eq_some hfound).1).of_runs rfl rfl (le_refl _) (le_refl _)

end

end RunsInv

end Orqara.Schedule.ScheduleService
