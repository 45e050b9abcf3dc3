import Orqara.Schedule.ScheduleDaemon

/-!
# States of schedules

A stored schedule has a next run if and only if it is active, and is never taken up again once it
is completed. Outside of its runs a schedule is not in the set of running schedules and none of its
records is running, provided that the first update of every run is made and the last one does not
fail: the first stands before the `try` that clears the set, and nothing is left to record a
failure when the second attempt at the last one throws.
-/

namespace Orqara.Schedule

open OrderedMap List Option

variable {γ : Type} {calendar : Calendar} {result : RunnerResult}

/-! ## Changes of a record -/

/-- What every change keeps of a record. -/
structure Kept (current next : StoredSchedule γ) : Prop where
  consistent : Consistent current → Consistent next
  completed : current.status = .completed → next.status = .completed

variable {current next : StoredSchedule γ} {now : ℕ} {id : String}

section

variable (schedule : StoredSchedule γ) {runId : ℕ} {manual : Bool}

theorem kept_refl : Kept schedule schedule := ⟨fun h => h, fun h => h⟩

theorem kept_completeSchedule (now : ℕ) :
    Kept schedule (completeSchedule schedule now) :=
  ⟨fun _ => consistent_completeSchedule schedule now, fun _ => rfl⟩

theorem kept_of_same (hstatus : next.status = current.status)
    (hnext : next.nextRunAt = current.nextRunAt) : Kept current next := by
  constructor
  · intro h
    rw [Consistent, hnext, hstatus]
    exact h
  · exact fun h => hstatus.trans h

theorem Kept.trans {first second third : StoredSchedule γ} (h : Kept first second)
    (h' : Kept second third) : Kept first third :=
  ⟨fun hc => h'.consistent (h.consistent hc), fun hc => h'.completed (h.completed hc)⟩

theorem kept_finishRun (h : finishRun calendar runId result manual now current = .ok (some next)) :
    Kept current next := by
  have hrecorded : Kept current (recordOutcome runId result now current) := kept_of_same rfl rfl
  unfold finishRun at h
  simp only at h
  split_ifs at h with hgone hcompleted hmanual hcomplete hpaused
  · rw [← some.inj (Except.ok.inj h)]
    exact hrecorded.trans (kept_completeSchedule _ now)
  · rw [← some.inj (Except.ok.inj h)]
    exact hrecorded
  · rw [← some.inj (Except.ok.inj h)]
    exact hrecorded
  · rw [← some.inj (Except.ok.inj h)]
    exact hrecorded.trans (kept_completeSchedule _ now)
  · rw [← some.inj (Except.ok.inj h)]
    constructor
    · intro _
      simp [Consistent, hpaused]
    · exact fun hc => absurd hc hcompleted
  · obtain ⟨n, -, hnext⟩ := map_eq_ok.mp h
    rw [← some.inj hnext]
    constructor
    · intro _
      cases hstatus : current.status with
      | active => simp [Consistent, hstatus]
      | paused => exact absurd hstatus hpaused
      | completed => exact absurd hstatus hcompleted
    · exact fun hc => absurd hc hcompleted

theorem kept_recoverInterruptedSchedule
    (h : recoverInterruptedSchedule calendar now current = .ok (some next)) :
    Kept current next := by
  unfold recoverInterruptedSchedule at h
  simp only at h
  split at h
  · next nextRunAt hdue =>
    obtain ⟨-, hactive⟩ := filter_eq_some_iff.mp hdue
    obtain ⟨n, -, hnext⟩ := map_eq_ok.mp h
    rw [← some.inj hnext]
    have hstatus : current.status = .active := (of_decide_eq_true hactive).1
    constructor
    · intro _
      simp [Consistent, hstatus]
    · exact fun hc => hc
  · split at h
    · rw [← some.inj (Except.ok.inj h)]
      exact kept_of_same rfl rfl
    · cases h

theorem kept_sweepOrphanedSchedule {agentGone : String → Bool}
    (h : sweepOrphanedSchedule agentGone now current = .ok (some next)) : Kept current next := by
  unfold sweepOrphanedSchedule at h
  split at h
  · split at h
    · cases h
    · rw [← some.inj (Except.ok.inj h)]
      exact kept_completeSchedule current now
  · cases h

theorem consistent_buildScheduleRecord {input : CreateScheduleInput γ}
    (h : buildScheduleRecord calendar input id now = .ok next) : Consistent next := by
  obtain ⟨prompt, -, h⟩ := bind_eq_ok.mp h
  split at h
  · obtain ⟨nextRunAt, -, h⟩ := bind_eq_ok.mp h
    obtain ⟨maxRuns, -, rfl⟩ := map_eq_ok.mp h
    simp [Consistent]
  · cases h

/-! ## Running records -/

/-- The runs of a record that are running. -/
def unfinished (schedule : StoredSchedule γ) : List (ℕ × RunStatus) :=
  (statuses schedule).filter fun entry => entry.2 = .running

theorem unfinished_eq_nil_iff {schedule : StoredSchedule γ} :
    unfinished schedule = [] ↔ ∀ run ∈ schedule.runs, run.status ≠ .running := by
  unfold unfinished statuses
  rw [filter_eq_nil_iff, List.forall_mem_map]
  simp

theorem unfinished_of_statuses (h : statuses next = statuses current) :
    unfinished next = unfinished current := by
  rw [unfinished, unfinished, h]

theorem unfinished_appendRunningRun (run : ActiveRun) (updatedAt : ℕ) :
    unfinished { schedule with
      updatedAt, runs := schedule.runs ++ [ScheduleService.runningRecord run] } =
      unfinished schedule ++ [(run.id, .running)] := by
  simp only [unfinished, statuses, map_append, filter_append]
  rfl

theorem finished_status {run : ScheduleRun} :
    (run.finished result now).status ≠ .running := by
  cases result with
  | returned agentId output => exact nofun
  | threw error targetGone => exact nofun

theorem finishRun_runs (h : finishRun calendar runId result manual now current = .ok (some next)) :
    next.runs = (recordOutcome runId result now current).runs := by
  unfold finishRun at h
  simp only at h
  split_ifs at h
  all_goals first
    | rw [← some.inj (Except.ok.inj h)]; rfl
    | obtain ⟨n, -, hnext⟩ := map_eq_ok.mp h
      rw [← some.inj hnext]
      rfl

/-- A run that is finished is not running, and the others are as before. -/
theorem unfinished_finishRun (h : finishRun calendar runId result manual now current = .ok (some next))
    (honly : ∀ entry ∈ unfinished current, entry.1 = runId) : unfinished next = [] := by
  rw [unfinished_eq_nil_iff, finishRun_runs h]
  intro run hrun
  obtain ⟨other, hother, rfl⟩ := List.mem_map.mp hrun
  by_cases hid : other.id = runId
  · rw [if_pos hid]
    exact finished_status
  · rw [if_neg hid]
    intro hrunning
    apply hid
    apply honly (other.id, other.status)
    exact mem_filter.mpr ⟨List.mem_map.mpr ⟨other, hother, rfl⟩, decide_eq_true hrunning⟩

theorem running_failFirstRunning (failedAt : ℕ) {runs : List ScheduleRun}
    (h : (runs.filter fun run => run.status = .running).length ≤ 1) :
    ∀ run ∈ failFirstRunning failedAt runs, run.status ≠ .running := by
  induction runs with
  | nil => exact nofun
  | cons run runs ih =>
    intro other hother
    by_cases hrunning : run.status = .running
    · rw [failFirstRunning, if_pos hrunning] at hother
      rw [filter_cons_of_pos (by simpa using hrunning), length_cons] at h
      have hnone := length_eq_zero_iff.mp (Nat.le_zero.mp (Nat.le_of_succ_le_succ h))
      rcases mem_cons.mp hother with rfl | hrest
      · exact nofun
      · intro hother
        exact filter_eq_nil_iff.mp hnone other hrest (decide_eq_true hother)
    · rw [failFirstRunning, if_neg hrunning] at hother
      rw [filter_cons_of_neg (by simpa using hrunning)] at h
      rcases mem_cons.mp hother with rfl | hrest
      · exact hrunning
      · exact ih h other hrest

theorem length_unfinished :
    (unfinished schedule).length =
      (schedule.runs.filter fun run => run.status = .running).length := by
  unfold unfinished statuses
  rw [List.filter_map, length_map]
  rfl

end

/-- Recovery leaves no run running where there was one at most. -/
theorem unfinished_recoverInterruptedSchedule (hone : (unfinished current).length ≤ 1) :
    (recoverInterruptedSchedule calendar now current = .ok none → unfinished current = []) ∧
      ∀ next, recoverInterruptedSchedule calendar now current = .ok (some next) →
        unfinished next = [] := by
  rw [length_unfinished] at hone
  have hfailed := running_failFirstRunning now hone
  unfold recoverInterruptedSchedule
  simp only
  split
  · constructor
    · intro h
      obtain ⟨n, -, hnext⟩ := map_eq_ok.mp h
      cases hnext
    · intro next h
      obtain ⟨n, -, hnext⟩ := map_eq_ok.mp h
      rw [← some.inj hnext]
      exact unfinished_eq_nil_iff.mpr hfailed
  · split
    · constructor
      · intro h
        cases h
      · intro next h
        rw [← some.inj (Except.ok.inj h)]
        exact unfinished_eq_nil_iff.mpr hfailed
    · next hnone =>
      constructor
      · intro _
        apply unfinished_eq_nil_iff.mpr
        intro run hrun hrunning
        exact hnone (List.any_eq_true.mpr ⟨run, hrun, decide_eq_true hrunning⟩)
      · intro next h
        cases h

theorem unfinished_sweepOrphanedSchedule {agentGone : String → Bool}
    (h : sweepOrphanedSchedule agentGone now current = .ok (some next)) :
    unfinished next = unfinished current := by
  unfold sweepOrphanedSchedule at h
  split at h
  · split at h
    · cases h
    · rw [← some.inj (Except.ok.inj h)]
      rfl
  · cases h

/-! ## Updates of the store -/

/-- Every record that is stored comes from one that was, by changes that keep its state. -/
def StoreKept (before after : OrderedMap String (StoredSchedule γ)) : Prop :=
  ∀ id next, after.get id = some next → ∃ current, before.get id = some current ∧ Kept current next

section StoreKept

variable {before middle after : OrderedMap String (StoredSchedule γ)}

theorem storeKept_refl (schedules : OrderedMap String (StoredSchedule γ)) :
    StoreKept schedules schedules :=
  fun _ next hnext => ⟨next, hnext, kept_refl next⟩

theorem StoreKept.trans (h : StoreKept before middle) (h' : StoreKept middle after) :
    StoreKept before after := by
  intro id next hnext
  obtain ⟨current, hcurrent, hkept⟩ := h' id next hnext
  obtain ⟨first, hfirst, hkept'⟩ := h id current hcurrent
  exact ⟨first, hfirst, hkept'.trans hkept⟩

theorem storeKept_set (hget : before.get id = some current) (hkept : Kept current next) :
    StoreKept before (before.set id next) := by
  intro other stored hstored
  by_cases hid : other = id
  · rw [hid, get_set_self] at hstored
    rw [hid, ← some.inj hstored]
    exact ⟨current, hget, hkept⟩
  · rw [get_set_ne hid] at hstored
    exact ⟨stored, hstored, kept_refl stored⟩

theorem storeKept_delete : StoreKept before (before.delete id) := by
  intro other stored hstored
  by_cases hid : other = id
  · rw [hid, get_delete_self] at hstored
    cases hstored
  · rw [get_delete_ne hid] at hstored
    exact ⟨stored, hstored, kept_refl stored⟩

end StoreKept

variable {schedules : OrderedMap String (StoredSchedule γ)} {updater : Updater γ}
  {written : String → Bool} {ids : List String}

theorem get_storeUpdate_ne {schedules' : OrderedMap String (StoredSchedule γ)} {other : String}
    {write : Bool} (h : storeUpdate schedules id write updater = .updated schedules')
    (hne : other ≠ id) : schedules'.get other = schedules.get other := by
  rcases storeUpdate_eq_updated h with ⟨hsame, -⟩ | ⟨current, next, -, -, hset⟩
  · rw [hsame]
  · rw [hset, get_set_ne hne]

theorem get_updateEach_of_not_mem (updater : Updater γ) (written : String → Bool)
    (schedules : OrderedMap String (StoredSchedule γ)) (h : id ∉ ids) :
    (updateEach updater written ids schedules).1.get id = schedules.get id := by
  induction ids generalizing schedules with
  | nil => rfl
  | cons first ids ih =>
    have hne : id ≠ first := fun heq => h (heq ▸ mem_cons_self)
    have hrest : id ∉ ids := fun hmem => h (mem_cons_of_mem first hmem)
    rw [updateEach]
    split
    · exact ih schedules hrest
    · exact ih schedules hrest
    · next schedules' hupdate =>
      rw [ih schedules' hrest]
      exact get_storeUpdate_ne hupdate hne

/-- What the updates leave of a schedule: what it was, or what the updater makes of it. Where
nothing has thrown, it is what it was only where the updater leaves it. -/
theorem get_updateEach (hnodup : ids.Nodup)
    (h : (updateEach updater written ids schedules).1.get id = some next) :
    ∃ current, schedules.get id = some current ∧
      (updater current = .ok (some next) ∨ next = current ∧
        (id ∈ ids → (updateEach updater written ids schedules).2 = true →
          updater current = .ok none)) := by
  induction ids generalizing schedules with
  | nil => exact ⟨next, h, .inr ⟨rfl, fun hmem => absurd hmem not_mem_nil⟩⟩
  | cons first ids ih =>
    obtain ⟨hfirst, hrest⟩ := nodup_cons.mp hnodup
    rw [updateEach] at h ⊢
    by_cases hid : id = first
    · subst hid
      have hunchanged := fun schedules =>
        get_updateEach_of_not_mem updater written schedules hfirst
      split at h
      · next hmissing =>
        rw [hunchanged] at h
        unfold storeUpdate at hmissing
        rw [h] at hmissing
        simp only at hmissing
        split at hmissing
        · cases hmissing
        · cases hmissing
        · split at hmissing
          · cases hmissing
          · cases hmissing
      · rw [hunchanged] at h
        exact ⟨next, h, .inr ⟨rfl, fun _ hthrown => absurd hthrown Bool.false_ne_true⟩⟩
      · next schedules' hupdate =>
        rw [hunchanged] at h
        rcases storeUpdate_eq_updated hupdate with
          ⟨hsame, current, hget, hnone⟩ | ⟨current, made, hget, hmade, hset⟩
        · rw [hsame, hget] at h
          rw [← some.inj h]
          exact ⟨current, hget, .inr ⟨rfl, fun _ _ => hnone⟩⟩
        · rw [hset, get_set_self] at h
          rw [← some.inj h]
          exact ⟨current, hget, .inl hmade⟩
    · have hmem : id ∈ first :: ids → id ∈ ids := by
        intro hmem
        exact (mem_cons.mp hmem).resolve_left hid
      split at h
      · obtain ⟨current, hget, hmade | ⟨hsame, hnone⟩⟩ := ih hrest h
        · exact ⟨current, hget, .inl hmade⟩
        · exact ⟨current, hget, .inr ⟨hsame, fun hid => hnone (hmem hid)⟩⟩
      · obtain ⟨current, hget, hmade | ⟨hsame, -⟩⟩ := ih hrest h
        · exact ⟨current, hget, .inl hmade⟩
        · exact ⟨current, hget, .inr ⟨hsame, fun _ hthrown => absurd hthrown Bool.false_ne_true⟩⟩
      · next schedules' hupdate =>
        obtain ⟨current, hget, hmade⟩ := ih hrest h
        rw [get_storeUpdate_ne hupdate hid] at hget
        rcases hmade with hmade | ⟨hsame, hnone⟩
        · exact ⟨current, hget, .inl hmade⟩
        · exact ⟨current, hget, .inr ⟨hsame, fun hid => hnone (hmem hid)⟩⟩

theorem storeKept_updateEach (hnodup : ids.Nodup)
    (hkept : ∀ current next, updater current = .ok (some next) → Kept current next) :
    StoreKept schedules (updateEach updater written ids schedules).1 := by
  intro id next hnext
  obtain ⟨current, hget, hmade | ⟨hsame, -⟩⟩ := get_updateEach hnodup hnext
  · exact ⟨current, hget, hkept current next hmade⟩
  · rw [hsame]
    exact ⟨current, hget, kept_refl current⟩

/-! ## Steps of the service -/

namespace ScheduleService

variable {s s' : ScheduleService γ} {event : ServiceEvent γ} {run : ActiveRun}

theorem storeKept_effect (heffect : Effect calendar s event s') :
    StoreKept s.schedules s'.schedules := by
  cases heffect with
  | quiet ticks calls clock nextId hticks hclock hnextId => exact storeKept_refl _
  | edited ticks hticks hget hedit => exact storeKept_set hget ⟨hedit.consistent, hedit.completed⟩
  | deleted id => exact storeKept_delete
  | started ticks calls hticks hfree hstarted hdue => exact storeKept_refl _
  | appended hevent hfound hstage hget => exact storeKept_set hget (kept_of_same rfl rfl)
  | appendRejected ticks hticks hevent hfound hstage hfails => exact storeKept_refl _
  | staged hfound hstage hnew => exact storeKept_refl _
  | finished ticks hticks hfound hstage hget hfinish =>
    exact storeKept_set hget (kept_finishRun hfinish)
  | finishRejected ticks hticks hevent hfound hstage hfails => exact storeKept_refl _

/-- The first update of a run is made, and the last one does not fail on a stored schedule. -/
def Unfailing (calendar : Calendar) (s : ScheduleService γ) : ServiceEvent γ → Prop
  | .append runId written =>
    ∀ run, s.findRun runId = some run → run.stage = .appending →
      written = true ∧ run.scheduleId ∈ s.schedules.keys
  | .finish runId written =>
    ∀ run error targetGone stored, s.findRun runId = some run →
      run.stage = .finishing (.threw error targetGone) →
      s.schedules.get run.scheduleId = some stored →
      written = true ∧
        Finishable calendar run.id (.threw error targetGone) run.manual s.clock stored
  | _ => True

/-- One run of a record is running at most. -/
def Single (schedules : OrderedMap String (StoredSchedule γ)) : Prop :=
  ∀ id schedule, schedules.get id = some schedule → (unfinished schedule).length ≤ 1

/-- The entry of a run that is in progress and recorded. -/
def OwnedBy (s : ScheduleService γ) (id : String) (entry : ℕ × RunStatus) : Prop :=
  ∃ run ∈ s.runs, run.id = entry.1 ∧ run.scheduleId = id ∧ run.stage ≠ .appending

structure QuietInv (s : ScheduleService γ) : Prop where
  held : ∀ id ∈ s.runningScheduleIds, ∃ run ∈ s.runs, run.scheduleId = id
  owned : ∀ id schedule, s.schedules.get id = some schedule →
    ∀ entry ∈ unfinished schedule, s.OwnedBy id entry
  single : Single s.schedules

theorem single_set {schedules : OrderedMap String (StoredSchedule γ)} (h : Single schedules)
    (hnext : (unfinished next).length ≤ 1) : Single (schedules.set id next) := by
  intro other schedule hget
  by_cases hid : other = id
  · rw [hid, get_set_self] at hget
    rw [← some.inj hget]
    exact hnext
  · rw [get_set_ne hid] at hget
    exact h other schedule hget

/-- A run keeps its records in its next stage. -/
theorem OwnedBy.setRun {entry : ℕ × RunStatus} (h : s.OwnedBy id entry) {runId : ℕ}
    {stage : RunStage} (hstage : stage ≠ .appending)
    (hruns : s'.runs = (s.setRun runId stage).runs) : s'.OwnedBy id entry := by
  obtain ⟨run, hrun, hid, hschedule, hold⟩ := h
  refine ⟨if run.id = runId then { run with stage } else run, ?_, ?_⟩
  · rw [hruns]
    exact List.mem_map.mpr ⟨run, hrun, rfl⟩
  · by_cases hrunId : run.id = runId
    · rw [if_pos hrunId]
      exact ⟨hid, hschedule, hstage⟩
    · rw [if_neg hrunId]
      exact ⟨hid, hschedule, hold⟩

/-- A run of another schedule is left when a run is over. -/
theorem mem_filter_of_scheduleId {other : ActiveRun} (hother : other ∈ s.runs)
    (hne : other.scheduleId ≠ run.scheduleId) (hinv : RunsInv s) (hrun : run ∈ s.runs) :
    other ∈ s.runs.filter fun other => other.id ≠ run.id := by
  refine mem_filter.mpr ⟨hother, decide_eq_true ?_⟩
  intro hid
  exact hne (congrArg ActiveRun.scheduleId (hinv.eq_of_id hrun hother hid))

namespace QuietInv

section

variable (h : QuietInv s)
include h

theorem held_setRun (runId : ℕ) (stage : RunStage) :
    ∀ id ∈ s.runningScheduleIds, ∃ run ∈ (s.setRun runId stage).runs, run.scheduleId = id := by
  intro id hid
  obtain ⟨run, hrun, hschedule⟩ := h.held id hid
  refine ⟨_, List.mem_map.mpr ⟨run, hrun, rfl⟩, ?_⟩
  by_cases hrunId : run.id = runId
  · rw [if_pos hrunId]
    exact hschedule
  · rw [if_neg hrunId]
    exact hschedule

/-- A run is over: its schedule is released, and no record of it is running. -/
theorem release (hinv : RunsInv s) (hrun : run ∈ s.runs)
    (hheld : s'.runningScheduleIds = s.runningScheduleIds.filter (· ≠ run.scheduleId))
    (hruns : s'.runs = s.runs.filter fun other => other.id ≠ run.id)
    (hothers : ∀ id, id ≠ run.scheduleId → s'.schedules.get id = s.schedules.get id)
    (hown : ∀ schedule, s'.schedules.get run.scheduleId = some schedule →
      unfinished schedule = []) : QuietInv s' where
  held := fun id hid => by
    rw [hheld] at hid
    obtain ⟨hid, hne⟩ := List.mem_filter.mp hid
    obtain ⟨other, hother, hschedule⟩ := h.held id hid
    refine ⟨other, ?_, hschedule⟩
    rw [hruns]
    exact mem_filter_of_scheduleId hother (hschedule ▸ of_decide_eq_true hne) hinv hrun
  owned := fun id schedule hget entry hentry => by
    by_cases hid : id = run.scheduleId
    · rw [hid] at hget
      rw [hown schedule hget] at hentry
      cases hentry
    · rw [hothers id hid] at hget
      obtain ⟨other, hother, hother', hschedule, hstage⟩ := h.owned id schedule hget entry hentry
      refine ⟨other, ?_, hother', hschedule, hstage⟩
      rw [hruns]
      exact mem_filter_of_scheduleId hother (hschedule ▸ hid) hinv hrun
  single := fun id schedule hget => by
    by_cases hid : id = run.scheduleId
    · rw [hid] at hget
      rw [hown schedule hget]
      exact Nat.zero_le 1
    · rw [hothers id hid] at hget
      exact h.single id schedule hget

/-- No record is running before the run of its schedule is recorded. -/
theorem unfinished_of_appending (hinv : RunsInv s) (hrun : run ∈ s.runs)
    (hstage : run.stage = .appending) (hget : s.schedules.get run.scheduleId = some current) :
    unfinished current = [] := by
  apply eq_nil_iff_forall_not_mem.mpr
  intro entry hentry
  obtain ⟨other, hother, -, hschedule, happending⟩ := h.owned _ current hget entry hentry
  rw [hinv.eq_of_scheduleId hrun hother hschedule] at happending
  exact happending hstage

theorem effect (hinv : RunsInv s) (hunfailing : s.Unfailing calendar event)
    (heffect : Effect calendar s event s') : QuietInv s' := by
  cases heffect with
  | quiet ticks calls clock nextId hticks hclock hnextId => exact ⟨h.held, h.owned, h.single⟩
  | @edited ticks id current next hticks hget hedit =>
    have hsame := unfinished_of_statuses hedit.runs
    refine ⟨h.held, ?_, single_set h.single (hsame ▸ h.single id current hget)⟩
    intro other schedule hother entry hentry
    by_cases hid : other = id
    · rw [hid, get_set_self] at hother
      rw [← some.inj hother, hsame] at hentry
      rw [hid]
      exact h.owned id current hget entry hentry
    · rw [get_set_ne hid] at hother
      exact h.owned other schedule hother entry hentry
  | deleted id =>
    have hold : ∀ other schedule, (s.schedules.delete id).get other = some schedule →
        s.schedules.get other = some schedule := by
      intro other schedule hother
      by_cases hid : other = id
      · rw [hid, get_delete_self] at hother
        cases hother
      · rw [get_delete_ne hid] at hother
        exact hother
    exact ⟨h.held, fun other schedule hother => h.owned other schedule (hold other schedule hother),
      fun other schedule hother => h.single other schedule (hold other schedule hother)⟩
  | started ticks calls hticks hfree hstarted hdue =>
    refine ⟨?_, ?_, h.single⟩
    · intro id hid
      rcases mem_insert_iff.mp hid with hnew | hold
      · exact ⟨_, mem_append_right _ (mem_singleton_self _), hnew.symm⟩
      · obtain ⟨run, hrun, hschedule⟩ := h.held id hold
        exact ⟨run, mem_append_left _ hrun, hschedule⟩
    · intro id schedule hget entry hentry
      obtain ⟨run, hrun, hown⟩ := h.owned id schedule hget entry hentry
      exact ⟨run, mem_append_left _ hrun, hown⟩
  | @appended run written current hevent hfound hstage hget =>
    have hrun := (findRun_eq_some hfound).1
    have hnone := h.unfinished_of_appending hinv hrun hstage hget
    have hentries := unfinished_appendRunningRun current run run.startedAt
    rw [hnone] at hentries
    refine ⟨h.held_setRun run.id .executing, ?_, single_set h.single (by rw [hentries]; rfl)⟩
    intro other schedule hother entry hentry
    by_cases hid : other = run.scheduleId
    · rw [hid, get_set_self] at hother
      rw [← some.inj hother, hentries] at hentry
      rw [mem_singleton.mp hentry, hid]
      exact ⟨{ run with stage := .executing }, List.mem_map.mpr ⟨run, hrun, if_pos rfl⟩, rfl, rfl,
        nofun⟩
    · rw [get_set_ne hid] at hother
      exact (h.owned other schedule hother entry hentry).setRun (by decide) rfl
  | @appendRejected ticks run written hticks hevent hfound hstage hfails =>
    subst hevent
    obtain ⟨hwritten, hstored⟩ := hunfailing run hfound hstage
    rcases hfails with hunwritten | hgone
    · rw [hwritten] at hunwritten
      cases hunwritten
    · exact absurd hstored (get_eq_none_iff.mp hgone)
  | @staged run stage hfound hstage hnew =>
    refine ⟨h.held_setRun run.id stage, ?_, h.single⟩
    intro id schedule hget entry hentry
    exact (h.owned id schedule hget entry hentry).setRun hnew rfl
  | @finished ticks run result current next hticks hfound hstage hget hfinish =>
    have hrun := (findRun_eq_some hfound).1
    apply h.release hinv hrun rfl rfl
    · exact fun id hid => get_set_ne hid
    · intro schedule hschedule
      rw [get_set_self] at hschedule
      rw [← some.inj hschedule]
      apply unfinished_finishRun hfinish
      intro entry hentry
      obtain ⟨other, hother, hid, hsame, -⟩ := h.owned _ current hget entry hentry
      rw [← hid, hinv.eq_of_scheduleId hrun hother hsame]
  | @finishRejected ticks run written error targetGone hticks hevent hfound hstage hfails =>
    subst hevent
    apply h.release hinv (findRun_eq_some hfound).1 rfl rfl
    · exact fun _ _ => rfl
    · intro schedule hget
      obtain ⟨hwritten, hfinishable⟩ :=
        hunfailing run error targetGone schedule hfound hstage hget
      exact absurd (storeUpdate_finishRun hget hwritten hfinishable).choose_spec (hfails _)

end

end QuietInv

end ScheduleService

end Orqara.Schedule
