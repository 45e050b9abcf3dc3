import Orqara.Schedule.ScheduleStates

/-!
# Restarts

What holds of the schedules of a daemon over all of its runs, and where it does not.
-/

namespace Orqara.Schedule.Daemon

open ScheduleService OrderedMap

variable {γ : Type} {calendar : Calendar} {d d' : Daemon γ} {id : String} {next : StoredSchedule γ}

structure Settled (d : Daemon γ) : Prop where
  nextRun : ∀ id schedule, d.service.schedules.get id = some schedule →
    (schedule.nextRunAt.isSome ↔ schedule.status = .active)
  /-- a schedule that has no run in progress is free, and none of its runs is running -/
  quiet : d.up = true → ∀ id, (∀ run ∈ d.service.runs, run.scheduleId ≠ id) →
    id ∉ d.service.runningScheduleIds ∧
      ∀ schedule, d.service.schedules.get id = some schedule →
        ∀ run ∈ schedule.runs, run.status ≠ .running

/-- Completed schedules are completed later, too. -/
def KeepsCompleted (d d' : Daemon γ) : Prop :=
  ∀ id schedule schedule', d.service.schedules.get id = some schedule →
    schedule.status = .completed → d'.service.schedules.get id = some schedule' →
    schedule'.status = .completed

/-- The updates of runs do not fail, and ids are new. -/
def Unfailing (calendar : Calendar) (d : Daemon γ) : DaemonEvent γ → Prop
  | .service event => d.service.Unfailing calendar event
  | .create _ id _ => id ∉ d.usedIds
  | .restart _ _ _ _ _ => True

def UnfailingRun (calendar : Calendar) (d : Daemon γ) : List (DaemonEvent γ) → Prop
  | [] => True
  | event :: events =>
    d.Unfailing calendar event ∧ ∀ d', d.step calendar event = some d' → UnfailingRun calendar d' events

structure Inv (d : Daemon γ) : Prop where
  runs : ScheduleService.RunsInv d.service
  ticks : NotAhead d.service.clock d.service.ticks
  used : ∀ id ∈ d.service.schedules.keys, id ∈ d.usedIds
  consistent : ∀ id schedule, d.service.schedules.get id = some schedule → Consistent schedule
  single : ScheduleService.Single d.service.schedules
  quiet : d.up = true → ScheduleService.QuietInv d.service

/-- The schedules of one state come from those of another, but for new ones. -/
structure Follows (d d' : Daemon γ) : Prop where
  used : ∀ id ∈ d.usedIds, id ∈ d'.usedIds
  kept : ∀ id ∈ d.usedIds, ∀ next, d'.service.schedules.get id = some next →
    ∃ current, d.service.schedules.get id = some current ∧ Kept current next

theorem follows_refl (d : Daemon γ) : Follows d d :=
  ⟨fun _ => id, fun _ _ next hnext => ⟨next, hnext, kept_refl next⟩⟩

theorem Follows.trans {first second third : Daemon γ} (h : Follows first second)
    (h' : Follows second third) : Follows first third := by
  refine ⟨fun id hid => h'.used id (h.used id hid), ?_⟩
  intro id hid next hnext
  obtain ⟨middle, hmiddle, hkept⟩ := h'.kept id (h.used id hid) next hnext
  obtain ⟨current, hcurrent, hkept'⟩ := h.kept id hid middle hmiddle
  exact ⟨current, hcurrent, hkept'.trans hkept⟩

theorem follows_of_storeKept (hused : d'.usedIds = d.usedIds)
    (hkept : StoreKept d.service.schedules d'.service.schedules) : Follows d d' :=
  ⟨fun id hid => hused ▸ hid, fun id _ next hnext => hkept id next hnext⟩

theorem inv_empty (clock nextId : ℕ) : Inv (empty clock nextId : Daemon γ) := by
  have hnone : ∀ id schedule,
      (empty clock nextId : Daemon γ).service.schedules.get id ≠ some schedule := by
    intro id schedule hget
    cases hget
  have hsingle : ScheduleService.Single (empty clock nextId : Daemon γ).service.schedules :=
    fun id schedule hget => absurd hget (hnone id schedule)
  exact
    { runs := runsInv_idle _ clock nextId
      ticks := fun tick htick => by cases htick
      used := fun id hid => by cases hid
      consistent := fun id schedule hget => absurd hget (hnone id schedule)
      single := hsingle
      quiet := fun _ =>
        { held := fun id hid => by cases hid
          owned := fun id schedule hget => absurd hget (hnone id schedule)
          single := hsingle } }

theorem Inv.settled (h : Inv d) : d.Settled where
  nextRun := h.consistent
  quiet := fun hup id hfree => by
    have hquiet := h.quiet hup
    constructor
    · intro hheld
      obtain ⟨run, hrun, hschedule⟩ := hquiet.held id hheld
      exact hfree run hrun hschedule
    · intro schedule hget
      apply unfinished_eq_nil_iff.mp
      apply List.eq_nil_iff_forall_not_mem.mpr
      intro entry hentry
      obtain ⟨run, hrun, -, hschedule, -⟩ := hquiet.owned id schedule hget entry hentry
      exact hfree run hrun hschedule

theorem Follows.keepsCompleted (h : Inv d) (hfollows : Follows d d') : d.KeepsCompleted d' := by
  intro id schedule schedule' hget hcompleted hget'
  obtain ⟨current, hcurrent, hkept⟩ :=
    hfollows.kept id (h.used id (mem_keys_of_get hget)) schedule' hget'
  rw [hget] at hcurrent
  rw [← Option.some.inj hcurrent] at hkept
  exact hkept.completed hcompleted

namespace Inv

variable {after : OrderedMap String (StoredSchedule γ)}

/-- What a store keeps whose records come from those of another one. -/
theorem used_of_storeKept (h : Inv d) (hkept : StoreKept d.service.schedules after) :
    ∀ id ∈ after.keys, id ∈ d.usedIds := by
  intro id hid
  obtain ⟨next, hnext⟩ := get_of_mem_keys hid
  obtain ⟨current, hcurrent, -⟩ := hkept id next hnext
  exact h.used id (mem_keys_of_get hcurrent)

theorem consistent_of_storeKept (h : Inv d) (hkept : StoreKept d.service.schedules after) :
    ∀ id schedule, after.get id = some schedule → Consistent schedule := by
  intro id next hnext
  obtain ⟨current, hcurrent, hkept⟩ := hkept id next hnext
  exact hkept.consistent (h.consistent id current hcurrent)

theorem service (h : Inv d) (hup : d.up = true) {event : ServiceEvent γ}
    (hunfailing : d.service.Unfailing calendar event) {service : ScheduleService γ}
    (heffect : Effect calendar d.service event service) : Inv { d with service } where
  runs := h.runs.effect heffect
  ticks := notAhead_effect h.ticks heffect
  used := h.used_of_storeKept (storeKept_effect heffect)
  consistent := h.consistent_of_storeKept (storeKept_effect heffect)
  single := ((h.quiet hup).effect h.runs hunfailing heffect).single
  quiet := fun _ => (h.quiet hup).effect h.runs hunfailing heffect

/-- A schedule that is created has no runs. -/
theorem create (h : Inv d) {input : CreateScheduleInput γ} {id : String} {now : ℕ}
    {created : StoredSchedule γ}
    (hcreated : buildScheduleRecord calendar input id now = .ok created) :
    Inv
      { d with
        service := { d.service with schedules := d.service.schedules.set id created }
        usedIds := id :: d.usedIds } := by
  have hnone : unfinished created = [] := by
    obtain ⟨prompt, -, hcreated⟩ := bind_eq_ok.mp hcreated
    split at hcreated
    · obtain ⟨nextRunAt, -, hcreated⟩ := bind_eq_ok.mp hcreated
      obtain ⟨maxRuns, -, rfl⟩ := map_eq_ok.mp hcreated
      rfl
    · cases hcreated
  have hsingle : ScheduleService.Single (d.service.schedules.set id created) :=
    single_set h.single (by rw [hnone]; exact Nat.zero_le 1)
  refine ⟨h.runs.of_runs rfl rfl (le_refl _) (le_refl _), h.ticks, ?_, ?_, hsingle, ?_⟩
  · intro other hother
    by_cases hid : other = id
    · exact List.mem_cons.mpr (.inl hid)
    · obtain ⟨schedule, hget⟩ := get_of_mem_keys hother
      rw [get_set_ne hid] at hget
      exact List.mem_cons_of_mem id (h.used other (mem_keys_of_get hget))
  · intro other schedule hget
    by_cases hid : other = id
    · rw [hid, get_set_self] at hget
      rw [← Option.some.inj hget]
      exact consistent_buildScheduleRecord hcreated
    · rw [get_set_ne hid] at hget
      exact h.consistent other schedule hget
  · intro hup
    refine ⟨(h.quiet hup).held, ?_, hsingle⟩
    intro other schedule hget entry hentry
    by_cases hid : other = id
    · rw [hid, get_set_self] at hget
      rw [← Option.some.inj hget, hnone] at hentry
      cases hentry
    · rw [get_set_ne hid] at hget
      exact (h.quiet hup).owned other schedule hget entry hentry

end Inv

/-! ## Restart -/

theorem follows_create (hnew : id ∉ d.usedIds) (created : StoredSchedule γ) :
    Follows d
      { d with
        service := { d.service with schedules := d.service.schedules.set id created }
        usedIds := id :: d.usedIds } := by
  refine ⟨fun other hother => List.mem_cons_of_mem id hother, ?_⟩
  intro other hother next hnext
  have hne : other ≠ id := fun heq => hnew (heq ▸ hother)
  rw [get_set_ne hne] at hnext
  exact ⟨next, hnext, kept_refl next⟩

variable {schedules : OrderedMap String (StoredSchedule γ)} {now : ℕ} {written agentGone :
  String → Bool}

theorem storeKept_recovery :
    StoreKept schedules
      (updateEach (recoverInterruptedSchedule calendar now) written schedules.keys schedules).1 :=
  storeKept_updateEach schedules.nodup_keys fun _ _ => kept_recoverInterruptedSchedule

theorem storeKept_sweep :
    StoreKept schedules
      (updateEach (sweepOrphanedSchedule agentGone now) written schedules.keys schedules).1 :=
  storeKept_updateEach schedules.nodup_keys fun _ _ => kept_sweepOrphanedSchedule

/-- A recovery that has not failed leaves no run running. -/
theorem unfinished_recovery (hsingle : ScheduleService.Single schedules)
    (hall : (updateEach (recoverInterruptedSchedule calendar now) written schedules.keys
      schedules).2 = true)
    (hget : (updateEach (recoverInterruptedSchedule calendar now) written schedules.keys
      schedules).1.get id = some next) : unfinished next = [] := by
  obtain ⟨current, hcurrent, hmade⟩ := get_updateEach schedules.nodup_keys hget
  have hone := hsingle id current hcurrent
  rcases hmade with hmade | ⟨rfl, hleft⟩
  · exact (unfinished_recoverInterruptedSchedule hone).2 next hmade
  · exact (unfinished_recoverInterruptedSchedule hone).1
      (hleft (mem_keys_of_get hcurrent) hall)

theorem single_recovery (hsingle : ScheduleService.Single schedules) :
    ScheduleService.Single
      (updateEach (recoverInterruptedSchedule calendar now) written schedules.keys
        schedules).1 := by
  intro id next hget
  obtain ⟨current, hcurrent, hmade | ⟨rfl, -⟩⟩ := get_updateEach schedules.nodup_keys hget
  · have hone := hsingle id current hcurrent
    rw [(unfinished_recoverInterruptedSchedule hone).2 next hmade]
    exact Nat.zero_le 1
  · exact hsingle id next hcurrent

theorem unfinished_sweep
    (hnone : ∀ id schedule, schedules.get id = some schedule → unfinished schedule = [])
    (hget : (updateEach (sweepOrphanedSchedule agentGone now) written schedules.keys
      schedules).1.get id = some next) : unfinished next = [] := by
  obtain ⟨current, hcurrent, hmade | ⟨rfl, -⟩⟩ := get_updateEach schedules.nodup_keys hget
  · rw [unfinished_sweepOrphanedSchedule hmade]
    exact hnone id current hcurrent
  · exact hnone id next hcurrent

/-- A process that has just been started over a store. -/
theorem inv_idle (h : Inv d) {after : OrderedMap String (StoredSchedule γ)} (clock : ℕ) (up : Bool)
    (hkept : StoreKept d.service.schedules after) (hsingle : ScheduleService.Single after)
    (hnone : up = true → ∀ id schedule, after.get id = some schedule → unfinished schedule = []) :
    Inv { d with service := .idle after clock d.service.nextId, up } where
  runs := runsInv_idle after clock d.service.nextId
  ticks := nofun
  used := h.used_of_storeKept hkept
  consistent := h.consistent_of_storeKept hkept
  single := hsingle
  quiet := fun hup =>
    { held := nofun
      owned := fun id schedule hget entry hentry => by
        rw [hnone hup id schedule hget] at hentry
        cases hentry
      single := hsingle }

theorem restart_spec (h : Inv d) {downtime sweepDelay : ℕ}
    {recovered swept : String → Bool} :
    Inv (d.restart calendar downtime sweepDelay recovered swept agentGone) ∧
      Follows d (d.restart calendar downtime sweepDelay recovered swept agentGone) := by
  unfold restart
  simp only
  split
  · next hall =>
    have hnone : ∀ id schedule, (updateEach
        (recoverInterruptedSchedule calendar (d.service.clock + downtime)) recovered
        d.service.schedules.keys d.service.schedules).1.get id = some schedule →
        unfinished schedule = [] :=
      fun id schedule hget => unfinished_recovery h.single hall hget
    constructor
    · apply inv_idle h _ _ (storeKept_recovery.trans storeKept_sweep)
      · intro id schedule hget
        rw [unfinished_sweep hnone hget]
        exact Nat.zero_le 1
      · exact fun _ id schedule hget => unfinished_sweep hnone hget
    · exact follows_of_storeKept rfl (storeKept_recovery.trans storeKept_sweep)
  · constructor
    · exact inv_idle h _ _ storeKept_recovery (single_recovery h.single) nofun
    · exact follows_of_storeKept rfl storeKept_recovery

/-! ## Runs -/

theorem step_spec (h : Inv d) {event : DaemonEvent γ} (hunfailing : d.Unfailing calendar event)
    (hstep : d.step calendar event = some d') : Inv d' ∧ Follows d d' := by
  cases event with
  | service event =>
    by_cases hup : d.up = true
    · rw [step, if_pos hup] at hstep
      obtain ⟨service, hservice, rfl⟩ := Option.map_eq_some_iff.mp hstep
      have heffect := effect_step h.ticks hservice
      exact ⟨h.service hup hunfailing heffect,
        follows_of_storeKept rfl (storeKept_effect heffect)⟩
    · rw [step, if_neg hup] at hstep
      cases hstep
  | create input id written =>
    by_cases hup : d.up = true
    · rw [step, if_pos hup] at hstep
      rw [← Option.some.inj hstep]
      unfold Daemon.create
      split
      · exact ⟨h, follows_refl d⟩
      · next created hcreated =>
        split
        · exact ⟨h.create hcreated, follows_create hunfailing created⟩
        · exact ⟨h, follows_refl d⟩
    · rw [step, if_neg hup] at hstep
      cases hstep
  | restart downtime sweepDelay recovered swept agentGone =>
    rw [← Option.some.inj hstep]
    exact restart_spec h

theorem run_spec {events : List (DaemonEvent γ)} (h : Inv d)
    (hunfailing : d.UnfailingRun calendar events) (hrun : d.run calendar events = some d') :
    Inv d' ∧ Follows d d' := by
  induction events generalizing d with
  | nil =>
    rw [← Option.some.inj hrun]
    exact ⟨h, follows_refl d⟩
  | cons event events ih =>
    obtain ⟨middle, hstep, hrest⟩ := Option.bind_eq_some_iff.mp hrun
    obtain ⟨hmiddle, hfollows⟩ := step_spec h hunfailing.1 hstep
    obtain ⟨hlast, hfollows'⟩ := ih hmiddle (hunfailing.2 middle hstep) hrest
    exact ⟨hlast, hfollows.trans hfollows'⟩

theorem unfailingRun_append {events events' : List (DaemonEvent γ)}
    (h : d.UnfailingRun calendar (events ++ events')) (hrun : d.run calendar events = some d') :
    d.UnfailingRun calendar events ∧ d'.UnfailingRun calendar events' := by
  induction events generalizing d with
  | nil =>
    rw [← Option.some.inj hrun]
    exact ⟨trivial, h⟩
  | cons event events ih =>
    obtain ⟨middle, hstep, hrest⟩ := Option.bind_eq_some_iff.mp hrun
    refine ⟨⟨h.1, ?_⟩, (ih (h.2 middle hstep) hrest).2⟩
    intro other hother
    rw [hstep] at hother
    rw [← Option.some.inj hother]
    exact (ih (h.2 middle hstep) hrest).1

/-- In every run whose updates do not fail, at any time and from any time on. -/
theorem daemonRuns_settled (calendar : Calendar) (clock nextId : ℕ)
    (before after : List (DaemonEvent γ)) (d d' : Daemon γ)
    (hunfailing : (empty clock nextId).UnfailingRun calendar (before ++ after))
    (hbefore : (empty clock nextId).run calendar before = some d)
    (hafter : d.run calendar after = some d') : d'.Settled ∧ d.KeepsCompleted d' := by
  obtain ⟨hfirst, hsecond⟩ := unfailingRun_append hunfailing hbefore
  obtain ⟨hinv, -⟩ := run_spec (inv_empty clock nextId) hfirst hbefore
  obtain ⟨hinv', hfollows⟩ := run_spec hinv hsecond hafter
  exact ⟨hinv'.settled, hfollows.keepsCompleted hinv⟩

/-! ## A write that fails -/

/-- No cron expression and no date is valid. -/
def noCalendar : Calendar where
  matchesMinute _ _ := none
  parseDate _ := none

def everySecond : CreateScheduleInput Unit where
  name := none
  prompt := "p"
  cadence := .every 1000
  target := .agent "agent"
  maxRuns := none
  expiresAt := none
  runOnCreate := none

/-- A tick comes to a new schedule. -/
def firstTick : List (DaemonEvent Unit) :=
  [.create everySecond "a" true, .service .tick, .service (.readDirectory 0),
    .service (.readFile 0 "a"), .service (.scan 0)]

theorem failedAppend_holds_schedule :
    ¬ ∀ (clock nextId : ℕ) (events : List (DaemonEvent Unit)) (d : Daemon Unit),
      (empty clock nextId).run noCalendar events = some d → d.Settled := by
  intro hall
  have hfails : ((empty 0 0).run noCalendar (firstTick ++ [.service (.append 1 false)])).map
      (fun d => (d.up, d.service.runs, d.service.runningScheduleIds)) = some (true, [], ["a"]) := by
    decide +kernel
  obtain ⟨d, hrun, hd⟩ := Option.map_eq_some_iff.mp hfails
  injection hd with hup hd
  injection hd with hruns hheld
  have hquiet := (hall 0 0 _ d hrun).quiet hup "a" (by simp [hruns])
  rw [hheld] at hquiet
  exact hquiet.1 List.mem_cons_self

/-- The run that the tick starts. -/
def firstRun : List (DaemonEvent Unit) :=
  [.service (.append 1 true), .service (.runnerEnds 1 (.returned none none)),
    .service (.finish 1 true)]

theorem daemonRuns_settled_firstRun :
    ∃ d d', (empty 0 0).run noCalendar firstTick = some d ∧
      d.run noCalendar firstRun = some d' ∧ d.service.runs.length = 1 ∧ d'.service.runs = [] ∧
      d'.Settled ∧ d.KeepsCompleted d' := by
  have hstarts : ((empty 0 0).run noCalendar firstTick).map (fun d =>
      (d.service.runs.length, d.service.schedules.keys, d.service.runs.map ActiveRun.scheduleId,
        (d.run noCalendar firstRun).map fun d' => d'.service.runs)) =
      some (1, ["a"], ["a"], some []) := by
    decide +kernel
  obtain ⟨d, hbefore, hd⟩ := Option.map_eq_some_iff.mp hstarts
  injection hd with hlength hd
  injection hd with hkeys hd
  injection hd with hschedules hd
  obtain ⟨d', hafter, hruns⟩ := Option.map_eq_some_iff.mp hd
  refine ⟨d, d', hbefore, hafter, hlength, hruns,
    daemonRuns_settled noCalendar 0 0 firstTick firstRun d d' ?_ hbefore hafter⟩
  refine ⟨List.not_mem_nil, fun d₁ h₁ => ⟨trivial, fun d₂ h₂ => ⟨trivial, fun d₃ h₃ => ⟨trivial,
    fun d₄ h₄ => ⟨trivial, fun d₅ h₅ => ⟨?_, fun d₆ h₆ => ⟨trivial, fun d₇ h₇ => ⟨?_,
      fun _ _ => trivial⟩⟩⟩⟩⟩⟩⟩⟩
  · have hsame : (empty 0 0).run noCalendar firstTick = some d₅ := by
      simp only [firstTick, Daemon.run, h₁, h₂, h₃, h₄, h₅, Option.bind_some]
    rw [hbefore] at hsame
    rw [← Option.some.inj hsame]
    intro run hfound _
    refine ⟨rfl, ?_⟩
    have hmem := List.mem_map_of_mem (f := ActiveRun.scheduleId)
      (findRun_eq_some hfound).1
    rw [hschedules] at hmem
    rw [hkeys]
    exact hmem
  · -- the runner has come to its end by itself
    have hended : ((empty 0 0).run noCalendar (firstTick ++ firstRun.take 2)).map (fun d =>
        (d.service.findRun 1).map ActiveRun.stage) =
        some (some (.finishing (.returned none none))) := by
      decide +kernel
    have hsame : (empty 0 0).run noCalendar (firstTick ++ firstRun.take 2) = some d₇ := by
      simp only [firstTick, firstRun, List.take, List.cons_append, List.nil_append, Daemon.run,
        h₁, h₂, h₃, h₄, h₅, h₆, h₇, Option.bind_some]
    rw [hsame] at hended
    intro run error targetGone stored hfound hstage
    have hstaged : (d₇.service.findRun 1).map ActiveRun.stage =
        some (.finishing (.returned none none)) := Option.some.inj hended
    rw [hfound, Option.map_some, hstage] at hstaged
    cases hstaged

end Orqara.Schedule.Daemon
