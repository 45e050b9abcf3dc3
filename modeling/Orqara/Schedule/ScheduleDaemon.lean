import Orqara.Schedule.RunsInProgress

/-!
# The schedules of the daemon

Schedules over restarts of the daemon, which fails the runs that it finds interrupted and
completes the schedules of agents that are gone before it serves anything.
-/

namespace Orqara.Schedule

variable {γ : Type}

structure Daemon (γ : Type) where
  service : ScheduleService γ
  /-- `start` has come to its end -/
  up : Bool
  /-- the ids that schedules have been given -/
  usedIds : List String

inductive DaemonEvent (γ : Type)
  | service (event : ServiceEvent γ)
  | create (input : CreateScheduleInput γ) (id : String) (written : Bool)
  /-- the daemon stops at any time and starts again; the writes that do not come to be are those
  that fail and those that another failure, or another stop, comes before -/
  | restart (downtime sweepDelay : ℕ) (recovered swept agentGone : String → Bool)

/-- An update of each of the schedules, and whether none of them has thrown. -/
def updateEach (updater : Updater γ) (written : String → Bool) :
    List String → OrderedMap String (StoredSchedule γ) →
      OrderedMap String (StoredSchedule γ) × Bool
  | [], schedules => (schedules, true)
  | id :: ids, schedules =>
    match storeUpdate schedules id (written id) updater with
    | .missing => updateEach updater written ids schedules
    | .threw _ => ((updateEach updater written ids schedules).1, false)
    | .updated schedules => updateEach updater written ids schedules

namespace Daemon

variable (calendar : Calendar) (d : Daemon γ)

def create (input : CreateScheduleInput γ) (id : String) (written : Bool) : Daemon γ :=
  match buildScheduleRecord calendar input id d.service.clock with
  | .error _ => d
  | .ok created =>
    if written then
      { d with
        service := { d.service with schedules := d.service.schedules.set id created }
        usedIds := id :: d.usedIds }
    else d

/-- `start` of a new process over the stored schedules. -/
def restart (downtime sweepDelay : ℕ) (recovered swept agentGone : String → Bool) : Daemon γ :=
  let now := d.service.clock + downtime
  let recovery := updateEach (recoverInterruptedSchedule calendar now) recovered
    d.service.schedules.keys d.service.schedules
  if recovery.2 then
    let sweep := updateEach (sweepOrphanedSchedule agentGone (now + sweepDelay)) swept
      recovery.1.keys recovery.1
    { d with service := .idle sweep.1 (now + sweepDelay) d.service.nextId, up := sweep.2 }
  else { d with service := .idle recovery.1 now d.service.nextId, up := false }

def step : DaemonEvent γ → Option (Daemon γ)
  | .service event =>
    if d.up then (d.service.step calendar event).map fun service => { d with service } else none
  | .create input id written => if d.up then some (d.create calendar input id written) else none
  | .restart downtime sweepDelay recovered swept agentGone =>
    some (d.restart calendar downtime sweepDelay recovered swept agentGone)

def run (d : Daemon γ) : List (DaemonEvent γ) → Option (Daemon γ)
  | [] => some d
  | event :: events => (d.step calendar event).bind fun d' => run d' events

/-- A daemon without schedules. -/
def empty (clock nextId : ℕ) : Daemon γ where
  service := .idle OrderedMap.empty clock nextId
  up := true
  usedIds := []

end Daemon

end Orqara.Schedule
