import NodeInventory.Schedule.Driver
import NodeInventory.Simulation.Locking

/-!
# Scheduled jobs in a world

Jobs of known length, each with a driver that starts its runs, in virtual time. What happens at one
time happens in the order in which it has been waited for, and before the signal to shut down.
-/

namespace NodeInventory.Simulation

/-- A job that takes a known time, run time and again. -/
structure PlannedJob where
  name : String
  period : Nat
  duration : Nat
  /-- Whether a run has to end before the next one starts. -/
  waits : Bool
  /-- The failures of the runs that get the lock, in order. -/
  failures : List (Option Failure)

/-- A job with its driver. -/
structure DrivenJob where
  job : PlannedJob
  driver : Schedule.Driver
  /-- Since when the driver listens. -/
  since : Nat

/-- Jobs with their drivers, and their runs in a world. Runs are numbered. -/
structure Timetable : Type 1 where
  kernel : Kernel RunOutcome
  owner : String
  ttl : Nat
  jobs : List DrivenJob
  /-- The job of every run, by number. -/
  runs : List Nat := []

namespace Timetable

/-- How many runs of a job have had the lock. -/
def worked (w : World) (job : String) : Nat :=
  w.events.countP fun e ↦
    match e.request with
    | .count (.jobRuns name) => name == job
    | _ => false

/-- Starts a run if the driver says so. -/
def start (t : Timetable) (i : Nat) (job : PlannedJob) : Option Nat → Timetable
  | none => t
  | some run =>
    let w := t.kernel.world
    let failure := (job.failures[worked w job.name]?).join
    { t with
      runs := t.runs ++ [i]
      kernel := t.kernel.spawn run w.now
        (Lock.run t.owner job.name t.ttl (timedWork job.duration failure)) }

/-- Gives an input to the driver of a job. -/
def feed (t : Timetable) (i : Nat) (input : Schedule.Driver.Input) : Timetable :=
  match t.jobs[i]? with
  | none => t
  | some j =>
    let (driver, run) := j.driver.step input
    let since := if run.isSome then t.kernel.world.now else j.since
    ({ t with jobs := t.jobs.set i { j with driver, since } }).start i j.job run

/-- Tells the drivers of the runs that have ended. -/
def settle (t : Timetable) : Timetable :=
  let (ended, kernel) := t.kernel.reap
  ended.foldl (fun t (run, _, _) ↦
    t.feed (t.runs.getD run 0) (.ended run t.runs.length)) { t with kernel }

/-- When the next tick is taken, and of which job. -/
def nextTick? (t : Timetable) : Option (Nat × Moment) :=
  Moment.earliest? (t.jobs.map fun j ↦
    (j.driver.nextTick? t.kernel.world.now).map fun time ↦ ⟨time, j.since⟩)

/-- Takes a tick. -/
def tick (t : Timetable) (i time : Nat) : Timetable :=
  let t := { t with kernel := { t.kernel with world := t.kernel.world.atTime time } }
  t.feed i (.tick time t.runs.length)

/-- Lets a thread or a renewal go on. -/
def goOn (t : Timetable) (fuel : Nat) : Timetable :=
  ({ t with kernel := t.kernel.step fuel }).settle

/-- Lets things happen up to the signal; a tick comes before a run of the same moment. -/
def runTo (shutdown : Nat) : (fuel : Nat) → Timetable → Timetable
  | 0, t => t
  | fuel + 1, t =>
    match t.kernel.next?, t.nextTick? with
    | none, none => t
    | some m, none => if m.time ≤ shutdown then runTo shutdown fuel (t.goOn fuel) else t
    | none, some (i, n) => if n.time < shutdown then runTo shutdown fuel (t.tick i n.time) else t
    | some m, some (i, n) =>
      if n.atMost m then
        if n.time < shutdown then runTo shutdown fuel (t.tick i n.time) else t
      else if m.time ≤ shutdown then runTo shutdown fuel (t.goOn fuel)
      else t

/-- Gives the signal to shut down. -/
def signal (t : Timetable) : Timetable :=
  (List.range t.jobs.length).foldl (fun t i ↦ t.feed i .shutdown) t

/-- Lets the runs under way end. The signal stays given, so a driver that listens again after it has
waited at a tick hears it, and goes by it rather than by another tick. -/
def finish : (fuel : Nat) → Timetable → Timetable
  | 0, t => t
  | fuel + 1, t =>
    if t.kernel.nextThread?.isNone then t
    else finish fuel (t.goOn fuel).signal

/-- Runs jobs until the signal at the given time, and lets the runs under way end. -/
def run (w : World) (owner : String) (ttl : Nat) (jobs : List PlannedJob) (shutdown fuel : Nat) :
    Timetable :=
  let t : Timetable := {
    kernel := { world := w }, owner, ttl
    jobs := jobs.map fun job ↦
      ⟨job, { ticker := .start job.period w.now, waits := job.waits }, w.now⟩ }
  let t := t.runTo shutdown fuel
  let t := { t with kernel := { t.kernel with world := t.kernel.world.atTime shutdown } }
  t.signal.finish fuel

/-- The names of the jobs that worked, when they began and when they ended. -/
def spans (t : Timetable) : List (String × Nat × Nat) :=
  (workSpans t.kernel.world).map fun (run, start, finish) ↦
    (((t.jobs[t.runs.getD run 0]?).map (·.job.name)).getD "", start, finish)

end Timetable

end NodeInventory.Simulation
