import NodeInventory.Schedule.Ticker

/-!
# Driving a job

A driver listens for the ticks of a job and starts a run for each. If the job is to wait for its
runs, the driver does not listen while a run is under way at a tick: it waits for the run to end and
starts the next one then. The signal to shut down is heard only by a driver that listens; after it
has heard the signal the driver takes no tick, and stops when the runs under way have ended. So a
driver that waits at a tick when the signal is given still starts a run, and where it then finds
both the signal and another tick it may go by either.
-/

namespace NodeInventory.Schedule

/-- What a driver is doing. -/
inductive Driver.Phase
  /-- Waiting for a tick or for the signal. -/
  | listening
  /-- Waiting, at a tick, for the runs under way. -/
  | blocked
  /-- Waiting, after it has heard the signal, for the runs under way. -/
  | draining
  | stopped
deriving DecidableEq, Repr

/-- A driver of a job. -/
structure Driver where
  ticker : Ticker
  /-- Whether a run has to end before the next one starts. -/
  waits : Bool
  phase : Driver.Phase := .listening
  /-- The runs under way, by number. -/
  inFlight : List Nat := []
deriving DecidableEq, Repr

namespace Driver

/-- What happens to a driver. -/
inductive Input
  /-- The tick that is due is taken; a run that starts gets the given number. -/
  | tick (now run : Nat)
  /-- A run ends; a run that starts gets the given number. -/
  | ended (run next : Nat)
  /-- The signal to shut down, which is lost on a driver that does not listen. -/
  | shutdown
deriving DecidableEq, Repr

/-- Hears the signal. -/
def hear (d : Driver) : Driver :=
  { d with phase := if d.inFlight.isEmpty then .stopped else .draining }

/-- Starts a run and listens again. -/
def startRun (d : Driver) (run : Nat) : Driver :=
  { d with phase := .listening, inFlight := d.inFlight ++ [run] }

/-- What a driver does, and the run that it starts if it starts one. -/
def step (d : Driver) : Input → Driver × Option Nat
  | .tick now run =>
    if d.phase = .listening then
      let d := { d with ticker := d.ticker.take now }
      if d.waits && !d.inFlight.isEmpty then ({ d with phase := .blocked }, none)
      else (d.startRun run, some run)
    else (d, none)
  | .ended run next =>
    let d := { d with inFlight := d.inFlight.erase run }
    match d.phase with
    | .blocked => if d.inFlight.isEmpty then (d.startRun next, some next) else (d, none)
    | .draining => (if d.inFlight.isEmpty then { d with phase := .stopped } else d, none)
    | .listening | .stopped => (d, none)
  | .shutdown =>
    match d.phase with
    | .listening => (d.hear, none)
    | .blocked | .draining | .stopped => (d, none)

/-- When a driver takes its next tick, at the earliest now. -/
def nextTick? (d : Driver) (now : Nat) : Option Nat :=
  if d.phase = .listening then some (max d.ticker.due now) else none

end Driver

end NodeInventory.Schedule
