import NodeInventory.Operation.Locked
import NodeInventory.Simulation.Kernel

/-!
# Locks in a world

Locks that are taken, held, given up and forgotten in virtual time, and jobs of known length that
run under them. A lock that is held is extended in the background until it is given up; one that is
forgotten is left to end by itself.
-/

namespace NodeInventory.Simulation

/-! ## Held locks -/

/-- A lock that somebody holds. -/
structure Guard where
  /-- What the holder calls it. -/
  name : String
  job : String
  /-- The agent as whom the key is extended. -/
  agent : Nat

/-- A world in which locks are held. -/
structure LockRoom : Type 1 where
  kernel : Kernel (Result Bool)
  guards : List Guard := []
  nextAgent : Nat := 0

/-- What is done with locks. -/
inductive LockRoom.Step
  | acquire (guard owner job : String) (ttl : Nat)
  | release (guard : String)
  /-- Forget a lock without giving it up. -/
  | forget (guard : String)
  | sleep (millis : Nat)
  | read (key : String)
  /-- Remove a key without a lock. -/
  | remove (key : String)

/-- What comes of it. -/
inductive LockRoom.Outcome
  | acquired (result : Result Bool)
  | released (result : Result Unit)
  | noGuard
  | forgotten (held : Bool)
  | value (value : Option String)
  | nothing

namespace LockRoom

/-- Forgets the locks of a name: nothing extends their keys any more. -/
def forget (r : LockRoom) (guard : String) : LockRoom :=
  let gone := r.guards.filter (·.name == guard)
  { r with
    guards := r.guards.filter (·.name != guard)
    kernel := { r.kernel with
      renewals := r.kernel.renewals.filter fun x ↦ !gone.any (·.agent == x.agent) } }

/-- Runs an action as an agent to its end. -/
def runAction (r : LockRoom) (fuel agent : Nat) (a : Action (Result Bool)) :
    LockRoom × Option (Result Bool) :=
  let k := (r.kernel.spawn agent r.kernel.world.now (Program.ofAction a)).runAll fuel
  let (ended, kernel) := k.reap
  ({ r with kernel }, ended.head?.map fun (_, _, a) ↦ a)

/-- Takes a step. -/
def perform (fuel : Nat) (r : LockRoom) : Step → LockRoom × Outcome
  | .acquire guard owner job ttl =>
    let agent := r.nextAgent
    let r := { r with nextAgent := agent + 1 }
    match r.runAction fuel agent (Lock.acquire owner job ttl) with
    | (r, some (.ok true)) =>
      let r := r.forget guard
      ({ r with guards := r.guards ++ [⟨guard, job, agent⟩] }, .acquired (.ok true))
    | (r, some result) => (r, .acquired result)
    | (r, none) => (r, .nothing)
  | .release guard =>
    match r.guards.find? (·.name == guard) with
    | none => (r, .noGuard)
    | some g =>
      let r := { r with guards := r.guards.filter (·.name != guard) }
      let release : Action (Result Bool) := do
        let result ← Lock.release g.job
        pure (result.map fun _ ↦ true)
      match r.runAction fuel g.agent release with
      | (r, some result) => (r, .released (result.map fun _ ↦ ()))
      | (r, none) => (r, .nothing)
  | .forget guard => (r.forget guard, .forgotten (r.guards.any (·.name == guard)))
  | .sleep millis =>
    ({ r with kernel := r.kernel.runTo (r.kernel.world.now + millis) fuel }, .nothing)
  | .read key => (r, .value (r.kernel.world.coordination.value? r.kernel.world.now key))
  | .remove key =>
    let world := r.kernel.world
    let world := { world with coordination := world.coordination.delete key }
    ({ r with kernel := { r.kernel with world } }, .nothing)

end LockRoom

/-! ## Runs -/

/-- A run of a job that takes a known time. -/
structure PlannedRun where
  /-- When the run is tried. -/
  time : Nat
  owner : String
  job : String
  duration : Nat
  ttl : Nat
  /-- The failure of the job, if it fails. -/
  failure : Option Failure

/-- A job that takes time and fails or not. -/
def timedWork (duration : Nat) (failure : Option Failure) : Program (Result Unit) := do
  Program.ask (.pause duration) .done
  match failure with
  | none => pure (.ok ())
  | some f => pure (.error f)

/-- Tries runs at their times, and lets all of them end. -/
def runPlanned (w : World) (runs : List PlannedRun) (fuel : Nat) : Kernel RunOutcome :=
  let k : Kernel RunOutcome := runs.zipIdx.foldl (fun k (r, i) ↦
    k.spawn i r.time (Lock.run r.owner r.job r.ttl (timedWork r.duration r.failure))) { world := w }
  k.runAll fuel

/-- Who worked, when they began and when they ended. -/
def workSpans (w : World) : List (Nat × Nat × Nat) :=
  w.events.reverse.filterMap fun e ↦
    match e.request with
    | .pause millis => some (e.agent, e.time, e.time + millis)
    | _ => none

end NodeInventory.Simulation
