import NodeInventory.Operation.Dispatch
import NodeInventory.Simulation.Kernel
import NodeInventory.Worker

/-!
# Workers in a world

A pool of workers on one queue. A worker that begins to wait for a task may be directed like any
other request, and takes a task as soon as there is one; of several the first in order takes it. A
task is handled by a thread of its own. After the signal to shut down no worker takes a task.
-/

namespace NodeInventory.Simulation

/-- A worker, with what it needs for its next step. -/
structure Desk where
  worker : Worker := .waiting
  /-- When the rest is over, or when the direction for taking a task is to be followed. -/
  ready : Nat := 0
  /-- The direction for taking a task, until it has been followed. -/
  direction : Option Direction := none

/-- Workers on a queue. -/
structure Pool : Type 1 where
  kernel : Kernel (Result Unit)
  queue : String
  handlers : Task.Handlers
  desks : List Desk
  shut : Bool := false

namespace Pool

/-- Notes what a worker counts and reports. -/
def noteAll (agent : Nat) (requests : List Request) (w : World) : World :=
  requests.foldl (fun w r ↦ w.note agent r) w

/-- Gives an input to a worker. -/
def feed (p : Pool) (i : Nat) (desk : Desk) (input : Worker.Input) : Pool :=
  match desk.worker.step p.queue input with
  | none => p
  | some (worker, requests) =>
    let world := noteAll i requests p.kernel.world
    { p with
      kernel := { p.kernel with world }
      desks := p.desks.set i { worker, ready := world.now } }

/-- Lets a worker begin to wait for a task, which is when a direction for it is taken; after the
signal it stops instead. -/
def listen (p : Pool) (i : Nat) : Pool :=
  match p.desks[i]? with
  | none => p
  | some desk =>
    if p.shut then p.feed i desk .shutdown
    else
      let (d, script) := p.kernel.world.script.take ("blpop:" ++ p.queue)
      let world := { p.kernel.world with script }
      { p with
        kernel := { p.kernel with world }
        desks := p.desks.set i
          { desk with direction := some d, ready := world.now + d.delay } }

/-- Lets a worker follow the direction for taking a task. -/
def follow (p : Pool) (i : Nat) (desk : Desk) (d : Direction) : Pool :=
  let p := { p with
    kernel := { p.kernel with world := p.kernel.world.interfere d }
    desks := p.desks.set i { desk with direction := none } }
  match d.failure with
  | none => p
  | some f =>
    let p := p.feed i desk (.popFailed f)
    { p with desks := p.desks.modify i fun desk ↦
      { desk with ready := p.kernel.world.now + Worker.restMillis } }

/-- Lets a worker take a task, if there is one. -/
def pop (p : Pool) (i : Nat) (desk : Desk) : Option Pool :=
  match p.kernel.world.coordination.pop? p.queue with
  | none => none
  | some (raw, coordination) =>
    let world := { p.kernel.world with coordination }
    let p := ({ p with kernel := { p.kernel with world } }).feed i desk (.popped raw)
    some { p with kernel := p.kernel.spawn i world.now (Task.dispatch p.handlers raw) }

/-- What a worker can do now, if anything. -/
def act? (p : Pool) (i : Nat) : Option Pool :=
  match p.desks[i]? with
  | none => none
  | some desk =>
    let due := desk.ready ≤ p.kernel.world.now
    match desk.worker, desk.direction with
    | .waiting, some d => if due then some (p.follow i desk d) else none
    | .waiting, none => p.pop i desk
    | .resting, _ => if due then some ((p.feed i desk .rested).listen i) else none
    | .handling _, _ | .stopped, _ => none

/-- What some worker can do now, the first that can do anything. -/
def actFirst? (p : Pool) : Option Pool := (List.range p.desks.length).findSome? p.act?

/-- Hands the results of tasks to their workers, who begin to wait again. -/
def settle (p : Pool) : Pool :=
  let (ended, kernel) := p.kernel.reap
  ended.foldl (fun p (agent, _, result) ↦
    match p.desks[agent]? with
    | none => p
    | some desk => (p.feed agent desk (.handled result)).listen agent) { p with kernel }

/-- When a worker goes on by itself. -/
def Desk.due? (desk : Desk) : Option Nat :=
  match desk.worker, desk.direction with
  | .waiting, some _ | .resting, _ => some desk.ready
  | _, _ => none

/-- When something happens next. -/
def nextTime? (p : Pool) : Option Nat :=
  let times := (p.kernel.next?.map (·.time)).toList ++ p.desks.filterMap Desk.due?
  times.min?

/-- Lets things happen that happen before a time, or for ever if there is none, in at most `fuel`
steps. -/
def run (before : Option Nat) : (fuel : Nat) → Pool → Pool
  | 0, p => p
  | fuel + 1, p =>
    match p.actFirst? with
    | some p => run before fuel p
    | none =>
      match p.nextTime? with
      | none => p
      | some time =>
        if before.any (· ≤ time) then p
        else
          let world := p.kernel.world.atTime time
          let kernel := { p.kernel with world }
          if kernel.next?.any (·.time == time) then
            run before fuel ({ p with kernel := kernel.step fuel }).settle
          else run before fuel { p with kernel }

/-- Gives all workers the signal to shut down. -/
def shutDown (p : Pool) (time : Nat) : Pool :=
  let p := { p with kernel := { p.kernel with world := p.kernel.world.atTime time }, shut := true }
  (List.range p.desks.length).foldl (fun p i ↦
    match p.desks[i]? with
    | none => p
    | some desk => p.feed i desk .shutdown) p

/-- Runs a number of workers for a time, shuts them down, and lets them end. -/
def work (w : World) (handlers : Task.Handlers) (queue : String)
    (count millis fuel : Nat) : World :=
  let pool : Pool := { kernel := ⟨w, [], []⟩, queue, handlers, desks := List.replicate count {} }
  let pool := (List.range count).foldl listen pool
  let finish := w.now + millis
  let pool := (run (some finish) fuel pool).shutDown finish
  (run none fuel pool).kernel.world

end Pool

end NodeInventory.Simulation
