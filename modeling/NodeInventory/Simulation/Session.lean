import NodeInventory.Operation.Enumerate
import NodeInventory.Operation.Heartbeat
import NodeInventory.Operation.Locked
import NodeInventory.Simulation.Pool

/-!
# Sessions in a world

A session is a sequence of steps, each of which runs an operation in the world that the steps before
have left, or changes that world from outside.
-/

namespace NodeInventory

/-- The jobs that run time and again. -/
inductive Job
  /-- Queue all nodes. -/
  | sync
  /-- Ask the registry about all records. -/
  | heartbeat
  /-- Remove the records without a node. -/
  | collection
deriving DecidableEq, Repr

namespace Job

/-- What a job does. -/
def program (d : Duties) : Job → Program (Result Unit)
  | sync => Task.enqueueAll d.queue d.nodePageSize
  | heartbeat => Record.beat d.clusterId d.recordPageSize d.parallelism
  | collection => Record.sweep d.clusterId d.recordPageSize d.parallelism

end Job

namespace Simulation

/-- Runs a program to its end, in at most `fuel` requests and as many steps. -/
def World.run {α : Type} (w : World) (fuel : Nat) (p : Program α) : World × Option α :=
  let k : Kernel α := (({ world := w } : Kernel α).spawn 0 w.now p).runAll fuel
  (k.world, (k.reap.1.head?).map fun (_, _, a) ↦ a)

/-- A step of a session. -/
inductive Step
  | reconcile (spec : Spec)
  | create (spec : Spec)
  | snapshot (node : Node)
  | sweep
  | deleteOrphans (names : List String)
  | beat
  | enqueue
  /-- Hand a text to the handlers. -/
  | dispatch (raw : String)
  /-- Hand a text to nobody. -/
  | dispatchUnhandled (raw : String)
  /-- Hand all queued texts to the handlers, one after another. -/
  | drain
  /-- Run a job under the lock of a name. -/
  | run (job : Job) (name owner : String) (ttl : Nat)
  | workers (count millis : Nat)
  | push (raw : String)
  | put (record : Record)
  | drop (name : String)
  | setCluster (nodes : List Node) (pods : List Pod)
  | setKey (key value : String) (ttl : Nat)
  | sleep (millis : Nat)

/-- What comes of a step. -/
inductive Outcome
  | reconciled (result : Result Reconciliation)
  | snapshot (result : Calculation (Result Spec))
  | finished (result : Result Unit)
  | drained (results : List (Result Unit))
  | ran (outcome : RunOutcome)
  | answered (answer : Bool)
  | nothing

/-- Runs a program for its value, as an outcome. -/
def World.runAs {α : Type} (w : World) (fuel : Nat) (outcome : α → Outcome) (p : Program α) :
    World × Outcome :=
  let (w, a) := w.run fuel p
  (w, (a.map outcome).getD .nothing)

/-- Hands all queued texts to the handlers, at most `fuel` of them. -/
def World.drain (d : Duties) (requests : Nat) : (fuel : Nat) → World → World × List (Result Unit)
  | 0, w => (w, [])
  | fuel + 1, w =>
    match w.coordination.pop? d.queue with
    | none => (w, [])
    | some (raw, coordination) =>
      let (w, result) := ({ w with coordination }).run requests (Task.dispatch d.handlers raw)
      let (w, results) := drain d requests fuel w
      (w, result.toList ++ results)

/-- Takes a step. -/
def World.perform (d : Duties) (fuel : Nat) (w : World) : Step → World × Outcome
  | .reconcile spec =>
    w.runAs fuel .reconciled (Program.ofAction (Record.reconcile d.clusterId d.retry spec))
  | .create spec => w.runAs fuel .reconciled (Program.ofAction (Record.create d.clusterId spec))
  | .snapshot node => w.runAs fuel .snapshot (Program.ofAction (d.snapshot node))
  | .sweep => w.runAs fuel .finished (Job.program d .collection)
  | .deleteOrphans names =>
    w.runAs fuel .finished (Record.deleteOrphans d.clusterId d.parallelism names)
  | .beat => w.runAs fuel .finished (Job.program d .heartbeat)
  | .enqueue => w.runAs fuel .finished (Job.program d .sync)
  | .dispatch raw => w.runAs fuel .finished (Task.dispatch d.handlers raw)
  | .dispatchUnhandled raw => w.runAs fuel .finished (Task.dispatch ⟨d.wording, fun _ ↦ none⟩ raw)
  | .drain =>
    let (w, results) := w.drain d fuel fuel
    (w, .drained results)
  | .run job name owner ttl => w.runAs fuel .ran (Lock.run owner name ttl (job.program d))
  | .workers count millis =>
    (Pool.work w d.handlers d.queue count millis fuel, .finished (.ok ()))
  | .push raw => ({ w with coordination := w.coordination.push d.queue raw }, .finished (.ok ()))
  | .put r => ({ w with store := w.store.put r }, .nothing)
  | .drop name =>
    let (store, result) := w.store.delete name
    ({ w with store }, .finished result)
  | .setCluster nodes pods => ({ w with nodes := World.nodesOf nodes, pods }, .nothing)
  | .setKey key value ttl =>
    let (coordination, set) := w.coordination.set w.now key value ttl
    ({ w with coordination }, .answered set)
  | .sleep millis => (w.atTime (w.now + millis), .nothing)

end Simulation

end NodeInventory
