import NodeInventory.Request

/-!
# Workers

A worker takes one task after another off the queue and hands each to its handler. What becomes of a
task is counted, and reported if it is a failure. When nothing can be taken off the queue the worker
reports that and rests. The signal to shut down reaches a worker while it waits for a task or rests;
a task that it holds is always worked off first.
-/

namespace NodeInventory

/-- What a worker is doing. -/
inductive Worker
  /-- Waiting for a task. -/
  | waiting
  /-- Working off a task. -/
  | handling (raw : String)
  /-- Resting after the queue failed. -/
  | resting
  | stopped
deriving DecidableEq, Repr

namespace Worker

/-- What happens to a worker. -/
inductive Input
  /-- The queue gives a task. -/
  | popped (raw : String)
  /-- The queue fails. -/
  | popFailed (failure : Failure)
  /-- The task is worked off. -/
  | handled (result : Result Unit)
  /-- The rest is over. -/
  | rested
  /-- The signal to shut down arrives. -/
  | shutdown

/-- How long a worker rests, in milliseconds. -/
def restMillis : Nat := 1000

/-- What a worker does next, and what it counts and reports; nothing where the input has no place.
-/
def step (queue : String) : Worker → Input → Option (Worker × List Request)
  | waiting, .popped raw => some (handling raw, [])
  | waiting, .popFailed f => some (resting, [.report ⟨.worker, queue, f⟩])
  | waiting, .shutdown => some (stopped, [])
  | handling _, .handled (.ok ()) => some (waiting, [.count (.tasksProcessed true)])
  | handling raw, .handled (.error f) =>
    some (waiting, [.count (.tasksProcessed false), .report ⟨.worker, raw, f⟩])
  | resting, .rested => some (waiting, [])
  | resting, .shutdown => some (stopped, [])
  | _, _ => none

end Worker

end NodeInventory
