import NodeInventory.Operation.Sweep
import NodeInventory.Snapshot
import NodeInventory.Task

/-!
# Working off tasks

A batch of names is worked off in three steps: the nodes of the names are looked up in one question,
the record of each node found is reconciled with a snapshot of it, and the records of the names
without a node are removed. No item stops another; the failures of all of them are joined, those of
the removals as one. An item that is stopped on the way, as a calculation is that leaves its words,
counts as one that failed.

A task is handed to whoever handles its type. The handlers are a function, so a type without a
handler is one on which it has no value.
-/

namespace NodeInventory

/-- What the operations on nodes and records are to know. -/
structure Duties where
  clusterId : String
  retry : RetryPolicy
  /-- The resources that snapshots account for. -/
  tracked : List String
  /-- How many items of a batch run at once. -/
  parallelism : Int
  /-- How many nodes and how many records to list at a time. -/
  nodePageSize : Nat
  recordPageSize : Nat
  /-- The list that holds the queued tasks. -/
  queue : String
  wording : Wording

/-- What is done about tasks of each type. -/
structure Task.Handlers where
  wording : Wording
  handle : Task → Option (Program (Result Unit))

namespace Duties

variable (d : Duties)

/-- The snapshot of a node, with the pods that the cluster says are bound to it. -/
def snapshot (node : Node) : Action (Calculation (Result Spec)) := do
  match ← Action.listPods node.name with
  | .error f => pure (.exact (.error (.query f)))
  | .ok pods => pure (Snapshot.build node pods d.tracked)

/-- Brings the record of a node in line with the node. -/
def refresh (node : Node) : Action (Result Unit) := do
  match ← d.snapshot node with
  | .overrun =>
    pure (.error (.context "error joining bounded task" (.plain (d.wording.aborted node.name))))
  | .exact (.error f) =>
    pure (.error (.context ("error building snapshot of node " ++ node.name) f))
  | .exact (.ok spec) => do
    let outcome ← Record.reconcile d.clusterId d.retry spec
    pure (outcome.map fun _ ↦ ())

/-- Works off a batch of names. -/
def handleNodeBatch (names : List String) : Program (Result Unit) :=
  Program.ask (.findNodes names) fun (answer : Result (List Node)) ↦
    match answer with
    | .error f => pure (.error (.query f))
    | .ok nodes =>
      Program.batch d.parallelism (nodes.map d.refresh) fun results ↦
        match Node.missingNames names nodes with
        | [] => pure (Failure.join results)
        | orphans => do
          let removal ← Record.deleteOrphans d.clusterId d.parallelism orphans
          pure (Failure.join (results ++ [removal]))

/-- The handlers of all types of tasks. -/
def handlers : Task.Handlers where
  wording := d.wording
  handle
    | .nodeBatch names => some (d.handleNodeBatch names)

end Duties

/-- Reads a task and hands it to its handler. -/
def Task.dispatch (handlers : Task.Handlers) (raw : String) : Program (Result Unit) :=
  match Task.decode handlers.wording raw with
  | .error f => pure (.error f)
  | .ok task =>
    match handlers.handle task with
    | none => pure (.error (.unknownTask task.type))
    | some handling => do
      let result ← handling
      pure (result.within ("error handling " ++ task.type ++ " task"))

end NodeInventory
