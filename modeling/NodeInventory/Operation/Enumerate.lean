import NodeInventory.Program
import NodeInventory.Task

/-!
# Queueing the nodes of the cluster

The nodes are listed part by part, and a task is queued for every part that is not empty. That a
task cannot be queued does not stop the listing; that the listing fails ends everything at once.
-/

namespace NodeInventory.Task

/-- Queues a task. -/
def push (queue : String) (task : Task) : Action (Result Unit) := do
  match ← Action.pushValue queue task.encode with
  | .error f => pure (.error (.context "error queuing node batch" f))
  | .ok () =>
    Action.count .tasksEnqueued
    pure (.ok ())

/-- Queues the nodes of a part of the listing. -/
def pushPage (queue : String) (nodes : List Node) : Action (List (Result Unit)) :=
  match nodes with
  | [] => pure []
  | nodes => do
    let result ← push queue (nodeBatch (nodes.map Node.name))
    pure [result]

/-- Queues the nodes of a part of the listing, after the results so far, and goes on with the part
after it. -/
def pushNext (queue : String) (s : Option String × List (Result Unit))
    (answer : Result (Page Node)) :
    Action ((Option String × List (Result Unit)) ⊕ Result Unit) :=
  match answer with
  | .error f => .done (.inr (.error (.query f)))
  | .ok page => do
    let pushed ← pushPage queue page.items
    let results := s.2 ++ pushed
    match page.next with
    | some token => pure (.inl (some token, results))
    | none => pure (.inr (Failure.join results))

/-- Queues all nodes of the cluster, a task for each part of the listing. -/
def enqueueAll (queue : String) (pageSize : Nat) : Program (Result Unit) :=
  .loop (fun (s : Option String × List (Result Unit)) ↦ .listNodes s.1 pageSize) (pushNext queue)
    (none, []) .done

end NodeInventory.Task
