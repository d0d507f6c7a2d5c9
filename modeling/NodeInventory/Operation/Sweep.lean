import NodeInventory.Cluster.Names
import NodeInventory.Operation.Reconcile
import NodeInventory.Program

/-!
# Sweeping records without a node

All records are listed, the nodes of their names are looked up in one question, and the records of
names without a node are removed, each whatever becomes of the others. A record that is already gone
counts as removed. The registry is told of every node whose record was removed.
-/

namespace NodeInventory.Record

/-- Takes the names from a part of the listing, after the names so far, and goes on with the part
after it. -/
def collectNames (s : Option String × List String) (answer : Result (Page Record)) :
    Action ((Option String × List String) ⊕ Result (List String)) :=
  match answer with
  | .error f => .done (.inr (.error (.context "error listing NodeResourceInfo records" f)))
  | .ok page =>
    let names := s.2 ++ page.items.map (·.spec.nodeName)
    match page.next with
    | some token => .done (.inl (some token, names))
    | none => .done (.inr (.ok names))

/-- Lists the names of all records, part by part. -/
def listNames (pageSize : Nat) : Program (Result (List String)) :=
  .loop (fun (s : Option String × List String) ↦ .listRecords s.1 pageSize) collectNames
    (none, []) .done

/-- Removes the record of a node that is gone. -/
def deleteOrphan (clusterId name : String) : Action (Result Unit) := do
  match ← Action.deleteRecord name with
  | .ok () =>
    Action.count .recordsDeleted
    Fleet.tell .collector name (.delete ⟨name, clusterId⟩)
    pure (.ok ())
  | .error f =>
    if f.isNotFound then
      Fleet.tell .collector name (.delete ⟨name, clusterId⟩)
      pure (.ok ())
    else pure (.error (.context ("error deleting NodeResourceInfo " ++ name) f))

/-- Removes the records of nodes that are gone. -/
def deleteOrphans (clusterId : String) (parallelism : Int) (names : List String) :
    Program (Result Unit) :=
  .joined parallelism (names.map (deleteOrphan clusterId))

/-- Removes all records of which no node lives. -/
def sweep (clusterId : String) (pageSize : Nat) (parallelism : Int) : Program (Result Unit) := do
  match ← listNames pageSize with
  | .error f => pure (.error f)
  | .ok [] => pure (.ok ())
  | .ok names =>
    Program.ask (.findNodes names) fun (answer : Result (List Node)) ↦
      match answer with
      | .error f => pure (.error (.query (.context "error checking for live nodes" f)))
      | .ok live => deleteOrphans clusterId parallelism (Node.missingNames names live)

end NodeInventory.Record
