import NodeInventory.Operation.Sweep

/-!
# Heartbeats

The registry is asked about every node that has a record. One that it does not know is registered
again as the record has it, unless the record is gone by then. The records are not changed by what
the registry says.
-/

namespace NodeInventory.Record

/-- Asks the registry about a node. -/
def askFleet (clusterId name : String) : Action (Result Int) := do
  let code ← Fleet.question (.heartbeat ⟨name, clusterId⟩)
  pure (code.within ("error sending heartbeat for " ++ name))

/-- Asks the registry about a node, and registers it if it is unknown. -/
def heartbeat (clusterId name : String) : Action (Result Unit) := do
  match ← askFleet clusterId name with
  | .error f => pure (.error f)
  | .ok code =>
    if code ≠ Fleet.unknownNode then pure (.ok ())
    else
      match ← fetch name with
      | .error f => pure (.error f)
      | .ok none => pure (.ok ())
      | .ok (some record) =>
        Action.count .selfHeals
        let outcome ← create clusterId record.spec
        pure (outcome.map fun _ ↦ ())

/-- Asks the registry about the nodes of all records. -/
def beat (clusterId : String) (pageSize : Nat) (parallelism : Int) : Program (Result Unit) := do
  match ← listNames pageSize with
  | .error f => pure (.error f)
  | .ok names => Program.joined parallelism (names.map (heartbeat clusterId))

end NodeInventory.Record
