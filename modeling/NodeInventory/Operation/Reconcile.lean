import NodeInventory.Action

/-!
# Reconciling a record with a snapshot

A record is written only when its status or its accounting differs from the snapshot. The write
carries the version that was read, so it is refused if somebody else has written since; it is then
tried again from a new reading, a bounded number of times. The metadata of the record is kept.

The registry is told of every change, and of nodes that are to be registered. What it answers
changes nothing here: failures are counted and reported.
-/

namespace NodeInventory

/-- How often an update is tried, and how long to wait between. At least one attempt is made. -/
structure RetryPolicy where
  attempts : Nat
  /-- In milliseconds. -/
  delay : Nat
deriving DecidableEq, Repr

/-- What became of a record. -/
inductive Reconciliation
  | created
  /-- Somebody else had created the record. -/
  | alreadyPresent
  | updated
  | unchanged
deriving DecidableEq, Repr

namespace Reconciliation

/-- The word for what became of a record. -/
def name : Reconciliation → String
  | created => "Created"
  | alreadyPresent => "AlreadyPresent"
  | updated => "Updated"
  | unchanged => "Unchanged"

end Reconciliation

namespace Fleet

/-- Calls the registry for its effect, and counts failing. -/
def perform (call : Call) : Action (Result Unit) := do
  match done (← Action.callFleet call) with
  | .ok () => pure (.ok ())
  | .error f =>
    Action.count .fleetCallErrors
    pure (.error f)

/-- Calls the registry for the code of its answer, and counts failing. -/
def question (call : Call) : Action (Result Int) := do
  match codeOf (← Action.callFleet call) with
  | .ok code => pure (.ok code)
  | .error f =>
    Action.count .fleetCallErrors
    pure (.error f)

/-- Calls the registry for its effect. Failing is counted and reported, and stops nothing. -/
def tell (source : Report.Source) (subject : String) (call : Call) : Action Unit := do
  let result ← perform call
  Action.reportFailure source subject result

end Fleet

namespace Record

/-- Whether a stored spec differs from a snapshot in what a record is written for. -/
def needsUpdate (stored snapshot : Spec) : Bool :=
  stored.status != snapshot.status || stored.resources.size != snapshot.resources.size ||
    snapshot.resources.toList.any fun e ↦ stored.resources.get? e.1 != some e.2

/-- Reads a record, with a context for a failure. -/
def fetch (name : String) : Action (Result (Option Record)) := do
  let answer ← Action.fetchRecord name
  pure (answer.within "error fetching NodeResourceInfo")

/-- Registers the node of the given name with a spec. -/
def register (clusterId name : String) (spec : Spec) (outcome : Reconciliation) :
    Action (Result Reconciliation) := do
  Fleet.tell .reconciler name (.add (.ofSpec clusterId spec))
  pure (.ok outcome)

/-- Sees to it that there is a record for a snapshot, and registers the node: as the record has it
that was there before, or else as the snapshot has it. -/
def create (clusterId : String) (snapshot : Spec) : Action (Result Reconciliation) := do
  let name := snapshot.nodeName
  match ← fetch name with
  | .error f => pure (.error f)
  | .ok (some existing) => register clusterId name existing.spec .alreadyPresent
  | .ok none =>
    match ← Action.createRecord (ofSpec snapshot) with
    | .ok () =>
      Action.count .recordsCreated
      register clusterId name snapshot .created
    | .error f =>
      if f.isAlreadyExists then register clusterId name snapshot .alreadyPresent
      else pure (.error (.context ("error creating NodeResourceInfo " ++ name) f))

/-- Reads the record of a node, and writes it if it differs from a snapshot. What follows when the
write meets a conflict is for the caller to say. -/
def attempt (clusterId : String) (snapshot : Spec)
    (onConflict : Failure → Action (Result Reconciliation)) : Action (Result Reconciliation) := do
  let name := snapshot.nodeName
  match ← fetch name with
  | .error f => pure (.error f)
  | .ok none => create clusterId snapshot
  | .ok (some existing) =>
    if !needsUpdate existing.spec snapshot then pure (.ok .unchanged)
    else
      match existing.metadata.resourceVersion with
      | none =>
        pure (.error (.plain ("stored NodeResourceInfo " ++ name ++ " has no resource version")))
      | some version =>
        match ← Action.updateRecord { existing with spec := snapshot } version with
        | .ok () =>
          Action.count .recordsUpdated
          Fleet.tell .reconciler name (.update (.ofSpec clusterId snapshot))
          pure (.ok .updated)
        | .error f =>
          if f.isConflict then
            Action.count .updateConflicts
            onConflict f
          else pure (.error (.context ("error updating NodeResourceInfo " ++ name) f))

/-- Brings the record of a node in line with a snapshot, when `made` attempts met conflicts and
`left` more than one may follow. -/
def reconcileAfter (clusterId : String) (delay : Nat) (snapshot : Spec) :
    (left made : Nat) → Action (Result Reconciliation)
  | 0, made => attempt clusterId snapshot fun f ↦
    pure (.error (.context ("giving up updating NodeResourceInfo " ++ snapshot.nodeName ++
      " after " ++ toString (made + 1) ++ " attempts") f))
  | left + 1, made => attempt clusterId snapshot fun _ ↦ do
    Action.pause delay
    reconcileAfter clusterId delay snapshot left (made + 1)

/-- Brings the record of a node in line with a snapshot. -/
def reconcile (clusterId : String) (retry : RetryPolicy) (snapshot : Spec) :
    Action (Result Reconciliation) :=
  reconcileAfter clusterId retry.delay snapshot (retry.attempts - 1) 0

end Record

end NodeInventory
