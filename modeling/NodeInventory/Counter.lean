import NodeInventory.Report

/-!
# Counters

What the program counts of its own doing. A counter has a name and may have a label that tells its
series apart.
-/

namespace NodeInventory

/-- A series of a counter. -/
inductive Counter
  | recordsCreated
  | recordsUpdated
  | recordsDeleted
  /-- Updates refused because the record had changed since it was read. -/
  | updateConflicts
  | fleetCallErrors
  /-- Nodes entered into the registry again which it had lost. -/
  | selfHeals
  | tasksProcessed (ok : Bool)
  | tasksEnqueued
  | jobRuns (job : String)
  /-- Runs left out because the lock was held elsewhere. -/
  | jobSkips (job : String)
  | reportedErrors (source : Report.Source)
deriving DecidableEq, Repr

namespace Counter

/-- The name of a counter, without what all names begin with. -/
def name : Counter → String
  | recordsCreated => "records_created"
  | recordsUpdated => "records_updated"
  | recordsDeleted => "records_deleted"
  | updateConflicts => "update_conflicts"
  | fleetCallErrors => "fleet_call_errors"
  | selfHeals => "self_heals"
  | tasksProcessed _ => "tasks_processed"
  | tasksEnqueued => "tasks_enqueued"
  | jobRuns _ => "job_runs"
  | jobSkips _ => "job_skips"
  | reportedErrors _ => "reported_errors"

/-- The label of a series, and its value. -/
def label : Counter → Option (String × String)
  | tasksProcessed ok => some ("outcome", if ok then "ok" else "error")
  | jobRuns job | jobSkips job => some ("job", job)
  | reportedErrors source => some ("source", source.name)
  | _ => none

/-- The text of a series: the name, and the label in braces. -/
def series (c : Counter) : String :=
  match c.label with
  | none => c.name
  | some (label, value) => c.name ++ "\x7b" ++ label ++ "=" ++ value ++ "\x7d"

/-- What all names begin with. -/
def family : String := "opsflow_operator_"

/-- What a counter counts. -/
structure Description where
  name : String
  unit : String
  text : String
deriving DecidableEq, Repr

/-- The descriptions of all counters. -/
def descriptions : List Description :=
  [(recordsCreated, "the number of NodeResourceInfo records created"),
    (recordsUpdated, "the number of NodeResourceInfo records updated"),
    (recordsDeleted, "the number of orphaned NodeResourceInfo records deleted"),
    (updateConflicts, "the number of record updates rejected for a stale resource version"),
    (fleetCallErrors, "the number of failed calls to the fleet service"),
    (selfHeals, "the number of nodes re-registered with the fleet service"),
    (tasksProcessed true, "the number of queue tasks processed, labelled by outcome"),
    (tasksEnqueued, "the number of node batch tasks pushed to the queue"),
    (jobRuns "", "the number of scheduled job runs executed by this instance"),
    (jobSkips "", "the number of scheduled job runs skipped as the job lock was held elsewhere"),
    (reportedErrors .worker,
      "the number of tolerated errors routed through the error reporter")].map fun (c, text) ↦ ⟨family ++ c.name, "count", text⟩

end Counter

end NodeInventory
