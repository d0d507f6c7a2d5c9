import NodeInventory.Program

/-!
# Runs under a lock

A job runs on one instance at a time: whoever sets the key of the job runs it, extends the key while
the run lasts, and removes it afterwards. A key that is not removed ends by itself. An instance that
does not get the key leaves the run out.

A failing run is reported, and so is failing to set or to remove the key.
-/

namespace NodeInventory

/-- What became of a run. -/
inductive RunOutcome
  | skipped | completed | failed
deriving DecidableEq, Repr

/-- The word for what became of a run. -/
def RunOutcome.name : RunOutcome → String
  | skipped => "Skipped"
  | completed => "Completed"
  | failed => "Failed"

namespace Lock

/-- The key that locks a job. -/
def key (job : String) : String := "job_lock:" ++ job

/-- Tries to lock a job, and begins to extend the key if it was set. -/
def acquire (owner job : String) (ttl : Nat) : Action (Result Bool) := do
  match ← Action.setKey (key job) owner ttl with
  | .error f => pure (.error (.context "error acquiring job lock" f))
  | .ok false => pure (.ok false)
  | .ok true =>
    Action.startRenewal (key job) ttl
    pure (.ok true)

/-- Unlocks a job. Extending stops before the key is removed. -/
def release (job : String) : Action (Result Unit) := do
  Action.stopRenewal (key job)
  let answer ← Action.deleteKey (key job)
  pure (answer.within "error releasing job lock")

/-- Runs a job, if it can be locked. -/
def run (owner job : String) (ttl : Nat) (work : Program (Result Unit)) : Program RunOutcome := do
  match ← (acquire owner job ttl : Program (Result Bool)) with
  | .error f =>
    (Action.report .scheduler job f : Program Unit)
    pure .skipped
  | .ok false =>
    (Action.count (.jobSkips job) : Program Unit)
    pure .skipped
  | .ok true =>
    (Action.count (.jobRuns job) : Program Unit)
    let result ← work
    (Action.reportFailure .scheduler job result : Program Unit)
    let released ← (release job : Program (Result Unit))
    (Action.reportFailure .scheduler job released : Program Unit)
    pure (match result with
      | .ok () => .completed
      | .error _ => .failed)

end Lock

end NodeInventory
