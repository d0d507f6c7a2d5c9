import NodeInventory.Failure
import NodeInventory.Json.Basic

/-!
# Reports of failures

Some failures stop nothing: the registry did not hear of a change, a task could not be handled, a
run of a job failed. They are reported with the part of the program that met them and with what they
are about, and end up in the log.

Reports pass through a channel from which the log is written. When nobody reads the channel any
more, whoever reports writes to the log directly, so nothing is lost.
-/

namespace NodeInventory

/-- The parts of the program that report failures. -/
inductive Report.Source
  | reconciler | collector | worker | scheduler
deriving DecidableEq, Repr

/-- The word for a part of the program. -/
def Report.Source.name : Report.Source → String
  | reconciler => "reconciler"
  | collector => "gc"
  | worker => "worker"
  | scheduler => "scheduler"

/-- A failure that was met and stopped nothing. -/
structure Report where
  source : Report.Source
  /-- The node, task, queue or job that the failure is about. -/
  subject : String
  failure : Failure

namespace Report

/-- A report as a line of the log. -/
def logLine (r : Report) : Json :=
  .record [("level", .text "ERROR"), ("fields", .record [
    ("message", .text "operation failed"), ("source", .text r.source.name),
    ("subject", .text r.subject), ("error", .text r.failure.text)])]

/-- Who is at the other end of the channel. -/
inductive Receiver
  /-- The writer of the log. -/
  | logger
  /-- Somebody else. -/
  | reader
  /-- Nobody. -/
  | nobody
deriving DecidableEq, Repr

/-- Where reports end up: with a reader of the channel, and in the log. -/
def deliver (receiver : Receiver) (reports : List Report) : List Report × List Report :=
  match receiver with
  | .logger | .nobody => ([], reports)
  | .reader => (reports, [])

/-- Every report ends up in exactly one place. -/
theorem length_deliver (receiver : Receiver) (reports : List Report) :
    (deliver receiver reports).1.length + (deliver receiver reports).2.length = reports.length := by
  cases receiver <;> simp [deliver]

end Report

end NodeInventory
