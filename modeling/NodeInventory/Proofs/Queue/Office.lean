import Mathlib.Data.Bool.Count
import NodeInventory.Proofs.Pass.Drain
import NodeInventory.Proofs.Run

/-!
# An office that works off a queue

Any number of clerks take texts off one list, to which others push. Each clerk is a worker with what
is left to do of its task. Everything that happens is an event of its own: a text is pushed, the
signal to shut down is given, a clerk is told something, or it asks for something on behalf of its
task. Taking a text off the list and telling a clerk of it are one event, so of a text that is taken
some clerk always knows. A clerk that leaves while it waits takes nothing.

The events are all that is remembered of a run. What was pushed, taken and worked off is read off
them (`Event.pushed?`, `Event.popped?`, `Event.handled?`).
-/

namespace NodeInventory

/-! ## What a worker holds and notes -/

/-- The report that a request makes. -/
def Request.report? : Request → Option Report
  | report r => some r
  | _ => none

namespace Worker

/-- The text that a worker works off. -/
def held? : Worker → Option String
  | handling raw => some raw
  | _ => none

/-- What a worker notes of a text that is worked off: that it is, and the failure if there is one.
-/
def remarks (raw : String) : Result Unit → List Request
  | .ok () => [.count (.tasksProcessed true)]
  | .error f => [.count (.tasksProcessed false), .report ⟨.worker, raw, f⟩]

/-- Inputs that are not about a text. -/
def Input.isOther : Input → Bool
  | popped _ | handled _ => false
  | popFailed _ | rested | shutdown => true

/-- Whether it is noted that a text was worked off, and how that ended. -/
def processed? : Request → Option Bool
  | .count (.tasksProcessed ok) => some ok
  | _ => none

variable {queue raw : String} {worker worker' : Worker} {input : Input} {result : Result Unit}
  {notes : List Request}

theorem step_popped (h : worker.step queue (.popped raw) = some (worker', notes)) :
    worker = waiting ∧ worker' = handling raw ∧ notes = [] := by
  cases worker with
  | waiting => cases h; exact ⟨rfl, rfl, rfl⟩
  | handling | resting | stopped => cases h

theorem step_handled (h : worker.step queue (.handled result) = some (worker', notes)) :
    ∃ raw, worker = handling raw ∧ worker' = waiting ∧ notes = remarks raw result := by
  cases worker with
  | handling raw => cases result <;> cases h <;> exact ⟨raw, rfl, rfl, rfl⟩
  | waiting | resting | stopped => cases h

theorem step_other (hinput : input.isOther = true)
    (h : worker.step queue input = some (worker', notes)) :
    worker.held? = none ∧ worker'.held? = none ∧ notes.filterMap processed? = [] := by
  cases input with
  | popped | handled => cases hinput
  | popFailed | rested | shutdown =>
    cases worker <;> cases h <;> exact ⟨rfl, rfl, rfl⟩

theorem length_processed?_remarks (raw : String) (result : Result Unit) :
    ((remarks raw result).filterMap processed?).length = 1 := by
  cases result <;> rfl

end Worker

/-! ## The office -/

open Pass (Clerk)

/-- Clerks and the store with their list. -/
structure Office : Type 1 where
  coordination : KeyStore
  clerks : List Clerk
  /-- Whether the signal to shut down was given. -/
  shut : Bool := false

namespace Office

/-- What happens in an office. The clerks are numbered. -/
inductive Event
  | pushed (raw : String)
  | signalled
  /-- A clerk is told something as a worker in the given state, and notes something. -/
  | told (i : ℕ) (worker : Worker) (input : Worker.Input) (notes : List Request)
  /-- A clerk asks for something on behalf of its task. -/
  | asked (i : ℕ) (exchange : Exchange)

variable (queue : String) (handlers : Task.Handlers)

/-- Something happens. -/
inductive Step : Office → Event → Office → Prop
  | pushed (s : Office) (raw : String) :
    Step s (.pushed raw) { s with coordination := s.coordination.push queue raw }
  | signalled (s : Office) : Step s .signalled { s with shut := true }
  /-- A clerk is given the text at the front of the list, and begins to work it off. -/
  | popped {s : Office} {i : ℕ} {clerk : Clerk} {worker : Worker} {raw : String}
    {coordination : KeyStore} {notes : List Request} (hclerk : s.clerks[i]? = some clerk)
    (hpop : s.coordination.pop? queue = some (raw, coordination))
    (hworker : clerk.worker.step queue (.popped raw) = some (worker, notes)) :
    Step s (.told i clerk.worker (.popped raw) notes)
      { s with coordination, clerks := s.clerks.set i ⟨worker, some (Task.dispatch handlers raw)⟩ }
  /-- A clerk asks for something, and may be answered anything. -/
  | asked {s : Office} {i : ℕ} {worker : Worker} {p q : Program (Result Unit)} {e : Exchange}
    (hclerk : s.clerks[i]? = some ⟨worker, some p⟩) (hstep : p.Step e.request e.answer q) :
    Step s (.asked i e) { s with clerks := s.clerks.set i ⟨worker, some q⟩ }
  /-- A clerk is done with its task. -/
  | handled {s : Office} {i : ℕ} {clerk : Clerk} {worker : Worker} {p : Program (Result Unit)}
    {result : Result Unit} {notes : List Request} (hclerk : s.clerks[i]? = some clerk)
    (hwork : clerk.work = some p) (hended : p.Ended result)
    (hworker : clerk.worker.step queue (.handled result) = some (worker, notes)) :
    Step s (.told i clerk.worker (.handled result) notes)
      { s with clerks := s.clerks.set i ⟨worker, none⟩ }
  /-- The list fails a clerk, a rest is over, or, after the signal, a clerk hears of it. -/
  | other {s : Office} {i : ℕ} {clerk : Clerk} {worker : Worker} {input : Worker.Input}
    {notes : List Request} (hclerk : s.clerks[i]? = some clerk) (hinput : input.isOther = true)
    (hshut : input = .shutdown → s.shut = true)
    (hworker : clerk.worker.step queue input = some (worker, notes)) :
    Step s (.told i clerk.worker input notes)
      { s with clerks := s.clerks.set i { clerk with worker } }

/-- An office of some clerks, who all wait. -/
def opened (coordination : KeyStore) (count : ℕ) : Office :=
  ⟨coordination, List.replicate count {}, false⟩

/-! ## What events tell -/

namespace Event

/-- The text that is pushed. -/
def pushed? : Event → Option String
  | pushed raw => some raw
  | _ => none

/-- The text that is taken off the list. -/
def popped? : Event → Option String
  | told _ _ (.popped raw) _ => some raw
  | _ => none

/-- The text that is worked off. -/
def handled? : Event → Option String
  | told _ worker (.handled _) _ => worker.held?
  | _ => none

/-- What is asked for by a clerk, and the answer. -/
def asked? (i : ℕ) : Event → Option Exchange
  | asked j e => if j = i then some e else none
  | _ => none

/-- What is noted. -/
def notes : Event → List Request
  | told _ _ _ notes => notes
  | _ => []

/-- Whether a clerk is told something. -/
def tells (i : ℕ) : Event → Bool
  | told j _ _ _ => j == i
  | _ => false

/-- The text that a clerk takes off the list. -/
def poppedBy? (i : ℕ) (e : Event) : Option String := if e.tells i then e.popped? else none

/-- The text that a clerk has worked off. -/
def handledBy? (i : ℕ) (e : Event) : Option String := if e.tells i then e.handled? else none

theorem popped?_of_isOther {i : ℕ} {worker : Worker} {input : Worker.Input} {notes : List Request}
    (h : input.isOther = true) :
    (told i worker input notes).popped? = none ∧ (told i worker input notes).handled? = none := by
  cases input with
  | popped | handled => cases h
  | popFailed | rested | shutdown => exact ⟨rfl, rfl⟩

end Event

end Office

end NodeInventory
