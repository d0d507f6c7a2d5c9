import NodeInventory.Proofs.Lock.Exclusion
import NodeInventory.Proofs.Sequence

/-!
# A single run

A single run of a job, with what extends its key. The store may answer each command in any way: with
success, with false or with a failure. Commands about the lock take no time, and neither does what
is only counted or reported; what the work of the job asks may take any time. The key is extended at
the first whole millisecond from every multiple of half its time (`Renewal.extension`), whatever the
extensions before were answered.

A run that gets the lock is its work, with something before it and something after it
(`Trial.run_eq`). Here are the names of these parts, and of what they ask.
-/

namespace NodeInventory.Lock

open Program
open Simulation (Kernel Renewal)

/-! ## A run and its renewals -/

/-- A run, with what extends its key. -/
structure Solo where
  /-- The time in milliseconds. -/
  now : ℕ
  rest : Program RunOutcome
  renewals : List Renewal := []

/-- Something that is asked and answered at a time. -/
abbrev Timed := ℕ × Exchange

/-- A request that is a command to the store about a key. -/
def isCommand (key : String) : Request → Bool
  | .setKey k _ _ | .extendKey k _ | .deleteKey k => k = key
  | _ => false

/-- What extends a key after a request. -/
def renew (key : String) (now : ℕ) (rs : List Renewal) : Request → List Renewal
  | .startRenewal k ttl => if k = key then rs ++ [{ agent := 0, key, ttl, since := now }] else rs
  | .stopRenewal k => if k = key then (Kernel.stopRenewal 0 key rs).2 else rs
  | _ => rs

theorem isCommand_setKey (key value : String) (ttl : ℕ) :
    isCommand key (.setKey key value ttl) = true := decide_eq_true rfl

theorem isCommand_deleteKey (key : String) : isCommand key (.deleteKey key) = true :=
  decide_eq_true rfl

theorem isCommand_of_ne {key : String} {r : Request} (hr : r.lockKey? ≠ some key) :
    isCommand key r = false := by
  cases r with
  | setKey | extendKey | deleteKey => exact decide_eq_false fun hkey ↦ hr (congrArg some hkey)
  | _ => rfl

theorem renew_of_ne {key : String} {r : Request} (hr : r.lockKey? ≠ some key) (now : ℕ)
    (rs : List Renewal) : renew key now rs r = rs := by
  cases r with
  | startRenewal | stopRenewal => exact if_neg fun hkey ↦ hr (congrArg some hkey)
  | _ => rfl

theorem renew_startRenewal (key : String) (ttl now : ℕ) (rs : List Renewal) :
    renew key now rs (.startRenewal key ttl) =
      rs ++ [{ agent := 0, key, ttl, since := now }] := if_pos rfl

theorem renew_stopRenewal (key : String) (now : ℕ) (rs : List Renewal) :
    renew key now rs (.stopRenewal key) = (Kernel.stopRenewal 0 key rs).2 := if_pos rfl

namespace Solo

/-- What happens to a run. -/
inductive Event
  | asked (time : ℕ) (exchange : Exchange)
  | extended (time : ℕ) (renewal : Renewal) (answer : Result Bool)
  | passed (millis : ℕ)

/-- What the run asks, and when. -/
def Event.asked? : Event → Option Timed
  | asked time e => some (time, e)
  | extended _ _ _ | passed _ => none

/-- A command that is sent to the store, and when. -/
def Event.command? (key : String) : Event → Option Timed
  | asked time e => if isCommand key e.request then some (time, e) else none
  | extended time r answer => some (time, ⟨r.request, answer⟩)
  | passed _ => none

/-- All that a run asks, and when. -/
def asked (events : List Event) : List Timed := events.filterMap Event.asked?

/-- All commands that are sent to the store about a key, and when. -/
def commands (key : String) (events : List Event) : List Timed :=
  events.filterMap (Event.command? key)

/-- Something happens. -/
inductive Step (key : String) : Solo → Event → Solo → Prop
  | asked {s : Solo} {q : Program RunOutcome} {r : Request} {a : r.Answer}
    (hstep : s.rest.Step r a q) :
    Step key s (.asked s.now ⟨r, a⟩)
      { s with rest := q, renewals := renew key s.now s.renewals r }
  | extended {s : Solo} {before after : List Renewal} {r : Renewal} (answer : Result Bool)
    (hr : s.renewals = before ++ r :: after) (hdue : r.due ≤ s.now) :
    Step key s (.extended s.now r answer)
      { s with renewals := before ++ { r with fired := r.fired + 1 } :: after }
  | passed {s : Solo} (millis : ℕ) (hdue : ∀ r ∈ s.renewals, s.now + millis ≤ r.due)
    (hprompt : ∀ r a q, s.rest.Step r a q → ¬IsPrompt key r) :
    Step key s (.passed millis) { s with now := s.now + millis }

end Solo

/-! ## The parts of a run -/

/-- A run of a job that is tried at a time. -/
structure Trial where
  owner : String
  job : String
  ttl : ℕ
  work : Program (Result Unit)
  since : ℕ

/-- What becomes of a run whose work has ended. -/
def outcome : Result Unit → RunOutcome
  | .ok () => .completed
  | .error _ => .failed

namespace Trial

variable (c : Trial)

/-- The key that locks the job. -/
def key : String := Lock.key c.job

/-- What is reported of a result. -/
def failures : Result Unit → List Exchange
  | .ok () => []
  | .error f => [⟨.report ⟨.scheduler, c.job, f⟩, ()⟩]

/-- What is noted when the key was not set. -/
def denial : Result Bool → Exchange
  | .error f => ⟨.report ⟨.scheduler, c.job, .context "error acquiring job lock" f⟩, ()⟩
  | .ok _ => ⟨.count (.jobSkips c.job), ()⟩

/-- What is left of a run that was told whether the key has been removed. -/
def afterDelete (became : RunOutcome) : Result Unit → Program RunOutcome
  | .ok () => done became
  | .error f => ask (.report ⟨.scheduler, c.job, .context "error releasing job lock" f⟩) fun _ ↦
    done became

/-- What is left of a run that has nothing more to report of its work. -/
def closing (became : RunOutcome) : Program RunOutcome :=
  ask (.stopRenewal c.key) fun _ ↦ ask (.deleteKey c.key) (c.afterDelete became)

/-- What is left of a run whose work has ended. -/
def afterWork : Result Unit → Program RunOutcome
  | .ok () => c.closing .completed
  | .error f => ask (.report ⟨.scheduler, c.job, f⟩) fun _ ↦ c.closing .failed

theorem afterWork_eq (result : Result Unit) : c.afterWork result = (do
    (Action.reportFailure .scheduler c.job result : Program Unit)
    let released ← (release c.job : Program (Result Unit))
    (Action.reportFailure .scheduler c.job released : Program Unit)
    pure (match result with
      | .ok () => .completed
      | .error _ => .failed)) := by
  have hclosing : ∀ became : RunOutcome, c.closing became = (do
      let released ← (release c.job : Program (Result Unit))
      (Action.reportFailure .scheduler c.job released : Program Unit)
      pure became) := by
    intro became
    refine congrArg (ask (.stopRenewal c.key)) (funext fun _ ↦
      congrArg (ask (.deleteKey c.key)) (funext fun released ↦ ?_))
    cases (released : Result Unit) <;> rfl
  cases result with
  | ok => exact hclosing _
  | error f => exact congrArg (ask _) (funext fun _ ↦ hclosing _)

/-- What is left of a run that was told whether the key has been set. -/
def afterSet : Result Bool → Program RunOutcome
  | .error f => ask (.report ⟨.scheduler, c.job, .context "error acquiring job lock" f⟩) fun _ ↦
    done .skipped
  | .ok false => ask (.count (.jobSkips c.job)) fun _ ↦ done .skipped
  | .ok true => ask (.startRenewal c.key c.ttl) fun _ ↦ ask (.count (.jobRuns c.job)) fun _ ↦
    c.work >>= c.afterWork

/-- A run in its parts. -/
theorem run_eq : run c.owner c.job c.ttl c.work = ask (.setKey c.key c.owner c.ttl) c.afterSet := by
  refine congrArg (ask _) (funext fun (answer : Result Bool) ↦ ?_)
  match answer with
  | .error _ | .ok false => rfl
  | .ok true =>
    refine congrArg (ask _) (funext fun _ ↦ congrArg (ask _) (funext fun _ ↦ ?_))
    exact congrArg (c.work >>= ·) (funext fun result ↦ (c.afterWork_eq result).symm)

/-- The run has not begun. -/
def start : Solo := ⟨c.since, run c.owner c.job c.ttl c.work, []⟩

/-- What a run is told when it tries to set the key. -/
def setting (answer : Result Bool) : Exchange := ⟨.setKey c.key c.owner c.ttl, answer⟩

/-- What a run that gets the lock asks before its work begins. -/
def opening : List Exchange :=
  [c.setting (.ok true), ⟨.startRenewal c.key c.ttl, ()⟩, ⟨.count (.jobRuns c.job), ()⟩]

/-- What a run asks when its work has ended and a failure of it was reported. -/
def removal (released : Result Unit) : List Exchange :=
  [⟨.stopRenewal c.key, ()⟩, ⟨.deleteKey c.key, released⟩]

/-- An extension of the key. -/
def extension (k : ℕ) (answer : Result Bool) : Timed :=
  (Renewal.extension c.since c.ttl (k + 1), ⟨.extendKey c.key c.ttl, answer⟩)

/-- The extensions of the key that were given the answers, in order. -/
def extensions (answers : List (Result Bool)) : List Timed := answers.mapIdx c.extension

/-- What extends the key, when it has done so a number of times. -/
def renewal (fired : ℕ) : Renewal := { agent := 0, key := c.key, ttl := c.ttl, since := c.since, fired }

end Trial

/-- Exchanges that take place at one time. -/
def stamp (time : ℕ) (exchanges : List Exchange) : List Timed := exchanges.map (time, ·)

/-- The time of the last exchange, if there has been one since the given time. -/
def lastTime (since : ℕ) (log : List Timed) : ℕ := (log.getLast?.map (·.1)).getD since

/-- The work has gone through some exchanges. -/
def Works (work : Program (Result Unit)) (log : List Timed) (rest : Program (Result Unit)) : Prop :=
  Run (fun p (e : Exchange) q ↦ p.Step e.request e.answer q) work (log.map (·.2)) rest

theorem append_stamp_concat (log : List Timed) (time : ℕ) (xs : List Exchange) (e : Exchange) :
    log ++ stamp time xs ++ [(time, e)] = log ++ stamp time (xs ++ [e]) := by
  rw [stamp, stamp, List.map_append, List.append_assoc, List.map_singleton]

@[simp] theorem lastTime_concat (since : ℕ) (log : List Timed) (x : Timed) :
    lastTime since (log ++ [x]) = x.1 := by
  simp [lastTime]

end NodeInventory.Lock
