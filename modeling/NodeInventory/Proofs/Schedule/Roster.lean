import Mathlib.Data.Nat.Notation
import NodeInventory.Operation.Locked
import NodeInventory.Proofs.Interleaving
import NodeInventory.Proofs.Run
import NodeInventory.Schedule.Driver

/-!
# Jobs that run time and again

Each job has a driver, and all runs that the driver has started; a run is a program that tries to
lock the job, works if it can, and unlocks it. What a run asks may be answered in any way at any
time, so nothing is supposed of the lock, of how long a run takes or of how it ends. A tick is taken
at any time from which it is due. The signal to shut down is given once, and then any driver that
listens may hear it; until it does it may also take a tick.

A step is *punctual* if no time passes while a driver could take a tick or hear the signal, or while
a run that has nothing left to do has not ended.

The jobs share nothing but the time and the signal. So what is to be shown is shown of one job, and
there it is a matter of the driver and of the times at which the runs have started and ended
(`Tended`); what the runs ask is of no account.
-/

namespace NodeInventory.Schedule

/-! ## What a driver does -/

namespace Driver

variable {d d' : Driver} {now run next : ℕ} {started : Option ℕ}

@[simp] theorem phase_startRun : (d.startRun run).phase = .listening := rfl

@[simp] theorem inFlight_startRun : (d.startRun run).inFlight = d.inFlight ++ [run] := rfl

theorem phase_hear : d.inFlight = [] ∧ d.hear.phase = .stopped ∨
    d.inFlight ≠ [] ∧ d.hear.phase = .draining := by
  by_cases hnil : d.inFlight = []
  · exact .inl ⟨hnil, by simp [hear, hnil]⟩
  · exact .inr ⟨hnil, by simp [hear, hnil]⟩

theorem phase_hear_ne_listening : d.hear.phase ≠ .listening := by
  rcases phase_hear (d := d) with ⟨-, hphase⟩ | ⟨-, hphase⟩ <;> simp [hphase]

/-- At a tick a driver waits for the runs under way, or starts a run. -/
theorem step_tick (hlistens : d.phase = .listening)
    (h : d.step (.tick now run) = (d', started)) :
    (d.waits = true ∧ d.inFlight ≠ [] ∧ started = none ∧
      d' = { d with ticker := d.ticker.take now, phase := .blocked }) ∨
    ((d.waits = true → d.inFlight = []) ∧ started = some run ∧
      d' = { d with ticker := d.ticker.take now }.startRun run) := by
  simp only [step, hlistens, if_true] at h
  split at h
  · next hawaits =>
    obtain ⟨hwaits, hflight⟩ : d.waits = true ∧ d.inFlight ≠ [] := by simpa using hawaits
    obtain ⟨rfl, rfl⟩ := Prod.mk.inj h
    exact .inl ⟨hwaits, hflight, rfl, rfl⟩
  · next hawaits =>
    obtain ⟨rfl, rfl⟩ := Prod.mk.inj h
    exact .inr ⟨by simpa using hawaits, rfl, rfl⟩

/-- When the last run under way ends, a driver that has waited for it at a tick starts a run, and
one that has heard the signal stops. -/
theorem step_ended (h : d.step (.ended run next) = (d', started)) :
    (d.phase = .blocked ∧ d.inFlight.erase run = [] ∧ started = some next ∧
      d' = { d with inFlight := [] }.startRun next) ∨
    (d.phase = .draining ∧ d.inFlight.erase run = [] ∧ started = none ∧
      d' = { d with inFlight := [], phase := .stopped }) ∨
    ((d.inFlight.erase run = [] → d.phase ≠ .blocked ∧ d.phase ≠ .draining) ∧ started = none ∧
      d' = { d with inFlight := d.inFlight.erase run }) := by
  simp only [step, List.isEmpty_iff] at h
  split at h
  · next hphase =>
    split at h
    · next hnil =>
      obtain ⟨rfl, rfl⟩ := Prod.mk.inj h
      exact .inl ⟨hphase, hnil, rfl, by rw [hnil]⟩
    · next hne =>
      obtain ⟨rfl, rfl⟩ := Prod.mk.inj h
      exact .inr (.inr ⟨fun hnil ↦ absurd hnil hne, rfl, rfl⟩)
  · next hphase =>
    split at h
    · next hnil =>
      obtain ⟨rfl, rfl⟩ := Prod.mk.inj h
      exact .inr (.inl ⟨hphase, hnil, rfl, by rw [hnil]⟩)
    · next hne =>
      obtain ⟨rfl, rfl⟩ := Prod.mk.inj h
      exact .inr (.inr ⟨fun hnil ↦ absurd hnil hne, rfl, rfl⟩)
  · next hphase =>
    obtain ⟨rfl, rfl⟩ := Prod.mk.inj h
    exact .inr (.inr ⟨fun _ ↦ by simp [show d.phase = .listening from hphase], rfl, rfl⟩)
  · next hphase =>
    obtain ⟨rfl, rfl⟩ := Prod.mk.inj h
    exact .inr (.inr ⟨fun _ ↦ by simp [show d.phase = .stopped from hphase], rfl, rfl⟩)

end Driver

/-! ## Jobs and their runs -/

/-- A job that is to be run time and again. -/
structure Plan where
  name : String
  period : ℕ
  /-- Whether a run has to end before the next one starts. -/
  waits : Bool

/-- The jobs of an instance. -/
structure Agenda where
  owner : String
  ttl : ℕ
  plans : List Plan
  /-- What there is to do, by the number of the job and of the run. -/
  work : ℕ → ℕ → Program (Result Unit)

/-- What a run of a job does. -/
def Agenda.program (c : Agenda) (i : ℕ) (plan : Plan) (run : ℕ) : Program RunOutcome :=
  Lock.run c.owner plan.name c.ttl (c.work i run)

theorem Agenda.not_ended (c : Agenda) (i : ℕ) (plan : Plan) (run : ℕ) (outcome : RunOutcome) :
    ¬(c.program i plan run).Ended outcome := by
  intro h
  cases (h : (Program.ask _ _).Ended outcome)

/-- When a run has started, and when it has ended if it has. -/
structure Timing where
  start : ℕ
  finish : Option ℕ

/-- A run that has started, and what is left of it. -/
structure Attempt where
  timing : Timing
  rest : Program RunOutcome

/-- A job with its driver and its runs. The runs are numbered in the order in which they start. -/
structure Lane where
  driver : Driver
  runs : List Attempt := []

/-- The times of all runs. -/
def Lane.timings (l : Lane) : List Timing := l.runs.map (·.timing)

/-- All jobs. -/
structure Roster where
  now : ℕ
  lanes : List Lane
  /-- When the signal to shut down was given. -/
  shut : Option ℕ := none

/-- No job has run yet. -/
def Agenda.start (c : Agenda) (now : ℕ) : Roster where
  now
  lanes := c.plans.map fun plan ↦
    { driver := { ticker := .start plan.period now, waits := plan.waits } }

/-- All drivers have stopped. -/
def Roster.Returned (s : Roster) : Prop := ∀ l ∈ s.lanes, l.driver.phase = .stopped

/-! ## Steps -/

/-- What happens to a job. -/
inductive Lane.Event
  /-- A tick is taken at the time. -/
  | ticked (time : ℕ)
  /-- A run asks for something. -/
  | asked (run : ℕ) (exchange : Exchange)
  | ended (run : ℕ) (outcome : RunOutcome)
  /-- The driver hears the signal. -/
  | heard

/-- The time at which a tick is taken. -/
def Lane.Event.tick? : Lane.Event → Option ℕ
  | ticked time => some time
  | asked _ _ | ended _ _ | heard => none

/-- The runs and the one that the driver starts, if it starts one. -/
def Lane.launch (program : ℕ → Program RunOutcome) (now : ℕ) (runs : List Attempt) :
    Option ℕ → List Attempt
  | none => runs
  | some run => runs ++ [⟨⟨now, none⟩, program run⟩]

/-- Something happens to a job. -/
inductive Lane.Step (program : ℕ → Program RunOutcome) (now : ℕ) (shut : Option ℕ) :
    Lane → Lane.Event → Lane → Prop
  | ticked {l : Lane} {d : Driver} {started : Option ℕ} (hlistens : l.driver.phase = .listening)
    (hdue : l.driver.ticker.due ≤ now)
    (hstep : l.driver.step (.tick now l.runs.length) = (d, started)) :
    Step program now shut l (.ticked now) ⟨d, launch program now l.runs started⟩
  | asked {l : Lane} {k start : ℕ} {p q : Program RunOutcome} {e : Exchange}
    (hrun : l.runs[k]? = some ⟨⟨start, none⟩, p⟩) (hstep : p.Step e.request e.answer q) :
    Step program now shut l (.asked k e) { l with runs := l.runs.set k ⟨⟨start, none⟩, q⟩ }
  | ended {l : Lane} {k start : ℕ} {p : Program RunOutcome} {outcome : RunOutcome} {d : Driver}
    {started : Option ℕ} (hrun : l.runs[k]? = some ⟨⟨start, none⟩, p⟩) (hended : p.Ended outcome)
    (hstep : l.driver.step (.ended k l.runs.length) = (d, started)) :
    Step program now shut l (.ended k outcome)
      ⟨d, launch program now (l.runs.set k ⟨⟨start, some now⟩, p⟩) started⟩
  | heard {l : Lane} (hshut : shut ≠ none) (hlistens : l.driver.phase = .listening) :
    Step program now shut l .heard { l with driver := l.driver.hear }

namespace Roster

/-- What happens. The jobs are numbered. -/
inductive Event
  | within (i : ℕ) (e : Lane.Event)
  | signalled
  | passed (millis : ℕ)

/-- The time at which a tick of the job is taken. -/
def Event.tick? (i : ℕ) : Event → Option ℕ
  | within j e => if j = i then e.tick? else none
  | signalled | passed _ => none

/-- Something happens. -/
inductive Step (c : Agenda) : Roster → Event → Roster → Prop
  | within {s : Roster} {i : ℕ} {plan : Plan} {l l' : Lane} {e : Lane.Event}
    (hplan : c.plans[i]? = some plan) (hlane : s.lanes[i]? = some l)
    (hstep : l.Step (c.program i plan) s.now s.shut e l') :
    Step c s (.within i e) { s with lanes := s.lanes.set i l' }
  | signalled {s : Roster} (hshut : s.shut = none) :
    Step c s .signalled { s with shut := some s.now }
  | passed (s : Roster) (millis : ℕ) :
    Step c s (.passed millis) { s with now := s.now + millis }

/-- What holds of a job without runs, and is kept whatever happens to a job, holds of all jobs. -/
theorem forall_lanes_of_run {c : Agenda} {now : ℕ} {s : Roster} {events : List Event}
    {p : Lane → Prop} (hrun : Run (Step c) (c.start now) events s) (hstart : ∀ d, p ⟨d, []⟩)
    (hstep : ∀ i plan now shut l e l', p l → l.Step (c.program i plan) now shut e l' → p l') :
    ∀ l ∈ s.lanes, p l := by
  refine hrun.invariant (p := fun s ↦ ∀ l ∈ s.lanes, p l) (fun l hl ↦ ?_) fun s e t h hs ↦ ?_
  · obtain ⟨plan, -, rfl⟩ := List.mem_map.mp hl
    exact hstart _
  · cases hs with
    | within hplan hlane hs =>
      intro l hl
      obtain hl | rfl := List.mem_or_eq_of_mem_set hl
      · exact h l hl
      · exact hstep _ _ _ _ _ _ _ (h _ (List.mem_of_getElem? hlane)) hs
    | signalled | passed => exact h

end Roster

/-! ## Punctual steps -/

/-- Nothing that can happen to a job at once is put off until the given time. -/
structure Lane.Idle (time : ℕ) (shut : Option ℕ) (l : Lane) : Prop where
  not_due : l.driver.phase = .listening → time ≤ l.driver.ticker.due ∧ shut = none
  not_ended : ∀ a ∈ l.runs, a.timing.finish = none → ∀ outcome, ¬a.rest.Ended outcome

namespace Roster

/-- What can happen if nothing is put off. -/
def Punctual (s : Roster) : Event → Prop
  | .passed millis => ∀ l ∈ s.lanes, l.Idle (s.now + millis) s.shut
  | .within _ _ | .signalled => True

/-- Something happens, and in time. -/
def PunctualStep (c : Agenda) (s : Roster) (e : Event) (t : Roster) : Prop :=
  Step c s e t ∧ s.Punctual e

theorem PunctualStep.run {c : Agenda} {s t : Roster} {events : List Event}
    (hrun : Run (PunctualStep c) s events t) : Run (Step c) s events t :=
  hrun.mono fun _ _ _ h ↦ h.1

end Roster

end NodeInventory.Schedule
