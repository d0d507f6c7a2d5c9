import NodeInventory.Proofs.Schedule.Ledger

/-!
# Policies

Every tick leads to one run. A job that does not wait runs at the tick. A job that waits runs at the
tick or, if an earlier run is under way then, at the very time at which that run ends; so its runs
follow one another. When the driver stops, no run is under way. Nothing of this depends on what the
runs do or on how they are answered (`runs_follow_the_policy`).
-/

namespace NodeInventory.Schedule

variable {waits : Bool} {ticks : List ℕ} {now : ℕ} {ts : List Timing} {d : Driver}
  {program : ℕ → Program RunOutcome} {shut : Option ℕ} {l l' : Lane}

/-! ## Policies -/

/-- A run has ended. -/
def Attempt.HasEnded (now : ℕ) (a : Attempt) : Prop :=
  (∃ time, a.timing.finish = some time ∧ time ≤ now) ∧ ∃ outcome, a.rest.Ended outcome

/-- What is so of a job at any time, when its ticks so far were taken at the given times. -/
structure Lane.Follows (waits : Bool) (ticks : List ℕ) (now : ℕ) (l : Lane) : Prop where
  /-- If the job waits, no two runs are under way at once. -/
  apart : waits = true → l.timings.Pairwise Timing.Before
  /-- If the job does not wait, a run starts at every tick. -/
  at_once : waits = false → l.timings.map (·.start) = ticks
  /-- Every run has a tick of its own, and starts at it or when the run before it ends. -/
  answers : ∀ k t, l.timings[k]? = some t →
    ∃ tick, ticks[k]? = some tick ∧ Answers waits l.timings k tick t.start
  /-- Every tick has a run, but the last may still wait for the run before it to end. -/
  length_eq : ticks.length = l.runs.length ∨
    ticks.length = l.runs.length + 1 ∧ waits = true ∧ l.driver.phase = .blocked ∧
      ∃ t, l.timings.getLast? = some t ∧ t.finish = none
  /-- If the driver has stopped, all runs have ended. -/
  ended : l.driver.phase = .stopped → ∀ a ∈ l.runs, a.HasEnded now

theorem Tended.start_eq (h : Tended false ticks now d ts) : ts.map (·.start) = ticks := by
  have hlength : ticks.length = ts.length := by
    have hphase : d.phase ≠ .blocked := fun hblocked ↦ nomatch h.waits_of_blocked hblocked
    simpa [hphase] using h.ticks_length
  refine List.ext_getElem (by simp [hlength]) fun k hk hk' ↦ ?_
  rw [List.length_map] at hk
  obtain ⟨tick, htick, hans⟩ := h.ledger.answers k ts[k] (List.getElem?_eq_getElem hk)
  rw [List.getElem?_eq_getElem hk', Option.some.injEq] at htick
  rcases hans with heq | ⟨hwaits, -⟩
  · rw [List.getElem_map, htick, heq]
  · cases hwaits

/-- What is left of a run that has ended has come to its end. -/
def Lane.Closed (l : Lane) : Prop :=
  ∀ a ∈ l.runs, a.timing.finish ≠ none → ∃ outcome, a.rest.Ended outcome

theorem Lane.closed_launch (d : Driver) {runs : List Attempt} {started : Option ℕ}
    (h : (⟨d, runs⟩ : Lane).Closed) : (⟨d, launch program now runs started⟩ : Lane).Closed := by
  cases started with
  | none => exact h
  | some run =>
    intro a ha hfinish
    rw [launch, List.mem_append, List.mem_singleton] at ha
    obtain ha | rfl := ha
    · exact h a ha hfinish
    · exact absurd rfl hfinish

theorem Lane.Step.closed {e : Lane.Event} (hstep : l.Step program now shut e l')
    (h : l.Closed) : l'.Closed := by
  cases hstep with
  | ticked => exact Lane.closed_launch _ h
  | asked =>
    intro a ha hfinish
    obtain ha | rfl := List.mem_or_eq_of_mem_set ha
    · exact h a ha hfinish
    · exact absurd rfl hfinish
  | @ended k began p outcome d started hrun hended =>
    refine Lane.closed_launch _ fun a ha hfinish ↦ ?_
    obtain ha | rfl := List.mem_or_eq_of_mem_set ha
    · exact h a ha hfinish
    · exact ⟨outcome, hended⟩
  | heard => exact h

theorem Tended.follows (h : Tended waits ticks now l.driver l.timings) (hclosed : l.Closed) :
    l.Follows waits ticks now := by
  have hlength : l.timings.length = l.runs.length := List.length_map ..
  refine ⟨h.ledger.serial, fun hwaits ↦ ?_, h.ledger.answers, ?_, fun hstopped a ha ↦ ?_⟩
  · subst hwaits
    exact h.start_eq
  · have hticks := h.ticks_length
    rw [hlength] at hticks
    split at hticks
    · next hblocked =>
      have hwaits := h.waits_of_blocked hblocked
      exact .inr ⟨hticks, hwaits, hblocked,
        h.ledger.getLast?_of_ne_nil hwaits (h.inFlight_ne_nil (.inl hblocked))⟩
    · exact .inl hticks
  · cases hfinish : a.timing.finish with
    | none =>
      obtain ⟨k, hk⟩ := List.getElem?_of_mem ha
      have hopen : l.timings[k]? = some ⟨a.timing.start, none⟩ := by
        rw [Lane.getElem?_timings hk, ← hfinish]
      have hmem := (h.ledger.mem_inFlight k).mpr ⟨_, hopen⟩
      rw [h.inFlight_eq_nil hstopped] at hmem
      cases hmem
    | some time =>
      exact ⟨⟨time, hfinish, (h.ledger.finish_le _ (List.mem_map_of_mem ha) time hfinish).2⟩,
        hclosed a ha (by simp [hfinish])⟩

/-! ## Ticks in time -/

/-- A driver has taken every tick so far at a multiple of the period. -/
structure OnTime (period since : ℕ) (ticks : List ℕ) (now : ℕ) (d : Driver) : Prop where
  period_eq : d.ticker.period = period
  ticks_eq : ticks = (List.range ticks.length).map fun k ↦ since + (k + 1) * period
  /-- The next multiple is that of the next tick, and it has not gone by. -/
  due_eq : d.phase = .listening →
    d.ticker.due = since + (ticks.length + 1) * period ∧ now ≤ d.ticker.due

variable {period since : ℕ} {e : Lane.Event}

theorem OnTime.start (period now : ℕ) :
    OnTime period now [] now { ticker := .start period now, waits } :=
  ⟨rfl, rfl, fun _ ↦ by simp [Ticker.start]⟩

theorem Lane.Step.onTime (hstep : l.Step program now shut e l')
    (h : OnTime period since ticks now l.driver) (htended : Tended false ticks now l.driver ts) :
    OnTime period since (ticks ++ e.tick?.toList) now l'.driver := by
  cases hstep with
  | ticked hlistens hdue hstep =>
    obtain ⟨heq, hle⟩ := h.due_eq hlistens
    rcases Driver.step_tick hlistens hstep with ⟨hwaits, -⟩ | ⟨-, -, rfl⟩
    · cases htended.waits_eq.symm.trans hwaits
    have hnow : now = since + (ticks.length + 1) * period := by omega
    have htake : (l.driver.ticker.take now).due = since + (ticks.length + 1 + 1) * period := by
      have hlate : now ≤ l.driver.ticker.due + Ticker.tolerance := hle.trans (Nat.le_add_right ..)
      rw [Ticker.take, if_pos hlate, heq, h.period_eq, Nat.succ_mul (ticks.length + 1),
        Nat.add_assoc]
    refine ⟨h.period_eq, ?_, fun _ ↦ ?_⟩
    · rw [Lane.Event.tick?, Option.toList_some, List.length_append, List.length_singleton,
        List.range_succ, List.map_append, ← h.ticks_eq, List.map_singleton, hnow]
    · rw [Lane.Event.tick?, Option.toList_some, List.length_append, List.length_singleton]
      refine ⟨htake, htake ▸ hnow ▸ ?_⟩
      rw [Nat.succ_mul (ticks.length + 1)]
      omega
  | asked => simpa [Lane.Event.tick?] using h
  | ended hrun hended hstep =>
    rw [Lane.Event.tick?, Option.toList_none, List.append_nil]
    rcases Driver.step_ended hstep with ⟨hphase, -⟩ | ⟨-, -, -, rfl⟩ | ⟨-, -, rfl⟩
    · cases htended.waits_of_blocked hphase
    · exact ⟨h.period_eq, h.ticks_eq, by rintro ⟨⟩⟩
    · exact ⟨h.period_eq, h.ticks_eq, h.due_eq⟩
  | heard =>
    rw [Lane.Event.tick?, Option.toList_none, List.append_nil]
    exact ⟨h.period_eq, h.ticks_eq, fun hphase ↦ absurd hphase Driver.phase_hear_ne_listening⟩

theorem OnTime.pass (h : OnTime period since ticks now d) {time : ℕ}
    (hdue : d.phase = .listening → time ≤ d.ticker.due) : OnTime period since ticks time d :=
  ⟨h.period_eq, h.ticks_eq, fun hphase ↦ ⟨(h.due_eq hphase).1, hdue hphase⟩⟩

/-- A job runs at every multiple of its period; until it hears the signal none goes by. -/
structure Lane.Periodic (period since now : ℕ) (l : Lane) : Prop where
  starts_eq : l.timings.map (·.start) =
    (List.range l.runs.length).map fun k ↦ since + (k + 1) * period
  now_le : l.driver.phase = .listening → now ≤ since + (l.runs.length + 1) * period

theorem OnTime.periodic (h : OnTime period since ticks now l.driver)
    (htended : Tended false ticks now l.driver l.timings) : l.Periodic period since now := by
  have hstarts := htended.start_eq
  have hlength : ticks.length = l.runs.length := by simp [← hstarts, Lane.timings]
  refine ⟨?_, fun hphase ↦ ?_⟩
  · rw [hstarts, ← hlength]
    exact h.ticks_eq
  · obtain ⟨heq, hle⟩ := h.due_eq hphase
    rwa [heq, hlength] at hle

namespace Roster

variable {c : Agenda} {s : Roster} {events : List Event} {i : ℕ} {plan : Plan}

/-- The driver of a job that does not wait takes all ticks in time, if nothing is put off. -/
theorem onTime_of_run (hrun : Run (PunctualStep c) (c.start now) events s)
    (hplan : c.plans[i]? = some plan) (hwaits : plan.waits = false) :
    ∀ l, s.lanes[i]? = some l →
      OnTime plan.period now (events.filterMap (Event.tick? i)) s.now l.driver := by
  induction hrun with
  | nil =>
    intro l hl
    rw [Agenda.start, List.getElem?_map, hplan, Option.map_some, Option.some.injEq] at hl
    exact hl ▸ .start plan.period now
  | snoc hrun hstep ih =>
    obtain ⟨l₀, hlane₀, htended⟩ := tended_of_run (PunctualStep.run hrun) hplan
    rw [hwaits] at htended
    have hl₀ := ih l₀ hlane₀
    intro l hl
    rw [filterMap_snoc]
    obtain ⟨hstep, hpunctual⟩ := hstep
    cases hstep with
    | @within j plan' l₁ l' e hplan' hlane' hstep =>
      rw [Event.tick?]
      by_cases hji : j = i
      · subst hji
        rw [hlane₀, Option.some.injEq] at hlane'
        subst hlane'
        obtain ⟨hlt, -⟩ := List.getElem?_eq_some_iff.mp hlane₀
        rw [List.getElem?_set_self hlt, Option.some.injEq] at hl
        subst hl
        simpa using hstep.onTime hl₀ htended
      · rw [List.getElem?_set_ne hji] at hl
        simpa [hji] using ih l hl
    | signalled => simpa [Event.tick?] using ih l hl
    | passed millis =>
      rw [Event.tick?, Option.toList_none, List.append_nil]
      exact (ih l hl).pass fun hphase ↦
        ((hpunctual l (List.mem_of_getElem? hl)).not_due hphase).1

theorem closed_of_run (hrun : Run (Step c) (c.start now) events s) : ∀ l ∈ s.lanes, l.Closed :=
  forall_lanes_of_run hrun (fun _ _ ha ↦ nomatch ha) fun _ _ _ _ _ _ _ h hstep ↦ hstep.closed h

theorem follows_of_run (hrun : Run (Step c) (c.start now) events s)
    (hplan : c.plans[i]? = some plan) :
    ∃ l, s.lanes[i]? = some l ∧
      l.Follows plan.waits (events.filterMap (Event.tick? i)) s.now := by
  obtain ⟨l, hlane, htended⟩ := tended_of_run hrun hplan
  exact ⟨l, hlane, htended.follows (closed_of_run hrun l (List.mem_of_getElem? hlane))⟩

theorem hasEnded_of_returned (hrun : Run (Step c) (c.start now) events s) (hreturned : s.Returned) :
    ∀ l ∈ s.lanes, ∀ a ∈ l.runs, a.HasEnded s.now := by
  intro l hl
  obtain ⟨i, hlane⟩ := List.getElem?_of_mem hl
  obtain ⟨hi, -⟩ := List.getElem?_eq_some_iff.mp hlane
  rw [length_lanes hrun] at hi
  obtain ⟨l', hlane', hl'⟩ := follows_of_run hrun (List.getElem?_eq_getElem hi)
  obtain rfl := Option.some.inj (hlane.symm.trans hlane')
  exact hl'.ended (hreturned l hl)

/-- Every job follows its policy, whatever its runs do and however they are answered. A job that
does not wait runs at all multiples of its period, if nothing is put off. When all drivers have
stopped, all runs have ended. -/
theorem runs_follow_the_policy (hrun : Run (Step c) (c.start now) events s) :
    (∀ (i : ℕ) (plan : Plan), c.plans[i]? = some plan → ∃ l, s.lanes[i]? = some l ∧
      l.Follows plan.waits (events.filterMap (Event.tick? i)) s.now) ∧
    (Run (PunctualStep c) (c.start now) events s → ∀ (i : ℕ) (plan : Plan) (l : Lane),
      c.plans[i]? = some plan → s.lanes[i]? = some l → plan.waits = false →
      l.Periodic plan.period now s.now) ∧
    (s.Returned → ∀ l ∈ s.lanes, ∀ a ∈ l.runs, a.HasEnded s.now) := by
  refine ⟨fun i plan hplan ↦ follows_of_run hrun hplan,
    fun hpunctual i plan l hplan hlane hwaits ↦ ?_, hasEnded_of_returned hrun⟩
  exact (onTime_of_run hpunctual hplan hwaits l hlane).periodic
    (hwaits ▸ tended_of_lane hrun hplan hlane)

/-- Two jobs that are run every 20 milliseconds; the first one waits for its runs. -/
def twoJobs : Agenda where
  owner := "a"
  ttl := 60
  plans := [⟨"sync", 20, true⟩, ⟨"beat", 20, false⟩]
  work _ _ := pure (.ok ())

/-- At the second tick the first run of either job still waits to hear whether it has the lock. The
job that waits runs again when its first run has heard that the store is down; the other one runs at
the tick. -/
theorem slow_answer_delays_only_what_waits :
    ∃ events s, Run (PunctualStep twoJobs) (twoJobs.start 0) events s ∧ s.now = 45 ∧
      (∃ l, s.lanes[0]? = some l ∧ l.timings = [⟨20, some 45⟩, ⟨45, none⟩] ∧
        l.timings.Pairwise Timing.Before) ∧
      ∃ l, s.lanes[1]? = some l ∧ l.timings.map (·.start) = [20, 40] ∧ l.Periodic 20 0 45 := by
  have h₁ := (@Run.nil _ _ (PunctualStep twoJobs) (twoJobs.start 0)).snoc
    ⟨.passed _ 20, List.forall_mem_cons.mpr ⟨⟨fun _ ↦ ⟨by decide, rfl⟩, nofun⟩,
      List.forall_mem_singleton.mpr ⟨fun _ ↦ ⟨by decide, rfl⟩, nofun⟩⟩⟩
  have h₂ := h₁.snoc ⟨.within (i := 0) rfl rfl (.ticked rfl (by decide) rfl), trivial⟩
  have h₃ := h₂.snoc ⟨.within (i := 1) rfl rfl (.ticked rfl (by decide) rfl), trivial⟩
  have h₄ := h₃.snoc ⟨.passed _ 20, List.forall_mem_cons.mpr
    ⟨⟨fun _ ↦ ⟨by decide, rfl⟩, List.forall_mem_singleton.mpr fun _ ↦ twoJobs.not_ended _ _ _⟩,
      List.forall_mem_singleton.mpr
        ⟨fun _ ↦ ⟨by decide, rfl⟩, List.forall_mem_singleton.mpr fun _ ↦ twoJobs.not_ended _ _ _⟩⟩⟩
  have h₅ := h₄.snoc ⟨.within (i := 0) rfl rfl (.ticked rfl (by decide) rfl), trivial⟩
  have h₆ := h₅.snoc ⟨.within (i := 1) rfl rfl (.ticked rfl (by decide) rfl), trivial⟩
  have h₇ := h₆.snoc ⟨.passed _ 5, List.forall_mem_cons.mpr
    ⟨⟨nofun, List.forall_mem_singleton.mpr fun _ ↦ twoJobs.not_ended _ _ _⟩,
      List.forall_mem_singleton.mpr ⟨fun _ ↦ ⟨by decide, rfl⟩, List.forall_mem_cons.mpr
        ⟨fun _ ↦ twoJobs.not_ended _ _ _, List.forall_mem_singleton.mpr fun _ ↦ twoJobs.not_ended _ _ _⟩⟩⟩⟩
  have h₈ := h₇.snoc ⟨.within (i := 0) rfl rfl (.asked (k := 0)
    (e := ⟨.setKey (Lock.key "sync") "a" 60, .error (.plain "down")⟩) rfl (.ask _ _)), trivial⟩
  have h₉ := h₈.snoc ⟨.within (i := 0) rfl rfl (.asked (k := 0)
    (e := ⟨.report _, ()⟩) rfl (.ask _ _)), trivial⟩
  have h₁₀ := h₉.snoc ⟨.within (i := 0) rfl rfl (.ended (k := 0) rfl (.done _) rfl), trivial⟩
  have hpolicy := runs_follow_the_policy (PunctualStep.run h₁₀)
  obtain ⟨sync, hsync, hfollows⟩ := hpolicy.1 0 _ rfl
  obtain rfl := Option.some.inj hsync
  exact ⟨_, _, h₁₀, rfl, ⟨_, rfl, rfl, hfollows.apart rfl⟩,
    ⟨_, rfl, rfl, hpolicy.2.1 h₁₀ 1 _ _ rfl rfl rfl⟩⟩

end Roster

end NodeInventory.Schedule
