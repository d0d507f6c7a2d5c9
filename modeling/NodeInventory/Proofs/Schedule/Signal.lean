import NodeInventory.Proofs.Inevitable
import NodeInventory.Proofs.Schedule.Policy
import NodeInventory.Proofs.Sequence

/-!
# After the signal

A driver that waits at a tick does not hear the signal to shut down: it starts a run when the run
that it waits for has ended, and only then may it hear the signal; or it may take another tick that
has come due meanwhile. So a run may start after the signal, but only of a job that had been waiting
at a tick when the signal was given, and only when the run before it ends. Unless there is such a
job no run starts after the signal, and from then on all drivers have heard it
(`no_run_starts_after_the_signal`).

When all drivers have heard the signal no run starts any more, and they stop when the runs under way
have ended. If these do not go on for ever, that cannot be avoided.

What carries this is that no time passes while a driver listens that could hear the signal. So a
driver that listens later than the signal has just started a run, and that run was late itself.
-/

namespace NodeInventory.Schedule

variable {waits : Bool} {ticks inFlight : List ℕ} {now signal k began : ℕ} {ts : List Timing}
  {d d' : Driver} {started shut : Option ℕ} {program : ℕ → Program RunOutcome} {l l' : Lane}

/-! ## Late runs -/

/-- When the signal was given, a tick had been taken for a run that is to follow another one, and
that one lasts longer. -/
def Awaited (waits : Bool) (ticks : List ℕ) (ts : List Timing) (signal : ℕ) : Prop :=
  waits = true ∧ ∃ k tick before, ticks[k + 1]? = some tick ∧ tick ≤ signal ∧
    ts[k]? = some before ∧ before.start ≤ signal ∧ ∀ time, before.finish = some time → signal < time

/-- What is so of a job later than the signal. -/
structure Closing (waits : Bool) (ticks : List ℕ) (now signal : ℕ) (d : Driver) (ts : List Timing) :
    Prop where
  /-- A driver that listens has just started a run. -/
  recent : d.phase = .listening → signal < now →
    ∃ j last, ts.length = j + 1 ∧ ts[j]? = some last ∧ last.start = now
  /-- A run that starts after the signal starts when the run before it ends. -/
  late : ∀ k t, ts[k]? = some t → signal < t.start → FollowsUpon ts k t.start
  awaited : ((∃ t ∈ ts, signal < t.start) ∨ ∃ tick ∈ ticks, signal < tick) →
    Awaited waits ticks ts signal

namespace Awaited

theorem tick (h : Awaited waits ticks ts signal) (time : ℕ) :
    Awaited waits (ticks ++ [time]) ts signal := by
  obtain ⟨hwaits, k, tick, before, htick, hrest⟩ := h
  obtain ⟨hlt, -⟩ := List.getElem?_eq_some_iff.mp htick
  exact ⟨hwaits, k, tick, before, by rwa [List.getElem?_append_left hlt], hrest⟩

theorem enter (h : Awaited waits ticks ts signal) (now : ℕ) (started : Option ℕ) :
    Awaited waits ticks (entered now ts started) signal := by
  obtain ⟨hwaits, k, tick, before, htick, hle, hbefore, hrest⟩ := h
  obtain ⟨hlt, -⟩ := List.getElem?_eq_some_iff.mp hbefore
  exact ⟨hwaits, k, tick, before, htick, hle, by rwa [entered, List.getElem?_append_left hlt],
    hrest⟩

theorem finish (h : Awaited waits ticks ts signal) (hk : ts[k]? = some ⟨began, none⟩)
    (hlate : signal < now) : Awaited waits ticks (ts.set k ⟨began, some now⟩) signal := by
  obtain ⟨hwaits, j, tick, before, htick, hle, hbefore, hstart, hfinish⟩ := h
  obtain ⟨hlt, -⟩ := List.getElem?_eq_some_iff.mp hk
  by_cases hkj : k = j
  · subst hkj
    obtain rfl := Option.some.inj (hk.symm.trans hbefore)
    exact ⟨hwaits, k, tick, _, htick, hle, List.getElem?_set_self hlt, hstart,
      fun time htime ↦ Option.some.inj htime ▸ hlate⟩
  · exact ⟨hwaits, j, tick, before, htick, hle, by rwa [List.getElem?_set_ne hkj], hstart, hfinish⟩

end Awaited

theorem Tended.closing (h : Tended waits ticks now d ts) : Closing waits ticks now now d ts where
  recent _ hlate := absurd hlate (lt_irrefl now)
  late k t hk hlate := absurd (h.ledger.start_le t (List.mem_of_getElem? hk)) (Nat.not_le.mpr hlate)
  awaited hlate := by
    rcases hlate with ⟨t, ht, hlate⟩ | ⟨tick, htick, hlate⟩
    · exact absurd (h.ledger.start_le t ht) (Nat.not_le.mpr hlate)
    · exact absurd (h.ledger.tick_le tick htick) (Nat.not_le.mpr hlate)

namespace Closing

theorem awaited_of_blocked (h : Closing waits ticks now signal d ts)
    (htended : Tended waits ticks now d ts) (hblocked : d.phase = .blocked) :
    Awaited waits ticks ts signal := by
  have hwaits := htended.waits_of_blocked hblocked
  obtain ⟨k, hk⟩ := List.exists_mem_of_ne_nil _ (htended.inFlight_ne_nil (.inl hblocked))
  obtain ⟨began, hopen⟩ := (htended.ledger.mem_inFlight k).mp hk
  have hlast := htended.ledger.eq_last hwaits hopen
  have hlength : ticks.length = ts.length + 1 := by simpa [hblocked] using htended.ticks_length
  obtain ⟨tick, htick⟩ : ∃ tick, ticks[k + 1]? = some tick := by
    rw [List.getElem?_eq_getElem (by omega)]
    exact ⟨_, rfl⟩
  by_cases hlate : signal < began
  · exact h.awaited (.inl ⟨_, List.mem_of_getElem? hopen, hlate⟩)
  by_cases htaken : signal < tick
  · exact h.awaited (.inr ⟨tick, List.mem_of_getElem? htick, htaken⟩)
  exact ⟨hwaits, k, tick, _, htick, Nat.le_of_not_lt htaken, hopen, Nat.le_of_not_lt hlate, nofun⟩

theorem awaited_of_listening (h : Closing waits ticks now signal d ts)
    (hlistens : d.phase = .listening) (hlate : signal < now) : Awaited waits ticks ts signal := by
  obtain ⟨j, last, -, hlast, hstart⟩ := h.recent hlistens hlate
  exact h.awaited (.inl ⟨last, List.mem_of_getElem? hlast, hstart ▸ hlate⟩)

theorem enter (h : Closing waits ticks now signal d ts) (haw : Awaited waits ticks ts signal)
    (hupon : FollowsUpon ts ts.length now) :
    Closing waits ticks now signal d' (ts ++ [⟨now, none⟩]) where
  recent _ _ := ⟨ts.length, ⟨now, none⟩, List.length_append, List.getElem?_concat_length, rfl⟩
  late k t hk hlate := by
    rcases lt_or_eq_of_getElem?_concat hk with ⟨hlt, hk⟩ | ⟨rfl, rfl⟩
    · exact (h.late k t hk hlate).enter hlt.le _
    · exact hupon.enter le_rfl _
  awaited _ := haw.enter now (some 0)

/-- A tick is taken later than the signal. -/
theorem tick (h : Closing waits ticks now signal d ts) (htended : Tended waits ticks now d ts)
    (hlate : signal < now) (hlistens : d.phase = .listening)
    (hstep : d.step (.tick now ts.length) = (d', started)) :
    Closing waits (ticks ++ [now]) now signal d' (entered now ts started) := by
  have haw := h.awaited_of_listening hlistens hlate
  obtain ⟨j, last, hlength, hlast, hstart⟩ := h.recent hlistens hlate
  have hticked : Closing waits (ticks ++ [now]) now signal d ts :=
    ⟨h.recent, h.late, fun _ ↦ haw.tick now⟩
  rcases Driver.step_tick hlistens hstep with ⟨-, -, rfl, rfl⟩ | ⟨hflight, rfl, rfl⟩
  · rw [entered_none]
    exact ⟨nofun, h.late, fun _ ↦ haw.tick now⟩
  -- no run is under way, so the run that has just started has ended at once
  · refine hticked.enter (haw.tick now) ⟨j, last, hlength, hlast, ?_⟩
    cases hfinish : last.finish with
    | none =>
      have hopen : ts[j]? = some ⟨last.start, none⟩ := by rw [hlast, ← hfinish]
      have hmem := (htended.ledger.mem_inFlight j).mpr ⟨_, hopen⟩
      rw [hflight (htended.waits_eq.trans haw.1)] at hmem
      cases hmem
    | some time =>
      obtain ⟨hle, hge⟩ := htended.ledger.finish_le last (List.mem_of_getElem? hlast) time hfinish
      rw [hstart] at hle
      rw [le_antisymm hge hle]

theorem finish (h : Closing waits ticks now signal d ts) (hlate : signal < now)
    (hk : ts[k]? = some ⟨began, none⟩) (hphase : d'.phase = .listening → d.phase = .listening) :
    Closing waits ticks now signal d' (ts.set k ⟨began, some now⟩) where
  recent hlistens _ := by
    obtain ⟨j, last, hlength, hlast, hstart⟩ := h.recent (hphase hlistens) hlate
    obtain ⟨u, hu⟩ : ∃ u, (ts.set k ⟨began, some now⟩)[j]? = some u := by
      rw [List.getElem?_eq_getElem (by rw [List.length_set]; omega)]
      exact ⟨_, rfl⟩
    obtain ⟨t, ht, htu⟩ := exists_of_getElem?_set hk hu
    obtain rfl := Option.some.inj (hlast.symm.trans ht)
    exact ⟨j, u, by rwa [List.length_set], hu, htu ▸ hstart⟩
  late j t hj hlate := by
    obtain ⟨u, hu, hut⟩ := exists_of_getElem?_set hk hj
    exact hut ▸ (h.late j u hu (hut ▸ hlate)).finish hk
  awaited hsome := by
    refine (h.awaited (hsome.imp_left fun ⟨t, ht, hlate⟩ ↦ ?_)).finish hk hlate
    obtain ⟨j, hj⟩ := List.getElem?_of_mem ht
    obtain ⟨u, hu, hut⟩ := exists_of_getElem?_set hk hj
    exact ⟨u, List.mem_of_getElem? hu, hut ▸ hlate⟩

theorem ended (h : Closing waits ticks now signal d ts) (htended : Tended waits ticks now d ts)
    (hlate : signal < now) (hk : ts[k]? = some ⟨began, none⟩)
    (hstep : d.step (.ended k ts.length) = (d', started)) :
    Closing waits ticks now signal d' (entered now (ts.set k ⟨began, some now⟩) started) := by
  rcases Driver.step_ended hstep with
    ⟨hphase, -, rfl, rfl⟩ | ⟨-, -, rfl, rfl⟩ | ⟨-, rfl, rfl⟩
  -- the driver has waited for this run
  · obtain ⟨hlt, -⟩ := List.getElem?_eq_some_iff.mp hk
    have haw := h.awaited_of_blocked htended hphase
    have hlast := htended.ledger.eq_last haw.1 hk
    refine (h.finish hlate hk id).enter (haw.finish hk hlate) ?_
    exact ⟨k, _, by rw [List.length_set, hlast], List.getElem?_set_self hlt, rfl⟩
  · rw [entered_none]
    exact h.finish hlate hk nofun
  · rw [entered_none]
    exact h.finish hlate hk id

end Closing

/-- Whatever happens to a job, its runs start in time, or late for the reason given. -/
theorem Lane.Step.closing {e : Lane.Event} (hstep : l.Step program now shut e l')
    (h : Closing waits ticks now signal l.driver l.timings)
    (htended : Tended waits ticks now l.driver l.timings) (hle : signal ≤ now) :
    Closing waits (ticks ++ e.tick?.toList) now signal l'.driver l'.timings := by
  obtain rfl | hlate := hle.eq_or_lt
  · exact (hstep.tended htended).closing
  have hlength : l.timings.length = l.runs.length := List.length_map ..
  cases hstep with
  | ticked hlistens hdue hstep =>
    rw [← hlength] at hstep
    rw [Lane.timings, Lane.timings_launch]
    exact h.tick htended hlate hlistens hstep
  | asked hrun hstep =>
    rw [Lane.Event.tick?, Option.toList_none, List.append_nil, Lane.timings_ask hrun]
    exact h
  | ended hrun hended hstep =>
    rw [← hlength] at hstep
    rw [Lane.Event.tick?, Option.toList_none, List.append_nil, Lane.timings, Lane.timings_launch,
      List.map_set]
    exact h.ended htended hlate (Lane.getElem?_timings hrun) hstep
  | heard hshut hlistens =>
    rw [Lane.Event.tick?, Option.toList_none, List.append_nil]
    exact ⟨fun hphase ↦ absurd hphase Driver.phase_hear_ne_listening, h.late, h.awaited⟩

/-! ## Drivers that have heard the signal -/

/-- The driver of a job has heard the signal. -/
def Lane.Heard (l : Lane) : Prop := l.driver.phase = .draining ∨ l.driver.phase = .stopped

/-- What may happen to a job whose driver has heard the signal: a run asks, or ends. -/
theorem Lane.Step.of_heard {e : Lane.Event} (hstep : l.Step program now shut e l') (h : l.Heard) :
    l'.Heard ∧ ∃ (k began : ℕ) (p : Program RunOutcome) (a : Attempt),
      l.runs[k]? = some ⟨⟨began, none⟩, p⟩ ∧ l'.runs = l.runs.set k a ∧ a.timing.start = began ∧
      ((∃ (r : Request) (answer : r.Answer) (q : Program RunOutcome),
        p.Step r answer q ∧ a = ⟨⟨began, none⟩, q⟩) ∨ ∃ time, a.timing.finish = some time) := by
  cases hstep with
  | ticked hlistens | heard _ hlistens => rcases h with h | h <;> cases hlistens.symm.trans h
  | asked hrun hstep => exact ⟨h, _, _, _, _, hrun, rfl, rfl, .inl ⟨_, _, _, hstep, rfl⟩⟩
  | ended hrun hended hstep =>
    rcases Driver.step_ended hstep with ⟨hphase, -⟩ | ⟨-, -, rfl, rfl⟩ | ⟨-, rfl, rfl⟩
    · rcases h with h | h <;> cases hphase.symm.trans h
    · exact ⟨.inr rfl, _, _, _, _, hrun, rfl, rfl, .inr ⟨_, rfl⟩⟩
    · exact ⟨h, _, _, _, _, hrun, rfl, rfl, .inr ⟨_, rfl⟩⟩

theorem Lane.Step.starts_of_heard {e : Lane.Event} (hstep : l.Step program now shut e l')
    (h : l.Heard) : l'.timings.map (·.start) = l.timings.map (·.start) := by
  obtain ⟨-, k, began, p, a, hrun, hruns, hstart, -⟩ := hstep.of_heard h
  rw [Lane.timings, Lane.timings, List.map_map, List.map_map, hruns]
  exact map_set_eq_map hrun hstart

/-! ## What is left to do -/

open Relation Program

/-- What a program that comes to an end goes on with. -/
def Sooner (q p : Program RunOutcome) : Prop :=
  (∃ (r : Request) (a : r.Answer), p.Step r a q) ∧ p.Terminates

theorem wellFounded_sooner : WellFounded Sooner := by
  have hacc : ∀ p : Program RunOutcome, p.Terminates → Acc Sooner p := by
    intro p hp
    induction hp with
    | intro p _ ih => exact .intro p fun q h ↦ ih q h.1
  exact ⟨fun p ↦ .intro p fun q ⟨hstep, hp⟩ ↦ hacc q (hp.inv hstep)⟩

/-- What is left to do of a run. -/
def Attempt.load (a : Attempt) : Multiset (Program RunOutcome) :=
  match a.timing.finish with
  | none => {a.rest}
  | some _ => 0

/-- What is left to do of the runs of a job. -/
def Lane.load (l : Lane) : Multiset (Program RunOutcome) := (l.runs.map (·.load)).sum

/-- All runs that are under way come to an end. -/
def Lane.Terminating (l : Lane) : Prop :=
  ∀ a ∈ l.runs, a.rest.Terminates

theorem Lane.Step.terminating {e : Lane.Event} (hstep : l.Step program now shut e l')
    (h : l.Terminating) (hprogram : ∀ run, (program run).Terminates) : l'.Terminating := by
  have hlaunch : ∀ {runs : List Attempt} (started : Option ℕ), (∀ a ∈ runs, a.rest.Terminates) →
      ∀ a ∈ Lane.launch program now runs started, a.rest.Terminates := by
    intro runs started hruns a ha
    cases started with
    | none => exact hruns a ha
    | some run =>
      rw [Lane.launch, List.mem_append, List.mem_singleton] at ha
      obtain ha | rfl := ha
      · exact hruns a ha
      · exact hprogram run
  cases hstep with
  | ticked => exact hlaunch _ h
  | asked hrun hstep =>
    intro a ha
    obtain ha | rfl := List.mem_or_eq_of_mem_set ha
    · exact h a ha
    · exact (h _ (List.mem_of_getElem? hrun)).step hstep
  | ended hrun =>
    refine hlaunch _ fun a ha ↦ ?_
    obtain ha | rfl := List.mem_or_eq_of_mem_set ha
    · exact h a ha
    · exact (h _ (List.mem_of_getElem? hrun) :)
  | heard => exact h

theorem Lane.Step.cutExpand_load {e : Lane.Event} (hstep : l.Step program now shut e l')
    (h : l.Heard) (hterm : l.Terminating) : CutExpand Sooner l'.load l.load := by
  obtain ⟨-, k, began, p, a, hrun, hruns, -, hway⟩ := hstep.of_heard h
  rw [Lane.load, hruns]
  refine cutExpand_sum_set hrun ?_
  obtain ⟨r, answer, q, hstep, rfl⟩ | ⟨time, htime⟩ := hway
  · exact cutExpand_singleton_singleton ⟨⟨r, answer, hstep⟩, hterm _ (List.mem_of_getElem? hrun)⟩
  · rw [Attempt.load, htime]
    exact cutExpand_zero

namespace Roster

variable {c : Agenda} {s t : Roster} {events future : List Event} {i : ℕ} {plan : Plan}

theorem terminating_of_run (hrun : Run (Step c) (c.start now) events s)
    (hwork : ∀ i run, (c.work i run).Terminates) : ∀ l ∈ s.lanes, l.Terminating := by
  refine forall_lanes_of_run hrun (fun d a ha ↦ nomatch ha) fun i plan _ _ _ _ _ h hstep ↦ ?_
  exact hstep.terminating h fun run ↦ Lock.terminates_run _ _ _ (hwork i run)

/-- After some time something happens. -/
def Moves (c : Agenda) (s t : Roster) : Prop :=
  ∃ (millis : ℕ) (e : Event), Step c { s with now := s.now + millis } e t ∧
    ∀ more, e ≠ .passed more

/-- What is left to do. -/
def load (s : Roster) : Multiset (Program RunOutcome) := (s.lanes.map (·.load)).sum

/-- All drivers have heard the signal. -/
def Heard (s : Roster) : Prop := s.shut ≠ none ∧ ∀ l ∈ s.lanes, l.Heard

theorem Step.heard {e : Event} (hstep : Step c s e t) (h : s.Heard) : t.Heard := by
  obtain ⟨hshut, hlanes⟩ := h
  cases hstep with
  | within hplan hlane hstep =>
    refine ⟨hshut, fun l hl ↦ ?_⟩
    obtain hl | rfl := List.mem_or_eq_of_mem_set hl
    · exact hlanes l hl
    · exact (hstep.of_heard (hlanes _ (List.mem_of_getElem? hlane))).1
  | signalled hnone => exact absurd hnone hshut
  | passed => exact ⟨hshut, hlanes⟩

/-- When the runs have started, job by job. -/
def starts (s : Roster) : List (List ℕ) := s.lanes.map fun l ↦ l.timings.map (·.start)

theorem starts_of_heard (hrun : Run (Step c) s future t) (h : s.Heard) :
    t.Heard ∧ t.starts = s.starts := by
  induction hrun with
  | nil => exact ⟨h, rfl⟩
  | snoc _ hstep ih =>
    obtain ⟨hheard, hstarts⟩ := ih
    refine ⟨hstep.heard hheard, hstarts ▸ ?_⟩
    cases hstep with
    | within hplan hlane hstep =>
      have hsame := hstep.starts_of_heard (hheard.2 _ (List.mem_of_getElem? hlane))
      exact map_set_eq_map hlane hsame
    | signalled | passed => rfl

/-- All drivers have stopped, and all runs have ended. -/
def Finished (s : Roster) : Prop := s.Returned ∧ ∀ l ∈ s.lanes, ∀ a ∈ l.runs, a.HasEnded s.now

theorem exists_moves_of_run {l : Lane} {k began : ℕ} (hplan : c.plans[i]? = some plan)
    (hlane : s.lanes[i]? = some l) (hopen : l.timings[k]? = some ⟨began, none⟩) :
    ∃ t, Moves c s t := by
  obtain ⟨⟨timing, p⟩, hrun, rfl⟩ : ∃ a, l.runs[k]? = some a ∧ a.timing = ⟨began, none⟩ := by
    simpa [Lane.timings] using hopen
  obtain ⟨outcome, hended⟩ | ⟨r, hr⟩ := p.ended_or_asks
  · exact ⟨_, 0, _, .within hplan hlane (.ended hrun hended rfl), fun _ h ↦ by cases h⟩
  · obtain ⟨answer⟩ := r.nonempty_answer
    obtain ⟨q, hq⟩ := hr answer
    exact ⟨_, 0, _, .within hplan hlane (.asked (e := ⟨r, answer⟩) hrun hq), fun _ h ↦ by cases h⟩

theorem exists_moves_of_heard (hrun : Run (Step c) (c.start now) events s) (h : s.Heard)
    (hreturned : ¬s.Returned) : ∃ t, Moves c s t := by
  obtain ⟨l, hl, hphase⟩ : ∃ l ∈ s.lanes, l.driver.phase ≠ .stopped := by
    simpa [Returned] using hreturned
  obtain ⟨i, hlane⟩ := List.getElem?_of_mem hl
  obtain ⟨hi, -⟩ := List.getElem?_eq_some_iff.mp hlane
  rw [length_lanes hrun] at hi
  have hplan := List.getElem?_eq_getElem hi
  have htended := tended_of_lane hrun hplan hlane
  obtain ⟨k, hk⟩ := List.exists_mem_of_ne_nil _
    (htended.inFlight_ne_nil (.inr ((h.2 l hl).resolve_right hphase)))
  obtain ⟨began, hopen⟩ := (htended.ledger.mem_inFlight k).mp hk
  exact exists_moves_of_run hplan hlane hopen

theorem inevitable_finished (hwork : ∀ i run, (c.work i run).Terminates)
    (hrun : Run (Step c) (c.start now) events s) (h : s.Heard) :
    Inevitable (Moves c) Finished s := by
  generalize hload : s.load = load
  induction load using wellFounded_sooner.cutExpand.induction generalizing s events with
  | _ load ih =>
    by_cases hreturned : s.Returned
    · exact .now ⟨hreturned, hasEnded_of_returned hrun hreturned⟩
    refine .later (exists_moves_of_heard hrun h hreturned) fun t ⟨millis, e, hstep, hne⟩ ↦ ?_
    have hlater := hrun.snoc (.passed s millis)
    refine ih t.load ?_ (hlater.snoc hstep) (hstep.heard h) rfl
    -- whatever happens leaves less to do of one of the jobs
    cases hstep with
    | within hplan hlane hstep =>
      have hl := List.mem_of_getElem? hlane
      exact hload ▸ cutExpand_sum_set hlane
        (hstep.cutExpand_load (h.2 _ hl) (terminating_of_run hrun hwork _ hl))
    | signalled hnone => exact absurd hnone h.1
    | passed => exact absurd rfl (hne _)

/-! ## The signal -/

theorem closing_of_run (hrun : Run (PunctualStep c) (c.start now) events s)
    (hplan : c.plans[i]? = some plan) {l : Lane} (hlane : s.lanes[i]? = some l)
    (hshut : s.shut = some signal) :
    signal ≤ s.now ∧ Closing plan.waits (events.filterMap (Event.tick? i)) s.now signal l.driver
      l.timings := by
  induction hrun generalizing l signal with
  | nil => cases hshut
  | @snoc events e s t hrun hstep ih =>
    have hsteps := PunctualStep.run hrun
    rw [filterMap_snoc]
    obtain ⟨hstep, hpunctual⟩ := hstep
    cases hstep with
    | @within j plan' l₀ l' e hplan' hlane' hstep =>
      rw [Event.tick?]
      by_cases hji : j = i
      · subst hji
        obtain ⟨hlt, -⟩ := List.getElem?_eq_some_iff.mp hlane'
        rw [List.getElem?_set_self hlt, Option.some.injEq] at hlane
        subst hlane
        obtain ⟨hle, hclosing⟩ := ih hlane' hshut
        refine ⟨hle, ?_⟩
        rw [if_pos rfl]
        exact hstep.closing hclosing (tended_of_lane hsteps hplan hlane') hle
      · rw [List.getElem?_set_ne hji] at hlane
        simpa [hji] using ih hlane hshut
    | signalled =>
      obtain rfl := Option.some.inj hshut
      simpa [Event.tick?] using (tended_of_lane hsteps hplan hlane).closing
    | passed millis =>
      obtain ⟨hle, hclosing⟩ := ih hlane hshut
      rw [Event.tick?, Option.toList_none, List.append_nil]
      refine ⟨hle.trans (Nat.le_add_right ..), fun hlistens _ ↦ ?_, hclosing.late, hclosing.awaited⟩
      have hnone := ((hpunctual l (List.mem_of_getElem? hlane)).not_due hlistens).2
      cases hnone.symm.trans hshut

end Roster

/-- What is so of a job after the signal, when its ticks so far were taken at the given times. -/
structure Lane.Closes (waits : Bool) (ticks : List ℕ) (now signal : ℕ) (l : Lane) : Prop where
  /-- Unless a run was awaited at the signal, no run starts after it. -/
  start_le : ¬Awaited waits ticks l.timings signal → ∀ t ∈ l.timings, t.start ≤ signal
  /-- Unless a run was awaited at the signal, the driver hears it at once. -/
  heard : ¬Awaited waits ticks l.timings signal → signal < now → l.Heard
  /-- A run that starts after the signal starts when the run before it ends. -/
  late : ∀ k t, l.timings[k]? = some t → signal < t.start →
    waits = true ∧ FollowsUpon l.timings k t.start

theorem Closing.closes (h : Closing waits ticks now signal l.driver l.timings)
    (htended : Tended waits ticks now l.driver l.timings) : l.Closes waits ticks now signal where
  start_le hfree t ht := Nat.le_of_not_lt fun hlate ↦ hfree (h.awaited (.inl ⟨t, ht, hlate⟩))
  heard hfree hlate := by
    cases hphase : l.driver.phase with
    | listening => exact absurd (h.awaited_of_listening hphase hlate) hfree
    | blocked => exact absurd (h.awaited_of_blocked htended hphase) hfree
    | draining => exact .inl hphase
    | stopped => exact .inr hphase
  late k t hk hlate :=
    ⟨(h.awaited (.inl ⟨t, List.mem_of_getElem? hk, hlate⟩)).1, h.late k t hk hlate⟩

namespace Roster

variable {c : Agenda} {s : Roster} {events : List Event}

/-- Unless a run was awaited at the signal, no run of the job starts after it, and its driver hears
it at once. When all drivers have heard it no run starts any more, and the drivers stop when all
runs have ended. -/
theorem no_run_starts_after_the_signal (hrun : Run (PunctualStep c) (c.start now) events s)
    (hshut : s.shut = some signal) :
    (∀ (i : ℕ) (plan : Plan), c.plans[i]? = some plan → ∃ l, s.lanes[i]? = some l ∧
      l.Closes plan.waits (events.filterMap (Event.tick? i)) s.now signal) ∧
    ((∀ l ∈ s.lanes, l.Heard) →
      (∀ future t, Run (Step c) s future t → t.starts = s.starts) ∧
      ((∀ i run, (c.work i run).Terminates) → Inevitable (Moves c) Finished s)) := by
  have hsteps := PunctualStep.run hrun
  refine ⟨fun i plan hplan ↦ ?_, fun hheard ↦ ?_⟩
  · obtain ⟨l, hlane, htended⟩ := tended_of_run hsteps hplan
    exact ⟨l, hlane, (closing_of_run hrun hplan hlane hshut).2.closes htended⟩
  · have hheard : s.Heard := ⟨by rw [hshut]; nofun, hheard⟩
    exact ⟨fun future t hfuture ↦ (starts_of_heard hfuture hheard).2,
      fun hwork ↦ inevitable_finished hwork hsteps hheard⟩

/-- A job that is run every 20 milliseconds, takes 25 and waits for its runs. -/
def slowJob : Agenda where
  owner := "a"
  ttl := 60000
  plans := [⟨"job", 20, true⟩]
  work _ _ := Simulation.timedWork 25 none

/-- A run that has begun when the signal is given lasts beyond the next tick. No other run starts,
and the driver stops when it has ended. -/
theorem run_under_way_is_the_last :
    ∃ events s l, Run (PunctualStep slowJob) (slowJob.start 0) events s ∧ s.shut = some 30 ∧
      s.now = 45 ∧ s.lanes = [l] ∧ l.timings = [⟨20, none⟩] ∧ (∀ t ∈ l.timings, t.start ≤ 30) ∧
      Inevitable (Moves slowJob) Finished s := by
  have h₁ := (@Run.nil _ _ (PunctualStep slowJob) (slowJob.start 0)).snoc
    ⟨.passed _ 20, List.forall_mem_singleton.mpr ⟨fun _ ↦ ⟨by decide, rfl⟩, nofun⟩⟩
  have h₂ := h₁.snoc ⟨.within (i := 0) rfl rfl (.ticked rfl (by decide) rfl), trivial⟩
  have h₃ := h₂.snoc ⟨.passed _ 10, List.forall_mem_singleton.mpr
    ⟨fun _ ↦ ⟨by decide, rfl⟩, List.forall_mem_singleton.mpr fun _ ↦ slowJob.not_ended _ _ _⟩⟩
  have h₄ := h₃.snoc ⟨.signalled rfl, trivial⟩
  have h₅ := h₄.snoc ⟨.within (i := 0) rfl rfl (.heard nofun rfl), trivial⟩
  have h₆ := h₅.snoc ⟨.passed _ 15, List.forall_mem_singleton.mpr
    ⟨nofun, List.forall_mem_singleton.mpr fun _ ↦ slowJob.not_ended _ _ _⟩⟩
  obtain ⟨hjobs, hheard⟩ := no_run_starts_after_the_signal h₆ rfl
  obtain ⟨l, hl, hcloses⟩ := hjobs 0 _ rfl
  obtain rfl := Option.some.inj hl
  have hfree : ¬Awaited true [20] [⟨20, none⟩] 30 := by
    rintro ⟨-, k, tick, before, htick, -⟩
    cases htick
  refine ⟨_, _, _, h₆, rfl, rfl, rfl, rfl, hcloses.start_le hfree, ?_⟩
  exact (hheard (List.forall_mem_singleton.mpr (hcloses.heard hfree (by decide)))).2
    fun _ _ ↦ terminates_timedWork 25 none

/-- A driver that waits at a tick when the signal is given starts a run after it. -/
theorem awaited_run_starts_after_the_signal :
    ∃ events s l, Run (PunctualStep slowJob) (slowJob.start 0) events s ∧ s.shut = some 42 ∧
      s.lanes = [l] ∧ l.timings = [⟨20, some 45⟩, ⟨45, none⟩] ∧ ∃ t ∈ l.timings, 42 < t.start := by
  have h₁ := (@Run.nil _ _ (PunctualStep slowJob) (slowJob.start 0)).snoc
    ⟨.passed _ 20, List.forall_mem_singleton.mpr ⟨fun _ ↦ ⟨by decide, rfl⟩, nofun⟩⟩
  have h₂ := h₁.snoc ⟨.within (i := 0) rfl rfl (.ticked rfl (by decide) rfl), trivial⟩
  have h₃ := h₂.snoc ⟨.within (i := 0) rfl rfl (.asked (k := 0)
    (e := ⟨.setKey (Lock.key "job") "a" 60000, .ok true⟩) rfl (.ask _ _)), trivial⟩
  have h₄ := h₃.snoc ⟨.within (i := 0) rfl rfl (.asked (k := 0)
    (e := ⟨.startRenewal (Lock.key "job") 60000, ()⟩) rfl (.ask _ _)), trivial⟩
  have h₅ := h₄.snoc ⟨.within (i := 0) rfl rfl (.asked (k := 0)
    (e := ⟨.count (.jobRuns "job"), ()⟩) rfl (.ask _ _)), trivial⟩
  have hworks : ∀ {f : Unit → Program RunOutcome} (outcome : RunOutcome),
    ¬(Program.ask (.pause 25) f).Ended outcome := nofun
  have h₆ := h₅.snoc ⟨.passed _ 20, List.forall_mem_singleton.mpr
    ⟨fun _ ↦ ⟨by decide, rfl⟩, List.forall_mem_singleton.mpr fun _ ↦ hworks⟩⟩
  have h₇ := h₆.snoc ⟨.within (i := 0) rfl rfl (.ticked rfl (by decide) rfl), trivial⟩
  have h₈ := h₇.snoc ⟨.passed _ 2, List.forall_mem_singleton.mpr
    ⟨nofun, List.forall_mem_singleton.mpr fun _ ↦ hworks⟩⟩
  have h₉ := h₈.snoc ⟨.signalled rfl, trivial⟩
  have h₁₀ := h₉.snoc ⟨.passed _ 3, List.forall_mem_singleton.mpr
    ⟨nofun, List.forall_mem_singleton.mpr fun _ ↦ hworks⟩⟩
  have h₁₁ := h₁₀.snoc ⟨.within (i := 0) rfl rfl (.asked (k := 0)
    (e := ⟨.pause 25, ()⟩) rfl (.ask _ _)), trivial⟩
  have h₁₂ := h₁₁.snoc ⟨.within (i := 0) rfl rfl (.asked (k := 0)
    (e := ⟨.stopRenewal (Lock.key "job"), ()⟩) rfl (.ask _ _)), trivial⟩
  have h₁₃ := h₁₂.snoc ⟨.within (i := 0) rfl rfl (.asked (k := 0)
    (e := ⟨.deleteKey (Lock.key "job"), .ok ()⟩) rfl (.ask _ _)), trivial⟩
  have h₁₄ := h₁₃.snoc ⟨.within (i := 0) rfl rfl (.ended (k := 0) rfl (.done _) rfl), trivial⟩
  exact ⟨_, _, _, h₁₄, rfl, rfl, rfl, ⟨45, none⟩, .tail _ (.head _), by decide⟩

end Roster

end NodeInventory.Schedule
