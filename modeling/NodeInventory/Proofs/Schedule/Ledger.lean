import Mathlib.Order.Basic
import Mathlib.Order.Nat
import NodeInventory.Proofs.Schedule.Roster

/-!
# Ledgers of ticks and runs

The ticks that were taken of a job and the times of its runs are the *ledger* of the job, and the
driver keeps it, whatever happens (`Lane.Step.tended`): every run starts at its tick or, if the job
waits, when the run before it ends.

The one thing to see is that all runs of a job that waits have ended, except the last
(`Ledger.eq_last`). So a driver that waits at a tick waits for the last run, and the next run starts
when this one has ended.
-/

namespace NodeInventory.Schedule

/-! ## Ledgers -/

/-- The runs of a job when the driver has started another one, if it has. -/
def entered (now : ℕ) (ts : List Timing) (started : Option ℕ) : List Timing :=
  ts ++ started.toList.map fun _ ↦ ⟨now, none⟩

/-- The run before the `k`-th one ends at a time. -/
def FollowsUpon (ts : List Timing) (k time : ℕ) : Prop :=
  ∃ j before, k = j + 1 ∧ ts[j]? = some before ∧ before.finish = some time

/-- What the `k`-th run has started for. -/
def Answers (waits : Bool) (ts : List Timing) (k tick start : ℕ) : Prop :=
  tick = start ∨ waits = true ∧ tick ≤ start ∧ FollowsUpon ts k start

/-- The first run has ended when the second one starts. -/
def Timing.Before (t u : Timing) : Prop := ∃ time, t.finish = some time ∧ time ≤ u.start

/-- What is so of the ticks that were taken, of the runs, and of those which are under way. -/
structure Ledger (waits : Bool) (ticks : List ℕ) (now : ℕ) (inFlight : List ℕ)
    (ts : List Timing) : Prop where
  nodup : inFlight.Nodup
  mem_inFlight : ∀ k, k ∈ inFlight ↔ ∃ start, ts[k]? = some ⟨start, none⟩
  start_le : ∀ t ∈ ts, t.start ≤ now
  finish_le : ∀ t ∈ ts, ∀ time, t.finish = some time → t.start ≤ time ∧ time ≤ now
  serial : waits = true → ts.Pairwise Timing.Before
  tick_le : ∀ tick ∈ ticks, tick ≤ now
  answers : ∀ k t, ts[k]? = some t → ∃ tick, ticks[k]? = some tick ∧ Answers waits ts k tick t.start

variable {waits : Bool} {ticks inFlight : List ℕ} {now j k began time : ℕ} {ts : List Timing}

@[simp] theorem entered_none (now : ℕ) (ts : List Timing) : entered now ts none = ts :=
  List.append_nil ts

@[simp] theorem entered_some (now : ℕ) (ts : List Timing) (run : ℕ) :
    entered now ts (some run) = ts ++ [⟨now, none⟩] := rfl

theorem lt_or_eq_of_getElem?_concat {t u : Timing} (h : (ts ++ [u])[k]? = some t) :
    k < ts.length ∧ ts[k]? = some t ∨ k = ts.length ∧ u = t := by
  rcases Nat.lt_trichotomy k ts.length with hlt | rfl | hgt
  · rw [List.getElem?_append_left hlt] at h
    exact .inl ⟨hlt, h⟩
  · rw [List.getElem?_concat_length] at h
    exact .inr ⟨rfl, Option.some.inj h⟩
  · rw [List.getElem?_eq_none (by simp; omega)] at h
    cases h

theorem exists_of_getElem?_set {t : Timing} (hk : ts[k]? = some ⟨began, none⟩)
    (hj : (ts.set k ⟨began, some now⟩)[j]? = some t) : ∃ u, ts[j]? = some u ∧ u.start = t.start := by
  obtain ⟨hlt, -⟩ := List.getElem?_eq_some_iff.mp hk
  by_cases hkj : k = j
  · subst hkj
    rw [List.getElem?_set_self hlt] at hj
    obtain rfl := Option.some.inj hj
    exact ⟨_, hk, rfl⟩
  · rw [List.getElem?_set_ne hkj] at hj
    exact ⟨t, hj, rfl⟩

theorem FollowsUpon.enter (h : FollowsUpon ts k time) (hk : k ≤ ts.length) (more : List Timing) :
    FollowsUpon (ts ++ more) k time := by
  obtain ⟨j, before, rfl, hbefore, hfinish⟩ := h
  exact ⟨j, before, rfl, by rwa [List.getElem?_append_left hk], hfinish⟩

theorem FollowsUpon.finish (h : FollowsUpon ts j time) (hk : ts[k]? = some ⟨began, none⟩) :
    FollowsUpon (ts.set k ⟨began, some now⟩) j time := by
  obtain ⟨i, before, rfl, hbefore, hfinish⟩ := h
  refine ⟨i, before, rfl, ?_, hfinish⟩
  rw [List.getElem?_set_ne]
  · exact hbefore
  · rintro rfl
    rw [hk] at hbefore
    cases hbefore
    cases hfinish

namespace Ledger

theorem nil (waits : Bool) (now : ℕ) : Ledger waits [] now [] [] where
  nodup := List.nodup_nil
  mem_inFlight k := by simp
  start_le t ht := nomatch ht
  finish_le t ht := nomatch ht
  serial _ := .nil
  tick_le tick htick := nomatch htick
  answers k t ht := nomatch ht

theorem tick (h : Ledger waits ticks now inFlight ts) :
    Ledger waits (ticks ++ [now]) now inFlight ts := by
  refine { h with tick_le := fun tick htick ↦ ?_, answers := fun k t ht ↦ ?_ }
  · rw [List.mem_append, List.mem_singleton] at htick
    obtain htick | rfl := htick
    · exact h.tick_le tick htick
    · exact le_rfl
  · obtain ⟨tick, htick, hans⟩ := h.answers k t ht
    obtain ⟨hlt, -⟩ := List.getElem?_eq_some_iff.mp htick
    exact ⟨tick, by rwa [List.getElem?_append_left hlt], hans⟩

theorem pass (h : Ledger waits ticks now inFlight ts) (millis : ℕ) :
    Ledger waits ticks (now + millis) inFlight ts :=
  { h with
    start_le := fun t ht ↦ (h.start_le t ht).trans (Nat.le_add_right ..)
    finish_le := fun t ht time htime ↦
      (h.finish_le t ht time htime).imp_right (·.trans (Nat.le_add_right ..))
    tick_le := fun tick htick ↦ (h.tick_le tick htick).trans (Nat.le_add_right ..) }

/-- Only the last run of a job that waits is under way. -/
theorem eq_last (h : Ledger waits ticks now inFlight ts) (hwaits : waits = true)
    (hk : ts[k]? = some ⟨began, none⟩) : k + 1 = ts.length := by
  obtain ⟨hlt, hget⟩ := List.getElem?_eq_some_iff.mp hk
  by_contra hne
  obtain ⟨time, htime, -⟩ := List.pairwise_iff_getElem.mp (h.serial hwaits) k (k + 1) hlt
    (by omega) (Nat.lt_succ_self k)
  rw [hget] at htime
  cases htime

theorem finish (h : Ledger waits ticks now inFlight ts) (hk : ts[k]? = some ⟨began, none⟩) :
    Ledger waits ticks now (inFlight.erase k) (ts.set k ⟨began, some now⟩) := by
  obtain ⟨hlt, hget⟩ := List.getElem?_eq_some_iff.mp hk
  have hstart : began ≤ now := h.start_le _ (List.mem_of_getElem? hk)
  refine ⟨h.nodup.erase k, fun j ↦ ?_, fun t ht ↦ ?_, fun t ht time htime ↦ ?_, fun hwaits ↦ ?_,
    h.tick_le, fun j t hj ↦ ?_⟩
  · rw [h.nodup.mem_erase_iff, h.mem_inFlight, List.getElem?_set]
    by_cases hjk : k = j
    · subst hjk
      simp [hlt]
    · simp [hjk, Ne.symm hjk]
  · obtain ht | rfl := List.mem_or_eq_of_mem_set ht
    · exact h.start_le t ht
    · exact hstart
  · obtain ht | rfl := List.mem_or_eq_of_mem_set ht
    · exact h.finish_le t ht time htime
    · cases htime
      exact ⟨hstart, le_rfl⟩
  · rw [List.pairwise_iff_getElem]
    intro i j hi hj hij
    rw [List.length_set] at hi hj
    have hbefore := List.pairwise_iff_getElem.mp (h.serial hwaits) i j hi hj hij
    have hlast := h.eq_last hwaits hk
    rw [List.getElem_set_ne (by omega)]
    by_cases hjk : k = j
    · subst hjk
      rw [hget] at hbefore
      rwa [List.getElem_set_self]
    · rwa [List.getElem_set_ne hjk]
  · obtain ⟨u, hu, hut⟩ := exists_of_getElem?_set hk hj
    obtain ⟨tick, htick, hans⟩ := h.answers j u hu
    rw [hut] at hans
    exact ⟨tick, htick, hans.imp_right fun ⟨hwaits, hle, hupon⟩ ↦ ⟨hwaits, hle, hupon.finish hk⟩⟩

/-- A run starts. -/
theorem enter {tick : ℕ} (h : Ledger waits ticks now inFlight ts)
    (hserial : waits = true → inFlight = []) (htick : ticks[ts.length]? = some tick)
    (hans : Answers waits ts ts.length tick now) :
    Ledger waits ticks now (inFlight ++ [ts.length]) (ts ++ [⟨now, none⟩]) := by
  have hfresh : ts.length ∉ inFlight := by simp [h.mem_inFlight]
  refine ⟨?_, fun k ↦ ?_, fun t ht ↦ ?_, fun t ht time htime ↦ ?_, fun hwaits ↦ ?_, h.tick_le,
    fun k t hk ↦ ?_⟩
  · exact List.nodup_append.mpr ⟨h.nodup, by simp, fun k hk j hj ↦
      ne_of_mem_of_not_mem hk (List.mem_singleton.mp hj ▸ hfresh)⟩
  · rw [List.mem_append, List.mem_singleton, h.mem_inFlight]
    rcases Nat.lt_trichotomy k ts.length with hlt | rfl | hgt
    · simp [hlt.ne, List.getElem?_append_left hlt]
    · simp
    · rw [List.getElem?_eq_none hgt.le, List.getElem?_eq_none (by simp; omega)]
      simp [hgt.ne']
  · rw [List.mem_append, List.mem_singleton] at ht
    obtain ht | rfl := ht
    · exact h.start_le t ht
    · exact le_rfl
  · rw [List.mem_append, List.mem_singleton] at ht
    obtain ht | rfl := ht
    · exact h.finish_le t ht time htime
    · cases htime
  · refine List.pairwise_append.mpr ⟨h.serial hwaits, by simp, fun t ht u hu ↦ ?_⟩
    rw [List.mem_singleton.mp hu]
    obtain ⟨k, hk⟩ := List.getElem?_of_mem ht
    obtain ⟨start, finish⟩ := t
    cases finish with
    | none => simpa [hserial hwaits] using (h.mem_inFlight k).mpr ⟨start, hk⟩
    | some time => exact ⟨time, rfl, (h.finish_le _ ht time rfl).2⟩
  · have hkeep : ∀ {k tick start}, k ≤ ts.length → Answers waits ts k tick start →
        Answers waits (ts ++ [⟨now, none⟩]) k tick start := fun hk hans ↦
      hans.imp_right fun hafter ↦ ⟨hafter.1, hafter.2.1, hafter.2.2.enter hk _⟩
    rcases lt_or_eq_of_getElem?_concat hk with ⟨hlt, hk⟩ | ⟨rfl, rfl⟩
    · obtain ⟨tick, htick, hans⟩ := h.answers k t hk
      exact ⟨tick, htick, hkeep hlt.le hans⟩
    · exact ⟨tick, htick, hkeep le_rfl hans⟩

theorem getLast?_of_ne_nil (h : Ledger waits ticks now inFlight ts) (hwaits : waits = true)
    (hflight : inFlight ≠ []) : ∃ t, ts.getLast? = some t ∧ t.finish = none := by
  obtain ⟨k, hk⟩ := List.exists_mem_of_ne_nil _ hflight
  obtain ⟨began, hget⟩ := (h.mem_inFlight k).mp hk
  refine ⟨⟨began, none⟩, ?_, rfl⟩
  rw [List.getLast?_eq_getElem?, ← h.eq_last hwaits hget, Nat.add_sub_cancel, hget]

end Ledger

/-! ## Drivers that keep a ledger -/

/-- A driver keeps the ledger of its job. -/
structure Tended (waits : Bool) (ticks : List ℕ) (now : ℕ) (d : Driver) (ts : List Timing) : Prop
    where
  ledger : Ledger waits ticks now d.inFlight ts
  waits_eq : d.waits = waits
  waits_of_blocked : d.phase = .blocked → waits = true
  inFlight_ne_nil : d.phase = .blocked ∨ d.phase = .draining → d.inFlight ≠ []
  inFlight_eq_nil : d.phase = .stopped → d.inFlight = []
  ticks_length : ticks.length = ts.length + if d.phase = .blocked then 1 else 0

variable {d d' : Driver} {started : Option ℕ}

namespace Tended

theorem start (now period : ℕ) (waits : Bool) :
    Tended waits [] now { ticker := .start period now, waits } [] where
  ledger := .nil waits now
  waits_eq := rfl
  waits_of_blocked := nofun
  inFlight_ne_nil := nofun
  inFlight_eq_nil := nofun
  ticks_length := rfl

theorem pass (h : Tended waits ticks now d ts) (millis : ℕ) :
    Tended waits ticks (now + millis) d ts :=
  { h with ledger := h.ledger.pass millis }

theorem hear (h : Tended waits ticks now d ts) (hlistens : d.phase = .listening) :
    Tended waits ticks now d.hear ts := by
  have hlength : ticks.length = ts.length := by simpa [hlistens] using h.ticks_length
  rcases Driver.phase_hear (d := d) with ⟨hnil, hphase⟩ | ⟨hne, hphase⟩
  · exact ⟨h.ledger, h.waits_eq, by simp [hphase], by simp [hphase], fun _ ↦ hnil,
      by simp [hphase, hlength]⟩
  · exact ⟨h.ledger, h.waits_eq, by simp [hphase], fun _ ↦ hne, by simp [hphase],
      by simp [hphase, hlength]⟩

theorem tick (h : Tended waits ticks now d ts) (hlistens : d.phase = .listening)
    (hstep : d.step (.tick now ts.length) = (d', started)) :
    Tended waits (ticks ++ [now]) now d' (entered now ts started) := by
  have hlength : ticks.length = ts.length := by simpa [hlistens] using h.ticks_length
  rcases Driver.step_tick hlistens hstep with
    ⟨hwaits, hflight, rfl, rfl⟩ | ⟨hflight, rfl, rfl⟩
  -- the driver waits for the run under way
  · rw [entered_none]
    exact ⟨h.ledger.tick, h.waits_eq, fun _ ↦ h.waits_eq ▸ hwaits, fun _ ↦ hflight, nofun,
      by simp [hlength]⟩
  -- the run starts at the tick
  · refine ⟨?_, h.waits_eq, nofun, by simp, nofun, by simp [hlength]⟩
    refine h.ledger.tick.enter (fun hwaits ↦ hflight (h.waits_eq.trans hwaits)) ?_ (.inl rfl)
    rw [← hlength, List.getElem?_concat_length]

theorem ended (h : Tended waits ticks now d ts) (hk : ts[k]? = some ⟨began, none⟩)
    (hstep : d.step (.ended k ts.length) = (d', started)) :
    Tended waits ticks now d' (entered now (ts.set k ⟨began, some now⟩) started) := by
  have hfinish := h.ledger.finish hk
  rcases Driver.step_ended hstep with
    ⟨hphase, hnil, rfl, rfl⟩ | ⟨hphase, hnil, rfl, rfl⟩ | ⟨hphase, rfl, rfl⟩
  -- the driver has waited for this run, which is the last
  · rw [hnil] at hfinish
    have hlast := h.ledger.eq_last (h.waits_of_blocked hphase) hk
    have hlength : ticks.length = ts.length + 1 := by simpa [hphase] using h.ticks_length
    obtain ⟨tick, htick⟩ : ∃ tick, ticks[ts.length]? = some tick := by
      rw [List.getElem?_eq_getElem (by omega)]
      exact ⟨_, rfl⟩
    have henter := hfinish.enter (fun _ ↦ rfl) (by rwa [List.length_set])
      (.inr ⟨h.waits_of_blocked hphase, h.ledger.tick_le tick (List.mem_of_getElem? htick), k,
        ⟨began, some now⟩, by rw [List.length_set, hlast],
        by rw [List.getElem?_set_self (by omega)], rfl⟩)
    rw [List.length_set] at henter
    exact ⟨henter, h.waits_eq, nofun, by simp, nofun, by simp [hlength]⟩
  · rw [hnil] at hfinish
    rw [entered_none]
    refine ⟨hfinish, h.waits_eq, nofun, by simp, fun _ ↦ rfl, ?_⟩
    simpa [hphase] using h.ticks_length
  · rw [entered_none]
    refine ⟨hfinish, h.waits_eq, h.waits_of_blocked, fun hawaits hnil ↦ ?_, fun hstopped ↦ ?_, ?_⟩
    · exact hawaits.elim (hphase hnil).1 (hphase hnil).2
    · rw [h.inFlight_eq_nil hstopped]
      rfl
    · simpa using h.ticks_length

end Tended

/-! ## Steps of a job -/

variable {program : ℕ → Program RunOutcome} {shut : Option ℕ} {l l' : Lane}

theorem Lane.timings_launch (program : ℕ → Program RunOutcome) (now : ℕ) (runs : List Attempt)
    (started : Option ℕ) :
    (launch program now runs started).map (·.timing) =
      entered now (runs.map (·.timing)) started := by
  cases started <;> simp [launch]

theorem Lane.getElem?_timings {a : Attempt} (hrun : l.runs[k]? = some a) :
    l.timings[k]? = some a.timing := by
  rw [Lane.timings, List.getElem?_map, hrun, Option.map_some]

theorem map_set_eq_map {α β : Type*} {f : α → β} {xs : List α} {x y : α} (hx : xs[k]? = some x)
    (h : f y = f x) : (xs.set k y).map f = xs.map f := by
  refine List.ext_getElem? fun j ↦ ?_
  rw [List.getElem?_map, List.getElem?_map]
  by_cases hkj : k = j
  · subst hkj
    obtain ⟨hlt, -⟩ := List.getElem?_eq_some_iff.mp hx
    rw [List.getElem?_set_self hlt, hx, Option.map_some, Option.map_some, h]
  · rw [List.getElem?_set_ne hkj]

theorem Lane.timings_ask {d : Driver} {p q : Program RunOutcome}
    (hrun : l.runs[k]? = some ⟨⟨began, none⟩, p⟩) :
    (⟨d, l.runs.set k ⟨⟨began, none⟩, q⟩⟩ : Lane).timings = l.timings :=
  map_set_eq_map hrun rfl

/-- Whatever happens to a job, its driver keeps the ledger. -/
theorem Lane.Step.tended {e : Lane.Event} (hstep : l.Step program now shut e l')
    (h : Tended waits ticks now l.driver l.timings) :
    Tended waits (ticks ++ e.tick?.toList) now l'.driver l'.timings := by
  have hlength : l.timings.length = l.runs.length := List.length_map ..
  cases hstep with
  | ticked hlistens hdue hstep =>
    rw [← hlength] at hstep
    rw [Lane.timings, Lane.timings_launch]
    exact h.tick hlistens hstep
  | asked hrun hstep =>
    rw [Lane.Event.tick?, Option.toList_none, List.append_nil, Lane.timings_ask hrun]
    exact h
  | ended hrun hended hstep =>
    rw [← hlength] at hstep
    rw [Lane.Event.tick?, Option.toList_none, List.append_nil, Lane.timings, Lane.timings_launch,
      List.map_set]
    exact h.ended (Lane.getElem?_timings hrun) hstep
  | heard hshut hlistens =>
    rw [Lane.Event.tick?, Option.toList_none, List.append_nil]
    exact h.hear hlistens

namespace Roster

variable {c : Agenda} {s : Roster} {events : List Event} {i : ℕ} {plan : Plan}

theorem length_lanes (hrun : Run (Step c) (c.start now) events s) :
    s.lanes.length = c.plans.length := by
  refine hrun.invariant (p := fun s ↦ s.lanes.length = c.plans.length)
    (List.length_map ..) fun s e t h hstep ↦ ?_
  cases hstep with
  | within => rwa [List.length_set]
  | signalled | passed => exact h

/-- The driver of every job keeps the ledger of the ticks that were taken. -/
theorem tended_of_run (hrun : Run (Step c) (c.start now) events s)
    (hplan : c.plans[i]? = some plan) :
    ∃ l, s.lanes[i]? = some l ∧
      Tended plan.waits (events.filterMap (Event.tick? i)) s.now l.driver l.timings := by
  induction hrun with
  | nil =>
    exact ⟨⟨{ ticker := .start plan.period now, waits := plan.waits }, []⟩,
      by rw [Agenda.start, List.getElem?_map, hplan, Option.map_some],
      .start now plan.period plan.waits⟩
  | snoc _ hstep ih =>
    obtain ⟨l, hlane, hl⟩ := ih
    rw [filterMap_snoc]
    cases hstep with
    | @within j plan' l₀ l' e hplan' hlane' hstep =>
      rw [Event.tick?]
      by_cases hji : j = i
      · subst hji
        rw [hlane, Option.some.injEq] at hlane'
        subst hlane'
        obtain ⟨hlt, -⟩ := List.getElem?_eq_some_iff.mp hlane
        exact ⟨l', List.getElem?_set_self hlt, by simpa using hstep.tended hl⟩
      · exact ⟨l, by rwa [List.getElem?_set_ne hji], by simpa [hji] using hl⟩
    | signalled => exact ⟨l, hlane, by simpa [Event.tick?] using hl⟩
    | passed millis => exact ⟨l, hlane, by simpa [Event.tick?] using hl.pass millis⟩

theorem tended_of_lane {l : Lane} (hrun : Run (Step c) (c.start now) events s)
    (hplan : c.plans[i]? = some plan) (hlane : s.lanes[i]? = some l) :
    Tended plan.waits (events.filterMap (Event.tick? i)) s.now l.driver l.timings := by
  obtain ⟨l', hlane', h⟩ := tended_of_run hrun hplan
  obtain rfl := Option.some.inj (hlane.symm.trans hlane')
  exact h

end Roster

end NodeInventory.Schedule
