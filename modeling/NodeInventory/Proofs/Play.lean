import NodeInventory.Proofs.Interleaving

/-!
# Actions against any answers

Nothing is known here of who answers. An *opponent* makes up each answer as it likes, knowing all
that was exchanged before. An action comes to its end against every opponent (`Action.play`), since
each answer leaves less of it.

What can be exchanged in the end is told without an opponent: a log and a value are a *play* of an
action if there are answers that lead there (`Action.Plays`). The plays of two actions in a row are
the plays of the one followed by plays of the other (`Action.plays_bind`), so the plays of a long
action are found piece by piece. To tell the registry something takes one call, and what follows it
in a play is that it failed (`Fleet.exists_of_plays_tell`).

A program may go on for ever. Its plays are those that come to an end, and a play of a loop is one
round and a play of what is left (`Program.plays_loop`).
-/

namespace NodeInventory

variable {α β : Type}

/-- Somebody who answers anything to any request, in view of all that was exchanged before. -/
abbrev Opponent : Type := List Exchange → (r : Request) → r.Answer

namespace Action

/-- Plays an action to its end, after what was exchanged before: all that is exchanged now, and the
value. -/
def play (opponent : Opponent) : List Exchange → Action α → List Exchange × α
  | _, done a => ([], a)
  | before, ask r next =>
    let e : Exchange := ⟨r, opponent before r⟩
    let (log, a) := play opponent (before ++ [e]) (next e.answer)
    (e :: log, a)

/-- There are answers with which an action exchanges the log and ends with the value. -/
inductive Plays : Action α → List Exchange → α → Prop
  | done (a : α) : Plays (done a) [] a
  | ask {r : Request} {next : r.Answer → Action α} {log : List Exchange} {b : α} (a : r.Answer)
    (h : Plays (next a) log b) : Plays (ask r next) (⟨r, a⟩ :: log) b

theorem plays_play (opponent : Opponent) (before : List Exchange) (x : Action α) :
    x.Plays (x.play opponent before).1 (x.play opponent before).2 := by
  induction x generalizing before with
  | done a => exact .done a
  | ask r next ih => exact .ask _ (ih _ _)

variable {log : List Exchange} {b : β}

theorem plays_done {a b : α} : (done a).Plays log b ↔ log = [] ∧ b = a := by
  constructor
  · rintro ⟨⟩
    exact ⟨rfl, rfl⟩
  · rintro ⟨rfl, rfl⟩
    exact .done _

theorem plays_ask {r : Request} {next : r.Answer → Action β} :
    (ask r next).Plays log b ↔ ∃ a rest, log = ⟨r, a⟩ :: rest ∧ (next a).Plays rest b := by
  constructor
  · rintro ⟨⟩
    exact ⟨_, _, rfl, ‹_›⟩
  · rintro ⟨a, rest, rfl, h⟩
    exact .ask a h

theorem plays_bind {x : Action α} {f : α → Action β} :
    (x >>= f).Plays log b ↔
      ∃ first a rest, log = first ++ rest ∧ x.Plays first a ∧ (f a).Plays rest b := by
  induction x generalizing log with
  | done a =>
    constructor
    · exact fun h ↦ ⟨[], a, log, rfl, .done a, h⟩
    · rintro ⟨first, a, rest, rfl, ⟨⟩, h⟩
      exact h
  | ask r next ih =>
    rw [ask_bind, plays_ask]
    constructor
    · rintro ⟨a, rest, rfl, h⟩
      obtain ⟨first, c, rest, rfl, hfirst, hrest⟩ := (ih a).mp h
      exact ⟨_, c, rest, rfl, .ask a hfirst, hrest⟩
    · rintro ⟨first, c, rest, rfl, ⟨⟩, hrest⟩
      exact ⟨_, _, rfl, (ih _).mpr ⟨_, c, rest, rfl, ‹_›, hrest⟩⟩

theorem plays_ask_bind {r : Request} {f : r.Answer → Action β} :
    (ask r Action.done >>= f).Plays log b ↔
      ∃ a rest, log = ⟨r, a⟩ :: rest ∧ (f a).Plays rest b :=
  plays_ask

theorem Asks.of_plays {p : Request → Prop} {x : Action β} (hx : x.Asks p) (h : x.Plays log b) :
    ∀ e ∈ log, p e.request := by
  induction h with
  | done b => exact fun e he ↦ absurd he List.not_mem_nil
  | ask a h ih =>
    rw [List.forall_mem_cons]
    exact ⟨hx.1, ih (hx.2 a)⟩

end Action

/-! ## Programs -/

namespace Program

/-- There are answers with which a program exchanges the log, and then has ended with the value. -/
inductive Plays : Program α → List Exchange → α → Prop
  | ended {p : Program α} {v : α} (h : p.Ended v) : Plays p [] v
  | step {p q : Program α} {r : Request} {a : r.Answer} {log : List Exchange} {v : α}
    (hstep : p.Step r a q) (h : Plays q log v) : Plays p (⟨r, a⟩ :: log) v

variable {log : List Exchange} {v : α}

theorem plays_done {a : α} : (done a).Plays log v ↔ log = [] ∧ v = a := by
  constructor
  · rintro (⟨⟨⟩⟩ | ⟨⟨⟩, -⟩)
    exact ⟨rfl, rfl⟩
  · rintro ⟨rfl, rfl⟩
    exact .ended (.done v)

theorem plays_ask {r : Request} {next : r.Answer → Program α} :
    (ask r next).Plays log v ↔ ∃ a rest, log = ⟨r, a⟩ :: rest ∧ (next a).Plays rest v := by
  constructor
  · rintro (⟨⟨⟩⟩ | ⟨⟨⟩, h⟩)
    exact ⟨_, _, rfl, h⟩
  · rintro ⟨a, rest, rfl, h⟩
    exact .step (.ask next a) h

theorem plays_afterAction {x : Action β} {f : β → Program α} :
    (afterAction x f).Plays log v ↔
      ∃ first b rest, log = first ++ rest ∧ x.Plays first b ∧ (f b).Plays rest v := by
  induction x generalizing log with
  | done b =>
    constructor
    · exact fun h ↦ ⟨[], b, log, rfl, .done b, h⟩
    · rintro ⟨first, b, rest, rfl, ⟨⟩, h⟩
      exact h
  | ask r next ih =>
    rw [afterAction, plays_ask]
    constructor
    · rintro ⟨a, rest, rfl, h⟩
      obtain ⟨first, b, rest, rfl, hfirst, hrest⟩ := (ih a).mp h
      exact ⟨_, b, rest, rfl, .ask a hfirst, hrest⟩
    · rintro ⟨first, b, rest, rfl, ⟨⟩, hrest⟩
      exact ⟨_, _, rfl, (ih _).mpr ⟨_, b, rest, rfl, ‹_›, hrest⟩⟩

/-- The plays of a loop: one round, and what is left. -/
theorem plays_loop {σ : Type} {question : σ → Request}
    {act : (s : σ) → (question s).Answer → Action (σ ⊕ β)} {s : σ} {next : β → Program α} :
    (loop question act s next).Plays log v ↔
      ∃ a first c rest, log = ⟨question s, a⟩ :: (first ++ rest) ∧ (act s a).Plays first c ∧
        (c.elim (fun s' ↦ loop question act s' next) next).Plays rest v := by
  constructor
  · intro h
    cases h with
    | ended h => cases h
    | step hstep h =>
      cases hstep with
      | loop a =>
        obtain ⟨first, c, rest, rfl, hfirst, hrest⟩ := plays_afterAction.mp h
        exact ⟨a, first, c, rest, rfl, hfirst, by cases c <;> exact hrest⟩
  · rintro ⟨a, first, c, rest, rfl, hfirst, hrest⟩
    refine .step (.loop a) (plays_afterAction.mpr ⟨first, c, rest, rfl, hfirst, ?_⟩)
    cases c <;> exact hrest

end Program

/-! ## Telling the registry -/

namespace Fleet

open NodeInventory.Action

/-- The registry is told of something by one call. What follows is counted and reported. -/
theorem exists_of_plays_tell {source : Report.Source} {subject : String} {call : Call}
    {log : List Exchange} (h : (tell source subject call).Plays log ()) :
    ∃ a rest, log = ⟨.callFleet call, a⟩ :: rest ∧ ∀ e ∈ rest,
      e.request = .count .fleetCallErrors ∨ ∃ report, e.request = .report report := by
  obtain ⟨first, outcome, rest, rfl, hfirst, hrest⟩ := plays_bind.mp h
  obtain ⟨a, more, rfl, hmore⟩ := plays_ask_bind.mp hfirst
  refine ⟨a, more ++ rest, rfl, List.forall_mem_append.mpr ⟨?_, ?_⟩⟩
  · split at hmore
    · obtain ⟨rfl, -⟩ := plays_done.mp hmore
      exact fun e he ↦ absurd he List.not_mem_nil
    · obtain ⟨⟨⟩, _, rfl, hdone⟩ := plays_ask_bind.mp hmore
      obtain ⟨rfl, -⟩ := plays_done.mp hdone
      exact List.forall_mem_singleton.mpr (.inl rfl)
  · cases outcome with
    | ok =>
      obtain ⟨rfl, -⟩ := plays_done.mp hrest
      exact fun e he ↦ absurd he List.not_mem_nil
    | error f =>
      obtain ⟨⟨⟩, _, rfl, hdone⟩ := plays_ask.mp hrest
      obtain ⟨rfl, -⟩ := plays_done.mp hdone
      exact List.forall_mem_singleton.mpr (.inr ⟨_, rfl⟩)

end Fleet

end NodeInventory
