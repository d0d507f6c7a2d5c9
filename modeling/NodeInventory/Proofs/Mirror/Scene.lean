import NodeInventory.Proofs.Mirror.Registry
import NodeInventory.Proofs.Pass.Drain

/-!
# A pass and the registry

A pass as before, in a world whose registry remembers what it was told. Whenever somebody asks for
something, the world and the registry answer together; all else that happens in a pass concerns
neither the records nor the registry.

What happens in such a pass happens in a pass (`Step.pass`), and where a pass can go on, it can go
on with an answer that the registry gives (`exists_step`). So what is inevitable in a pass is so
here, together with whatever every step keeps (`Inevitable.lift`). In particular, what is inevitable
without any change leaves the registry as it is (`inevitable_unchanged`).
-/

namespace NodeInventory

open Simulation

namespace Program

variable {α : Type} {x y : Program α} {r : Request} {a : r.Answer}

theorem Step.exists_of_answer (h : x.Step r a y) (a' : r.Answer) : ∃ y', x.Step r a' y' := by
  induction h with
  | ask next a => exact ⟨_, .ask next a'⟩
  | item xs ys a => exact ⟨_, .item xs ys a'⟩
  | joined h ih =>
    obtain ⟨y', hy'⟩ := ih a'
    exact ⟨y', .joined hy'⟩
  | loop a => exact ⟨_, .loop a'⟩

end Program

namespace Mirror

open Pass

/-- The world and the registry, and the stages that are to come. -/
structure Scene : Type 1 where
  world : World
  registry : Registry
  stages : List Stage

/-- The scene without the registry. -/
def Scene.pass (s : Scene) : Pass.Scene := ⟨s.world, s.stages⟩

variable {d : Duties} {failing : Prop} {s t : Scene} {w w' : World} {g : Registry}
  {stages stages' : List Stage} {agent : ℕ} {r : Request} {a : r.Answer}

/-- Somebody asks for something in the stage at hand, is answered, and goes on. -/
inductive Asks : List Stage → (agent : ℕ) → (r : Request) → r.Answer → List Stage → Prop
  | job {x y : Program (Result Unit)} {r : Request} {a : r.Answer} {rest : List Stage}
      (hx : x.Step r a y) : Asks (.job x :: rest) 0 r a (.job y :: rest)
  | clerk {x y : Program (Result Unit)} {r : Request} {a : r.Answer} {before after : List Clerk}
      {worker : Worker} {rest : List Stage} (hx : x.Step r a y) :
    Asks (.drain (before ++ ⟨worker, some x⟩ :: after) :: rest) before.length r a
      (.drain (before ++ ⟨worker, some y⟩ :: after) :: rest)

/-- What else happens in the stage at hand, or that it is over. -/
inductive Turns (d : Duties) (w : World) : List Stage → World → List Stage → Prop
  | ended {x : Program (Result Unit)} {result : Result Unit} {rest : List Stage}
      (hx : x.Ended result) : Turns d w (.job x :: rest) w rest
  | took {coordination : KeyStore} {raw : String} {before after : List Clerk}
      {clerk : Clerk} {worker : Worker} {notes : List Request} {rest : List Stage}
      (hpop : w.coordination.pop? d.queue = some (raw, coordination))
      (hworker : clerk.worker.step d.queue (.popped raw) = some (worker, notes)) :
    Turns d w (.drain (before ++ clerk :: after) :: rest)
      (Pool.noteAll before.length notes { w with coordination })
      (.drain (before ++ ⟨worker, some (Task.dispatch d.handlers raw)⟩ :: after) :: rest)
  | finished {x : Program (Result Unit)} {result : Result Unit} {before after : List Clerk}
      {worker worker' : Worker} {notes : List Request} {rest : List Stage} (hx : x.Ended result)
      (hworker : worker.step d.queue (.handled result) = some (worker', notes)) :
    Turns d w (.drain (before ++ ⟨worker, some x⟩ :: after) :: rest)
      (Pool.noteAll before.length notes w) (.drain (before ++ ⟨worker', none⟩ :: after) :: rest)
  | drained {clerks : List Clerk} {rest : List Stage} (hqueue : w.queued d.queue = [])
      (hclerks : ∀ clerk ∈ clerks, clerk = {}) : Turns d w (.drain clerks :: rest) w rest

/-- Something happens in the stage at hand, or the stage is over. Calls of the registry fail only if
they may. -/
inductive Step (d : Duties) (failing : Prop) : Scene → Scene → Prop
  | told {w w' : World} {g g' : Registry} {stages stages' : List Stage} {agent : ℕ} {r : Request}
      {a : r.Answer} (hasks : Asks stages agent r a stages') (hw : Gives agent w r a w')
      (hg : g.Hears failing r a g') : Step d failing ⟨w, g, stages⟩ ⟨w', g', stages'⟩
  | turned {w w' : World} {g : Registry} {stages stages' : List Stage}
      (h : Turns d w stages w' stages') : Step d failing ⟨w, g, stages⟩ ⟨w', g, stages'⟩

/-! ## Passes with a registry and without -/

theorem Asks.exists_of_answer (h : Asks stages agent r a stages') (a' : r.Answer) :
    ∃ stages'', Asks stages agent r a' stages'' := by
  cases h with
  | job hx =>
    obtain ⟨y', hy'⟩ := hx.exists_of_answer a'
    exact ⟨_, .job hy'⟩
  | clerk hx =>
    obtain ⟨y', hy'⟩ := hx.exists_of_answer a'
    exact ⟨_, .clerk hy'⟩

theorem Step.pass (h : Step d failing s t) : Pass.Step d s.pass t.pass := by
  cases h with
  | told hasks hw =>
    cases hasks with
    | job hx => exact .asked hx hw
    | clerk hx => exact .worked hx hw
  | turned h =>
    cases h with
    | ended hx => exact .ended hx
    | took hpop hworker => exact .took hpop hworker
    | finished hx hworker => exact .finished hx hworker
    | drained hqueue hclerks => exact .drained hqueue hclerks

theorem asks_or_turns {u v : Pass.Scene} (h : Pass.Step d u v) :
    (∃ agent r a, Asks u.stages agent r a v.stages ∧ Gives agent u.world r a v.world) ∨
      Turns d u.world u.stages v.world v.stages := by
  cases h with
  | asked hx hw => exact .inl ⟨_, _, _, .job hx, hw⟩
  | ended hx => exact .inr (.ended hx)
  | took hpop hworker => exact .inr (.took hpop hworker)
  | worked hx hw => exact .inl ⟨_, _, _, .clerk hx, hw⟩
  | finished hx hworker => exact .inr (.finished hx hworker)
  | drained hqueue hclerks => exact .inr (.drained hqueue hclerks)

/-- Where a pass can go on, it can go on with an answer that the registry gives. -/
theorem exists_step (h : ∃ u, Pass.Step d s.pass u) : ∃ t, Step d failing s t := by
  obtain ⟨u, hu⟩ := h
  obtain ⟨agent, r, a, hasks, hw⟩ | hturns := asks_or_turns hu
  · by_cases hr : r.kind = .callFleet
    · cases r with
      | callFleet call =>
        obtain ⟨a', g', hg⟩ := s.registry.exists_hears failing call
        obtain ⟨stages', hasks'⟩ := hasks.exists_of_answer a'
        exact ⟨_, .told hasks' (.told call a') hg⟩
      | _ => cases hr
    · exact ⟨_, .told hasks hw (.other hr a)⟩
  · exact ⟨_, .turned hturns⟩

/-! ## Where nothing is changed -/

theorem changes_of_gives (h : Gives agent w r a w') : w'.changes = (w.note agent r).changes := by
  cases h with
  | found | told => rfl
  | answered => cases r <;> rfl

theorem length_changes_note (w : World) (agent : ℕ) (r : Request) :
    (w.note agent r).changes.length = w.changes.length + if r.isChange then 1 else 0 := by
  rw [World.changes, World.note, List.filter_cons]
  split <;> rfl

theorem changes_of_turns (h : Turns d w stages w' stages') : w'.changes = w.changes := by
  cases h with
  | ended | drained => rfl
  | @took coordination _ before _ _ _ _ _ _ hworker =>
    exact (still_noteAll before.length (Worker.isChange_of_step hworker) _).changes
  | @finished _ _ before _ _ _ _ _ _ hworker =>
    exact (still_noteAll before.length (Worker.isChange_of_step hworker) w).changes

/-- Whatever happens, the changes that were asked for are no fewer than before, and if they are no
more, the registry is as it was. -/
theorem Step.changes (h : Step d failing s t) :
    s.world.changes.length ≤ t.world.changes.length ∧
      (t.world.changes.length = s.world.changes.length → t.registry = s.registry) := by
  cases h with
  | turned h =>
    rw [changes_of_turns h]
    exact ⟨le_refl _, fun _ ↦ rfl⟩
  | @told w w' g g' _ _ agent r a _ hw hg =>
    rw [changes_of_gives hw, length_changes_note]
    refine ⟨Nat.le_add_right _ _, fun hsame ↦ ?_⟩
    cases hg with
    | failed | other => rfl
    | @applied call =>
      cases call with
      | heartbeat node => exact g.apply_heartbeat node
      | add | update | delete => simp [Request.isChange] at hsame

/-- What is inevitable in a pass, and without any change, leaves the registry as it is. -/
theorem inevitable_unchanged {p : Pass.Scene → Prop}
    (h : Inevitable (Pass.Step d) p ⟨w, stages⟩) (hp : ∀ u, p u → u.world.changes = w.changes) :
    Inevitable (Step d failing) (fun t ↦ p t.pass ∧ t.registry = g) ⟨w, g, stages⟩ := by
  let kept (t : Scene) : Prop := w.changes.length ≤ t.world.changes.length ∧
    (t.world.changes.length = w.changes.length → t.registry = g)
  have hkept : ∀ s t, kept s → Step d failing s t → kept t := fun s t hs hst ↦ by
    obtain ⟨hle, hsame⟩ := hst.changes
    refine ⟨hs.1.trans hle, fun hlength ↦ ?_⟩
    have hbefore : s.world.changes.length = w.changes.length :=
      le_antisymm (hlength ▸ hle) hs.1
    exact (hsame (hlength.trans hbefore.symm)).trans (hs.2 hbefore)
  have hstart : kept ⟨w, g, stages⟩ := ⟨le_refl _, fun _ ↦ rfl⟩
  refine (h.lift (f := Scene.pass) (fun _ _ ↦ Step.pass) (fun _ ↦ exists_step) hkept hstart).imp ?_
  rintro t ⟨ht, -, hsame⟩
  exact ⟨ht, hsame (congrArg List.length (hp t.pass ht))⟩

end Mirror

end NodeInventory
