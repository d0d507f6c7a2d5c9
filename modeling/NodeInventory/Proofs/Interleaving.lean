import NodeInventory.Proofs.Footprint

/-!
# Programs among others

What a program may ask next when others ask in between. A batch leaves open which of its items goes
on: one whose turn it is not, because too many are under way, is one that simply does not go on yet,
so whatever holds of every order of the items holds for every bound on how many run at once.

A program either has come to its end or asks for something, and goes on whatever it is answered
(`ended_or_asks`). What it asks stays within a contract that it meets (`Meets.step`).
-/

namespace NodeInventory

variable {α β σ : Type}

/-- A request that is allowed in a state of the account, and after which the account is as it was.
-/
def Contract.Ignores (c : Contract σ) (s : σ) (r : Request) : Prop :=
  c.allows s r ∧ ∀ a t, c.answers s r a t → t = s

theorem Request.nonempty_answer (r : Request) : Nonempty r.Answer := by
  cases r with
  | startRenewal | stopRenewal | pause | count | report => exact ⟨()⟩
  | _ => exact ⟨Except.error (.plain "")⟩

namespace Program

/-! ## Steps -/

/-- A program asks, is answered, and goes on. -/
inductive Step : Program α → (r : Request) → r.Answer → Program α → Prop
  | ask {r : Request} (next : r.Answer → Program α) (a : r.Answer) : Step (ask r next) r a (next a)
  /-- Any item of a batch that is not done may go on. -/
  | item {n : Int} {next : List (Result Unit) → Program α} {r : Request}
      {go : r.Answer → Action (Result Unit)} (xs ys : List (Action (Result Unit))) (a : r.Answer) :
    Step (batch n (xs ++ .ask r go :: ys) next) r a (batch n (xs ++ go a :: ys) next)
  /-- When all items are done, what follows goes on. -/
  | joined {n : Int} {next : List (Result Unit) → Program α} {results : List (Result Unit)}
      {r : Request} {a : r.Answer} {q : Program α} (h : Step (next results) r a q) :
    Step (batch n (results.map .done) next) r a q
  | loop {ι κ : Type} {question : ι → Request}
      {act : (s : ι) → (question s).Answer → Action (ι ⊕ κ)} {s : ι} {next : κ → Program α}
      (a : (question s).Answer) :
    Step (loop question act s next) (question s) a (afterAction (act s a) fun
      | .inl s' => loop question act s' next
      | .inr b => next b)

/-- A program has nothing left to ask, and has the value. -/
inductive Ended : Program α → α → Prop
  | done (a : α) : Ended (done a) a
  | joined {n : Int} {next : List (Result Unit) → Program α} {results : List (Result Unit)} {a : α}
      (h : Ended (next results) a) :
    Ended (batch n (results.map .done) next) a

theorem all_done_or_asks (items : List (Action (Result Unit))) :
    (∃ results : List (Result Unit), items = results.map .done) ∨
      ∃ xs r go ys, items = xs ++ .ask r go :: ys := by
  induction items with
  | nil => exact .inl ⟨[], rfl⟩
  | cons x items ih =>
    cases x with
    | ask r go => exact .inr ⟨[], r, go, items, rfl⟩
    | done result =>
      obtain ⟨results, rfl⟩ | ⟨xs, r, go, ys, rfl⟩ := ih
      · exact .inl ⟨result :: results, rfl⟩
      · exact .inr ⟨.done result :: xs, r, go, ys, rfl⟩

/-- A program that has not ended asks for something, and goes on with every answer. -/
theorem ended_or_asks (p : Program α) :
    (∃ a, p.Ended a) ∨ ∃ r, ∀ a, ∃ q, p.Step r a q := by
  induction p with
  | done a => exact .inl ⟨a, .done a⟩
  | ask r next => exact .inr ⟨r, fun a ↦ ⟨next a, .ask next a⟩⟩
  | batch n items next ih =>
    obtain ⟨results, rfl⟩ | ⟨xs, r, go, ys, rfl⟩ := all_done_or_asks items
    · obtain ⟨a, ha⟩ | ⟨r, hr⟩ := ih results
      · exact .inl ⟨a, .joined ha⟩
      · refine .inr ⟨r, fun a ↦ ?_⟩
        obtain ⟨q, hq⟩ := hr a
        exact ⟨q, .joined hq⟩
    · exact .inr ⟨r, fun a ↦ ⟨_, .item xs ys a⟩⟩
  | loop question act s next => exact .inr ⟨question s, fun a ↦ ⟨_, .loop a⟩⟩

/-! ## Contracts of programs -/

/-- A program meets a contract with what it asks one at a time. What it asks in batches and loops
has to leave the account alone, so that nothing depends on the order of the items. -/
def Meets (c : Contract σ) (post : σ → α → Prop) : Program α → σ → Prop
  | done a, s => post s a
  | ask r next, s => c.allows s r ∧ ∀ a t, c.answers s r a t → (next a).Meets c post t
  | batch _ items next, s => (∀ x ∈ items, x.Asks (c.Ignores s)) ∧
    ∀ results, (next results).Meets c post s
  | loop question act _ next, s => (∀ u, c.Ignores s (question u)) ∧
    (∀ u a, (act u a).Asks (c.Ignores s)) ∧ ∀ b, (next b).Meets c post s

variable {c : Contract σ} {post : σ → α → Prop} {s : σ}

theorem Meets.bind {x : Program β} {f : β → Program α}
    (h : x.Meets c (fun t b ↦ (f b).Meets c post t) s) : (x >>= f).Meets c post s := by
  induction x generalizing s with
  | done b => exact h
  | ask r next ih => exact ⟨h.1, fun a t hat ↦ ih a (h.2 a t hat)⟩
  | batch n items next ih => exact ⟨h.1, fun results ↦ ih results (h.2 results)⟩
  | loop question act u next ih => exact ⟨h.1, h.2.1, fun b ↦ ih b (h.2.2 b)⟩

theorem meets_afterAction {x : Action β} {f : β → Program α}
    (h : x.Meets c (fun t b ↦ (f b).Meets c post t) s) : (afterAction x f).Meets c post s := by
  induction x generalizing s with
  | done b => exact h
  | ask r next ih => exact ⟨h.1, fun a t hat ↦ ih a (h.2 a t hat)⟩

theorem Asks.meets {x : Program α} (hx : x.Asks (c.Ignores s)) : x.Meets c (fun t _ ↦ t = s) s := by
  induction x with
  | done a => rfl
  | ask r next ih =>
    refine ⟨hx.1.1, fun a t hat ↦ ?_⟩
    rw [hx.1.2 a t hat]
    exact ih a (hx.2 a)
  | batch n items next ih => exact ⟨hx.1, fun results ↦ ih results (hx.2 results)⟩
  | loop question act u next ih => exact ⟨hx.1, hx.2.1, fun b ↦ ih b (hx.2.2 b)⟩

theorem Meets.imp {post' : σ → α → Prop} (hpost : ∀ s a, post s a → post' s a) {x : Program α}
    (h : x.Meets c post s) : x.Meets c post' s := by
  induction x generalizing s with
  | done a => exact hpost s a h
  | ask r next ih => exact ⟨h.1, fun a t hat ↦ ih a (h.2 a t hat)⟩
  | batch n items next ih => exact ⟨h.1, fun results ↦ ih results (h.2 results)⟩
  | loop question act u next ih => exact ⟨h.1, h.2.1, fun b ↦ ih b (h.2.2 b)⟩

theorem meets_afterAction_of_ignores {x : Action β} {f : β → Program α}
    (hx : x.Asks (c.Ignores s)) (hf : ∀ b, (f b).Meets c post s) :
    (afterAction x f).Meets c post s := by
  induction x with
  | done b => exact hf b
  | ask r next ih =>
    refine ⟨hx.1.1, fun a t hat ↦ ?_⟩
    rw [hx.1.2 a t hat]
    exact ih a (hx.2 a)

/-- What a program asks next is allowed, and what it goes on with meets the contract still. -/
theorem Meets.step {p q : Program α} {r : Request} {a : r.Answer} (h : p.Meets c post s)
    (hstep : p.Step r a q) : c.allows s r ∧ ∀ t, c.answers s r a t → q.Meets c post t := by
  induction hstep with
  | ask next a => exact ⟨h.1, fun t hat ↦ h.2 a t hat⟩
  | @item n next r go xs ys a =>
    have hitem : (Action.ask r go).Asks (c.Ignores s) := h.1 _ (by simp)
    refine ⟨hitem.1.1, fun t hat ↦ ?_⟩
    rw [hitem.1.2 a t hat]
    refine ⟨fun x hx ↦ ?_, h.2⟩
    rw [List.mem_append, List.mem_cons] at hx
    obtain hx | rfl | hx := hx
    · exact h.1 x (by simp [hx])
    · exact hitem.2 a
    · exact h.1 x (by simp [hx])
  | joined hstep ih => exact ih (h.2 _)
  | @loop ι κ question act u next a =>
    refine ⟨(h.1 u).1, fun t hat ↦ ?_⟩
    rw [(h.1 u).2 a t hat]
    refine meets_afterAction_of_ignores (h.2.1 u a) fun b ↦ ?_
    cases b with
    | inl u' => exact h
    | inr b => exact h.2.2 b

theorem Meets.of_ended {p : Program α} {a : α} (h : p.Meets c post s) (hend : p.Ended a) :
    post s a := by
  induction hend with
  | done a => exact h
  | joined _ ih => exact ih (h.2 _)

end Program

end NodeInventory
