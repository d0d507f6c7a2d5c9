import NodeInventory.Action

/-!
# Contracts

What an action may ask depends on what it was told, and what it is told depends on who else is
about. A contract says both, as an account that is kept along the way: which requests are allowed in
a state of the account, and with which answers the account may go on. An action *meets* a contract
if it stays within what is allowed whatever it is answered under the contract, and ends in a state
of the account in which its value is right.

The account belongs to the reasoning and not to the action, so one action can be held to several
contracts: one that remembers the last reading, one that watches the record of a single name, one
that counts.
-/

namespace NodeInventory

variable {σ α β : Type}

/-- A request and its answer. -/
structure Exchange where
  request : Request
  answer : request.Answer

/-- What an action may ask and may be answered, in terms of an account that is kept of both. -/
structure Contract (σ : Type) where
  /-- The requests that are allowed. -/
  allows : σ → Request → Prop
  /-- The answers that may come, and how the account goes on with each. -/
  answers : σ → (r : Request) → r.Answer → σ → Prop

namespace Action

/-- Started in a state of the account, the action asks only what is allowed, and ends with a value
that is right in the state in which it ends. -/
def Meets (c : Contract σ) (post : σ → α → Prop) : Action α → σ → Prop
  | done a, s => post s a
  | ask r next, s => c.allows s r ∧ ∀ a t, c.answers s r a t → (next a).Meets c post t

variable {c : Contract σ} {post : σ → α → Prop}

@[simp] theorem meets_done {a : α} {s : σ} : (done a).Meets c post s ↔ post s a := Iff.rfl

theorem meets_ask {r : Request} {next : r.Answer → Action α} {s : σ} :
    (ask r next).Meets c post s ↔
      c.allows s r ∧ ∀ a t, c.answers s r a t → (next a).Meets c post t := Iff.rfl

/-- An action that goes on is right in the end if what it goes on with is, from wherever it starts.
-/
theorem meets_bind {x : Action β} {f : β → Action α} {s : σ} :
    (x >>= f).Meets c post s ↔ x.Meets c (fun t b ↦ (f b).Meets c post t) s := by
  induction x generalizing s with
  | done b => rfl
  | ask r next ih =>
    rw [ask_bind, meets_ask, meets_ask]
    exact and_congr_right fun _ ↦ forall_congr' fun a ↦ forall_congr' fun t ↦
      imp_congr_right fun _ ↦ ih a

theorem Meets.imp {post' : σ → α → Prop} (hpost : ∀ s a, post s a → post' s a) {x : Action α}
    {s : σ} (h : x.Meets c post s) : x.Meets c post' s := by
  induction x generalizing s with
  | done a => exact hpost s a h
  | ask r next ih => exact ⟨h.1, fun a t hat ↦ ih a (h.2 a t hat)⟩

theorem Meets.bind {x : Action β} {f : β → Action α} {s : σ}
    (h : x.Meets c (fun t b ↦ (f b).Meets c post t) s) : (x >>= f).Meets c post s :=
  meets_bind.mpr h

theorem meets_ask_bind {r : Request} {f : r.Answer → Action α} {s : σ} (hr : c.allows s r)
    (hf : ∀ a t, c.answers s r a t → (f a).Meets c post t) : (ask r done >>= f).Meets c post s :=
  ⟨hr, hf⟩

end Action

end NodeInventory
