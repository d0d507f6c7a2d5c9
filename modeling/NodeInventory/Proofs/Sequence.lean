import Mathlib.Data.Nat.Notation
import NodeInventory.Proofs.Interleaving
import NodeInventory.Simulation.Locking

/-!
# One program after another

What one program does that is followed by another is what it does alone, and from where it has ended
what the other one does (`Program.step_bind`, `Program.ended_bind`). So if neither of two programs
goes on for ever, the one followed by the other does not (`Program.Terminates.bind`), and a run of a
job comes to its end if the work of the job does (`Lock.terminates_run`).
-/

namespace NodeInventory

open Program

namespace Program

variable {α β : Type} {r : Request}

theorem afterAction_bind_eq {γ : Type} (x : Action γ) (g : γ → Program β) (f : β → Program α) :
    (afterAction x g >>= f) = afterAction x fun c ↦ g c >>= f := by
  induction x with
  | done c => rfl
  | ask r next ih => exact congrArg (Program.ask r) (funext ih)

/-- The first of two programs goes on, or it has ended and the second one goes on. -/
theorem step_bind {x : Program β} {f : β → Program α} {a : r.Answer} {q : Program α}
    (h : (x >>= f).Step r a q) :
    (∃ y, x.Step r a y ∧ q = (y >>= f)) ∨ ∃ b, x.Ended b ∧ (f b).Step r a q := by
  induction x with
  | done b => exact .inr ⟨b, .done b, h⟩
  | ask r' next =>
    cases (h : (Program.ask r' fun a ↦ next a >>= f).Step r a q) with
    | ask _ a => exact .inl ⟨next a, .ask next a, rfl⟩
  | batch n items next ih =>
    cases (h : (batch n items fun results ↦ next results >>= f).Step r a q) with
    | item xs ys a => exact .inl ⟨_, .item xs ys a, rfl⟩
    | joined hstep =>
      obtain ⟨y, hy, rfl⟩ | ⟨b, hb, hq⟩ := ih _ hstep
      · exact .inl ⟨y, .joined hy, rfl⟩
      · exact .inr ⟨b, .joined hb, hq⟩
  | loop question act s next =>
    cases (h : (loop question act s fun b ↦ next b >>= f).Step r a q) with
    | loop a =>
      refine .inl ⟨_, .loop a, ?_⟩
      rw [afterAction_bind_eq]
      refine congrArg (afterAction _) (funext fun c ↦ ?_)
      cases c <;> rfl

/-- When the first of two programs has ended, the second one goes on. -/
theorem Ended.step_bind {x : Program β} {f : β → Program α} {b : β} {a : r.Answer} {q : Program α}
    (hx : x.Ended b) (h : (f b).Step r a q) : (x >>= f).Step r a q := by
  induction hx with
  | done b => exact h
  | joined _ ih => exact .joined (ih h)

/-- Two programs have ended when the second one has. -/
theorem ended_bind {x : Program β} {f : β → Program α} {v : α} (h : (x >>= f).Ended v) :
    ∃ b, x.Ended b ∧ (f b).Ended v := by
  induction x with
  | done b => exact ⟨b, .done b, h⟩
  | ask r next => cases (h : (Program.ask r fun a ↦ next a >>= f).Ended v)
  | batch n items next ih =>
    cases (h : (batch n items fun results ↦ next results >>= f).Ended v) with
    | joined h =>
      obtain ⟨b, hb, hv⟩ := ih _ h
      exact ⟨b, .joined hb, hv⟩
  | loop question act s next => cases (h : (loop question act s fun b ↦ next b >>= f).Ended v)

/-! ## Programs that come to an end -/

/-- A program does not go on for ever, however it is answered. -/
def Terminates (x : Program α) : Prop :=
  Acc (fun y x : Program α ↦ ∃ (r : Request) (a : r.Answer), x.Step r a y) x

theorem Terminates.step {x y : Program α} {a : r.Answer} (h : x.Terminates)
    (hstep : x.Step r a y) : y.Terminates :=
  h.inv ⟨r, a, hstep⟩

theorem terminates_done (a : α) : (done a).Terminates :=
  .intro _ fun _ ⟨_, _, hstep⟩ ↦ nomatch hstep

theorem terminates_ask {next : r.Answer → Program α} (h : ∀ a, (next a).Terminates) :
    (ask r next).Terminates := by
  refine .intro _ fun y ⟨_, _, hstep⟩ ↦ ?_
  cases hstep with
  | ask _ a => exact h a

theorem terminates_afterAction {x : Action β} {f : β → Program α} (h : ∀ b, (f b).Terminates) :
    (afterAction x f).Terminates := by
  induction x with
  | done b => exact h b
  | ask r next ih => exact terminates_ask ih

theorem Terminates.bind {x : Program β} {f : β → Program α} (hx : x.Terminates)
    (hf : ∀ b, (f b).Terminates) : (x >>= f).Terminates := by
  induction hx with
  | intro x _ ih =>
    refine .intro _ fun q ⟨r, a, hstep⟩ ↦ ?_
    obtain ⟨y, hy, rfl⟩ | ⟨b, -, hstep⟩ := step_bind hstep
    · exact ih y ⟨r, a, hy⟩
    · exact (hf b).step hstep

theorem terminates_ofAction (x : Action α) : (ofAction x).Terminates :=
  terminates_afterAction terminates_done

theorem terminates_timedWork (duration : ℕ) (failure : Option Failure) :
    (Simulation.timedWork duration failure).Terminates :=
  terminates_ask fun _ ↦ by cases failure <;> exact terminates_done _

end Program

/-- A run of a job comes to its end if the work does. -/
theorem Lock.terminates_run (owner job : String) (ttl : ℕ) {work : Program (Result Unit)}
    (h : work.Terminates) : (run owner job ttl work).Terminates := by
  refine (terminates_ofAction _).bind fun answer ↦ ?_
  match answer with
  | .error _ | .ok false => exact (terminates_ofAction _).bind fun _ ↦ terminates_done _
  | .ok true =>
    refine (terminates_ofAction _).bind fun _ ↦ h.bind fun result ↦ ?_
    exact (terminates_ofAction _).bind fun _ ↦ (terminates_ofAction _).bind fun _ ↦
      (terminates_ofAction _).bind fun _ ↦ terminates_done _

end NodeInventory
