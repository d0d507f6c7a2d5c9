import NodeInventory.Proofs.Inevitable
import NodeInventory.Proofs.Pass.Chores

/-!
# What a program is bound to do

A program *owes* a request if it asks for it sooner or later, however it is answered and whichever
of its items go on first. As long as it owes something it has not ended, and a step that is not the
request itself leaves it owing (`Program.Owes.step`); so by the time it has ended the request was
made.

A program without loops is bound to end: each step that it takes leaves less of it
(`Program.Loopless.acc`). A loop may be kept going by its answers.
-/

namespace NodeInventory

open Relation Pass

variable {α β : Type} {p : Request → Prop} {q r : Request}

/-! ## Requests that come sooner or later -/

/-- However it is answered, an action asks for a request before it is done. -/
inductive Action.Owes (r : Request) : Action α → Prop
  | now (next : r.Answer → Action α) : Owes r (ask r next)
  | later {q : Request} {next : q.Answer → Action α} (h : ∀ a, Owes r (next a)) :
    Owes r (ask q next)

namespace Program

theorem asks_afterAction {x : Action β} {f : β → Program α} (hx : x.Asks p)
    (hf : ∀ b, (f b).Asks p) : (afterAction x f).Asks p := by
  induction x with
  | done b => exact hf b
  | ask r next ih => exact ⟨hx.1, fun a ↦ ih a (hx.2 a)⟩

/-- What a program asks for it may ask for, and goes on with what asks for nothing else. -/
theorem Asks.step {x y : Program α} {a : r.Answer} (h : x.Asks p) (hstep : x.Step r a y) :
    p r ∧ y.Asks p := by
  induction hstep with
  | ask next a => exact ⟨h.1, h.2 a⟩
  | @item n next r go xs ys a =>
    have hitem : (Action.ask r go).Asks p := h.1 _ (by simp)
    refine ⟨hitem.1, fun x hx ↦ ?_, h.2⟩
    obtain hx | rfl | hx : x ∈ xs ∨ x = go a ∨ x ∈ ys := by simpa using hx
    · exact h.1 x (by simp [hx])
    · exact hitem.2 a
    · exact h.1 x (by simp [hx])
  | joined _ ih => exact ih (h.2 _)
  | @loop ι κ question act u next a =>
    refine ⟨h.1 u, asks_afterAction (h.2.1 u a) fun b ↦ ?_⟩
    cases b with
    | inl u' => exact h
    | inr b => exact h.2.2 b

/-- However it is answered, and whichever items go on first, a program asks for a request before it
has ended. -/
inductive Owes (r : Request) : Program α → Prop
  | now (next : r.Answer → Program α) : Owes r (ask r next)
  | later {q : Request} {next : q.Answer → Program α} (h : ∀ a, Owes r (next a)) :
    Owes r (ask q next)
  | item {n : Int} {items : List (Action (Result Unit))} {next : List (Result Unit) → Program α}
    {x : Action (Result Unit)} (hx : x ∈ items) (h : x.Owes r) : Owes r (batch n items next)
  | after {n : Int} {items : List (Action (Result Unit))} {next : List (Result Unit) → Program α}
    (h : ∀ results, Owes r (next results)) : Owes r (batch n items next)

/-- A program owes a request until it asks for it. -/
theorem Owes.step {x y : Program α} {a : q.Answer} (h : x.Owes r) (hstep : x.Step q a y) :
    q = r ∨ y.Owes r := by
  induction hstep with
  | ask next a =>
    cases h with
    | now => exact .inl rfl
    | later h => exact .inr (h a)
  | @item n next q go xs ys a =>
    cases h with
    | after h => exact .inr (.after h)
    | @item _ _ _ x hx h =>
      obtain hx | rfl | hx : x ∈ xs ∨ x = .ask q go ∨ x ∈ ys := by simpa using hx
      · exact .inr (.item (by simp [hx]) h)
      · cases h with
        | now => exact .inl rfl
        | later h => exact .inr (.item (by simp) (h a))
      · exact .inr (.item (by simp [hx]) h)
  | joined _ ih =>
    cases h with
    | after h => exact ih (h _)
    | item hx h =>
      obtain ⟨result, -, rfl⟩ := List.mem_map.mp hx
      cases h
  | loop => cases h

theorem Owes.not_ended {x : Program α} {v : α} (h : x.Owes r) : ¬x.Ended v := by
  intro hended
  induction hended with
  | done => cases h
  | joined _ ih =>
    cases h with
    | after h => exact ih (h _)
    | item hx h =>
      obtain ⟨result, -, rfl⟩ := List.mem_map.mp hx
      cases h

/-! ## Programs without loops -/

/-- A program without loops. -/
inductive Loopless : Program α → Prop
  | done (a : α) : Loopless (done a)
  | ask {r : Request} {next : r.Answer → Program α} (h : ∀ a, Loopless (next a)) :
    Loopless (ask r next)
  | batch {n : Int} {items : List (Action (Result Unit))} {next : List (Result Unit) → Program α}
    (h : ∀ results, Loopless (next results)) : Loopless (batch n items next)

/-- A program without loops does not go on for ever. -/
theorem Loopless.acc {x : Program α} (h : x.Loopless) :
    Acc (fun y x : Program α ↦ ∃ (r : Request) (a : r.Answer), x.Step r a y) x := by
  induction h with
  | done a => exact .intro _ fun y ⟨_, _, hstep⟩ ↦ by cases hstep
  | ask h ih =>
    refine .intro _ fun y ⟨_, _, hstep⟩ ↦ ?_
    cases hstep with
    | ask next a => exact ih a
  | @batch n items next h ih =>
    -- an item that goes on leaves less of the batch, and after the last one comes what follows it
    obtain ⟨load, hload⟩ : ∃ load, load = (items.map itemLoad).sum := ⟨_, rfl⟩
    induction load using Load.wellFounded_less.cutExpand.induction generalizing items with
    | _ load ihload =>
      refine .intro _ fun y ⟨r, a, hstep⟩ ↦ ?_
      cases hstep with
      | @item _ _ r go xs ys a =>
        refine ihload _ ?_ rfl
        rw [hload]
        exact cutExpand_sum (cutExpand_itemLoad go a) xs ys
      | joined hstep => exact (ih _).inv ⟨r, a, hstep⟩

end Program

end NodeInventory
