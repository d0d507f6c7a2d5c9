import Mathlib.Algebra.BigOperators.Group.Multiset.Basic
import Mathlib.Logic.Hydra

/-!
# What cannot be avoided

A state is inevitable if every way of going on leads to it: as long as it has not been reached there
is a step to take, and no sequence of steps goes on for ever without reaching it
(`Inevitable.exists_of_forall_step`). So a system of which that can be said neither gets stuck nor
runs on, whatever is chosen where several steps are possible.

What becomes inevitable after something inevitable is inevitable (`Inevitable.bind`), so a sequence
of phases is dealt with one phase at a time.

What is left to do of several things is a heap to which each contributes (`cutExpand_sum`). A step
takes something from the heap and puts finitely many smaller things in its place, and such steps
come to an end.
-/

namespace NodeInventory

universe u v

/-- Every sequence of steps comes to a state of which `p` holds. -/
inductive Inevitable {σ : Type u} (step : σ → σ → Prop) (p : σ → Prop) : σ → Prop
  | now {s : σ} (h : p s) : Inevitable step p s
  | later {s : σ} (hmove : ∃ t, step s t) (h : ∀ t, step s t → Inevitable step p t) :
    Inevitable step p s

namespace Inevitable

variable {σ : Type u} {step : σ → σ → Prop} {p q : σ → Prop} {s : σ}

/-- What follows after something inevitable is inevitable. -/
theorem bind (h : Inevitable step p s) (hp : ∀ t, p t → Inevitable step q t) :
    Inevitable step q s := by
  induction h with
  | now h => exact hp _ h
  | later hmove _ ih => exact .later hmove ih

theorem imp (hpq : ∀ t, p t → q t) (h : Inevitable step p s) : Inevitable step q s :=
  h.bind fun t ht ↦ .now (hpq t ht)

/-- What is inevitable in one system is inevitable in every system that follows it and can go on
where it can, together with whatever the steps of that system keep. -/
theorem lift {τ : Type v} {step' : τ → τ → Prop} {f : τ → σ} {q : τ → Prop}
    (hstep : ∀ t t', step' t t' → step (f t) (f t'))
    (hmove : ∀ t, (∃ s, step (f t) s) → ∃ t', step' t t')
    (hq : ∀ t t', q t → step' t t' → q t') {t : τ} (h : Inevitable step p (f t)) (ht : q t) :
    Inevitable step' (fun t ↦ p (f t) ∧ q t) t := by
  generalize hs : f t = s at h
  induction h generalizing t with
  | now h => exact .now ⟨hs ▸ h, ht⟩
  | later hgo _ ih =>
    subst hs
    exact .later (hmove t hgo) fun t' ht' ↦ ih _ (hstep t t' ht') (hq t t' ht ht') rfl

/-- If there are always steps to take before a goal, and no end of steps without it, the goal is
reached. -/
theorem of_acc (hacc : Acc (fun t s ↦ step s t) s) (hmove : ∀ s, p s ∨ ∃ t, step s t) :
    Inevitable step p s := by
  induction hacc with
  | intro s _ ih =>
    obtain hgoal | hstep := hmove s
    · exact .now hgoal
    · exact .later hstep ih

/-- No infinite sequence of steps avoids what is inevitable. -/
theorem exists_of_forall_step (h : Inevitable step p s) (f : ℕ → σ) (hstart : f 0 = s)
    (hstep : ∀ n, step (f n) (f (n + 1))) : ∃ n, p (f n) := by
  induction h generalizing f with
  | now h => exact ⟨0, hstart ▸ h⟩
  | later _ _ ih =>
    obtain ⟨n, hn⟩ := ih (f 1) (hstart ▸ hstep 0) (fun n ↦ f (n + 1)) rfl fun n ↦ hstep (n + 1)
    exact ⟨n + 1, hn⟩

end Inevitable

/-! ## What is left to do -/

section Load

open Relation

variable {β γ : Type*} {r : γ → γ → Prop} {f : β → Multiset γ} {x y : β}

/-- If less is left to do of one thing, less is left to do of all. -/
theorem cutExpand_sum (h : CutExpand r (f y) (f x)) (xs ys : List β) :
    CutExpand r ((xs ++ y :: ys).map f).sum ((xs ++ x :: ys).map f).sum := by
  simp only [List.map_append, List.map_cons, List.sum_append, List.sum_cons]
  exact (cutExpand_add_left _).mpr ((cutExpand_add_right _).mpr h)

theorem cutExpand_sum_set {xs : List β} {k : ℕ} (hx : xs[k]? = some x)
    (h : CutExpand r (f y) (f x)) : CutExpand r ((xs.set k y).map f).sum (xs.map f).sum := by
  obtain ⟨hlt, rfl⟩ := List.getElem?_eq_some_iff.mp hx
  have hsplit : xs = xs.take k ++ xs[k] :: xs.drop (k + 1) := by
    rw [List.getElem_cons_drop, List.take_append_drop]
  rw [List.set_eq_take_append_cons_drop, if_pos hlt]
  conv_rhs => rw [hsplit]
  exact cutExpand_sum h _ _

end Load

end NodeInventory
