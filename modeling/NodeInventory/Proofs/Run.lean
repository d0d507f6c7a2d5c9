/-!
# Runs

A run of a system is a sequence of steps, each with a label that tells what happened. Runs grow at
their end, so what holds of all runs is proved by one induction on the run; and they can be cut at
any place, so that one can speak of what was so before something happened.
-/

namespace NodeInventory

universe u v

/-- The labels of the steps that lead from one state to another. -/
inductive Run {σ : Type u} {ℓ : Type v} (step : σ → ℓ → σ → Prop) (start : σ) : List ℓ → σ → Prop
  | nil : Run step start [] start
  | snoc {labels : List ℓ} {l : ℓ} {s t : σ} (hrun : Run step start labels s) (hstep : step s l t) :
    Run step start (labels ++ [l]) t

theorem filterMap_snoc {α : Type u} {β : Type v} (f : α → Option β) (labels : List α) (l : α) :
    (labels ++ [l]).filterMap f = labels.filterMap f ++ (f l).toList := by
  rw [List.filterMap_append, List.filterMap_cons]
  cases f l <;> rfl

theorem filterMap_snoc_none {α : Type u} {β : Type v} {f : α → Option β} {l : α} (h : f l = none)
    (labels : List α) : (labels ++ [l]).filterMap f = labels.filterMap f := by
  rw [filterMap_snoc, h, Option.toList_none, List.append_nil]

namespace Run

variable {σ : Type u} {ℓ : Type v} {step step' : σ → ℓ → σ → Prop} {start s : σ}
  {labels past future : List ℓ} {l : ℓ}

theorem invariant {p : σ → Prop} (hrun : Run step start labels s) (hstart : p start)
    (hstep : ∀ s l t, p s → step s l t → p t) : p s := by
  induction hrun with
  | nil => exact hstart
  | snoc _ h ih => exact hstep _ _ _ ih h

theorem mono (hsub : ∀ s l t, step s l t → step' s l t) (hrun : Run step start labels s) :
    Run step' start labels s := by
  induction hrun with
  | nil => exact .nil
  | snoc _ h ih => exact ih.snoc (hsub _ _ _ h)

theorem append {between : σ} (hpast : Run step start past between)
    (hfuture : Run step between future s) : Run step start (past ++ future) s := by
  induction hfuture with
  | nil =>
    rw [List.append_nil]
    exact hpast
  | snoc _ h ih =>
    rw [← List.append_assoc]
    exact ih.snoc h

theorem split (hrun : Run step start labels s) (hlabels : labels = past ++ future) :
    ∃ between, Run step start past between ∧ Run step between future s := by
  induction hrun generalizing future with
  | nil =>
    obtain ⟨rfl, rfl⟩ := List.append_eq_nil_iff.mp hlabels.symm
    exact ⟨start, .nil, .nil⟩
  | @snoc labels l s t hrun hstep ih =>
    rcases List.eq_nil_or_concat future with rfl | ⟨future, l', rfl⟩
    · rw [List.append_nil] at hlabels
      exact ⟨t, hlabels ▸ .snoc hrun hstep, .nil⟩
    · rw [List.concat_eq_append, ← List.append_assoc] at hlabels
      obtain ⟨rfl, hl⟩ := List.append_inj' hlabels rfl
      cases hl
      obtain ⟨between, hpast, hfuture⟩ := ih rfl
      rw [List.concat_eq_append]
      exact ⟨between, hpast, hfuture.snoc hstep⟩

theorem eq_of_nil (hlabels : labels = []) (hrun : Run step start labels s) : s = start := by
  cases hrun with
  | nil => rfl
  | snoc => exact absurd hlabels (List.append_ne_nil_of_right_ne_nil _ (List.cons_ne_nil _ _))

theorem step_of_singleton (hlabels : labels = [l]) (hrun : Run step start labels s) :
    step start l s := by
  cases hrun with
  | nil => cases hlabels
  | snoc hrun hstep =>
    obtain ⟨hnil, hl⟩ : _ = [] ∧ [_] = [l] := List.append_inj' hlabels rfl
    cases hl
    exact hrun.eq_of_nil hnil ▸ hstep

theorem exists_step (hrun : Run step start (past ++ l :: future) s) :
    ∃ t t', Run step start past t ∧ step t l t' ∧ Run step t' future s := by
  obtain ⟨t, hpast, hrest⟩ := hrun.split rfl
  obtain ⟨t', hone, hfuture⟩ := hrest.split (List.append_cons [] l future)
  exact ⟨t, t', hpast, hone.step_of_singleton rfl, hfuture⟩

/-! ## What a run has come through -/

/-- The run comes through a state of which `p` holds. -/
def Passes (step : σ → ℓ → σ → Prop) (start : σ) (labels : List ℓ) (s : σ) (p : σ → Prop) : Prop :=
  ∃ past future mid, labels = past ++ future ∧ Run step start past mid ∧ Run step mid future s ∧
    p mid

variable {p : σ → Prop} {t : σ}

theorem passes_end (hrun : Run step start labels s) (hp : p s) : Passes step start labels s p :=
  ⟨labels, [], s, (List.append_nil _).symm, hrun, .nil, hp⟩

theorem Passes.snoc (h : Passes step start labels s p) (hstep : step s l t) :
    Passes step start (labels ++ [l]) t p := by
  obtain ⟨past, future, mid, rfl, hpast, hfuture, hp⟩ := h
  exact ⟨past, future ++ [l], mid, List.append_assoc .., hpast, hfuture.snoc hstep, hp⟩

end Run

end NodeInventory
