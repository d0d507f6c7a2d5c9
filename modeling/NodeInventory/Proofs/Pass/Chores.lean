import Mathlib.Logic.Hydra
import NodeInventory.Proofs.Pass.Care

/-!
# Batches of which every item takes care of a record

The items of a batch go on in any order. If they take care of the records of different names, each
brings its record to its goal (`inevitable_batch`): what an item depends on is not touched by the
others, so that it still promises what it promised when it goes on (`Promising.step`).

That a batch comes to its end does not follow from a number of requests that is fixed in advance,
because how much an item asks for depends on its answers. But an item goes on with something smaller
than it was, and a task that is begun makes way for finitely many items; so what is left to do
(`Load`) is a heap of things, of which each step takes one and puts finitely many smaller ones in
its place. Such steps come to an end.
-/

namespace NodeInventory

open Simulation Relation NodeInventory.Action

namespace Program

variable {n : Int} {items : List (Action (Result Unit))} {α : Type}
  {next : List (Result Unit) → Program α} {r : Request} {a : r.Answer} {y : Program α} {v : α}

theorem exists_item_of_step (hend : ∀ results, ∃ v, next results = .done v)
    (h : (batch n items next).Step r a y) :
    ∃ xs go ys, items = xs ++ .ask r go :: ys ∧ y = batch n (xs ++ go a :: ys) next := by
  cases h with
  | item xs ys => exact ⟨xs, _, ys, rfl, rfl⟩
  | @joined _ _ results _ _ _ h =>
    obtain ⟨v, hv⟩ := hend results
    rw [hv] at h
    cases h

theorem exists_results_of_ended (h : (batch n items next).Ended v) :
    ∃ results : List (Result Unit), items = results.map .done := by
  cases h with
  | joined => exact ⟨_, rfl⟩

end Program

/-- A place among second components is a place among the pairs. -/
theorem exists_of_map_snd_eq {α β : Type*} {l : List (α × β)} {xs ys : List β} {x : β}
    (h : l.map (·.2) = xs ++ x :: ys) :
    ∃ before a after, l = before ++ (a, x) :: after ∧ before.map (·.2) = xs ∧
      after.map (·.2) = ys := by
  obtain ⟨before, rest, rfl, hbefore, hrest⟩ := List.map_eq_append_iff.mp h
  obtain ⟨⟨a, y⟩, after, rfl, hy, hafter⟩ := List.map_eq_cons_iff.mp hrest
  cases hy
  exact ⟨before, a, after, rfl, hbefore, hafter⟩

namespace Pass

/-! ## What is left to do -/

/-- Something that is left to do. -/
inductive Load
  /-- A task that waits in the queue. -/
  | queued
  /-- A task that was taken off the queue. -/
  | begun
  /-- A batch that has not come to its end. -/
  | underWay
  /-- An item of a batch. -/
  | item (x : Action (Result Unit))

inductive Load.Less : Load → Load → Prop
  | begun : Less .begun .queued
  | started : Less .underWay .begun
  | item (x : Action (Result Unit)) : Less (.item x) .begun
  | next {r : Request} (go : r.Answer → Action (Result Unit)) (a : r.Answer) :
    Less (.item (go a)) (.item (.ask r go))

theorem Load.wellFounded_less : WellFounded Load.Less := by
  have hitem : ∀ x, Acc Load.Less (.item x) := by
    intro x
    induction x with
    | done result => exact .intro _ fun y hy ↦ by cases hy
    | ask r go ih =>
      refine .intro _ fun y hy ↦ ?_
      cases hy with
      | next go a => exact ih a
  have hunderWay : Acc Load.Less .underWay := .intro _ fun y hy ↦ by cases hy
  have hbegun : Acc Load.Less .begun := by
    refine .intro _ fun y hy ↦ ?_
    cases hy with
    | started => exact hunderWay
    | item x => exact hitem x
  have hqueued : Acc Load.Less .queued := by
    refine .intro _ fun y hy ↦ ?_
    cases hy with
    | begun => exact hbegun
  refine ⟨fun l ↦ ?_⟩
  cases l with
  | queued => exact hqueued
  | begun => exact hbegun
  | underWay => exact hunderWay
  | item x => exact hitem x

/-- What is left of an item; nothing, if it is done. -/
def itemLoad : Action (Result Unit) → Multiset Load
  | .done _ => 0
  | x => {.item x}

theorem cutExpand_itemLoad {r : Request} (go : r.Answer → Action (Result Unit)) (a : r.Answer) :
    CutExpand Load.Less (itemLoad (go a)) (itemLoad (.ask r go)) := by
  have hless := Load.Less.next go a
  cases h : go a with
  | done result => exact cutExpand_zero
  | ask r' go' =>
    rw [h] at hless
    exact cutExpand_singleton_singleton hless

/-! ## Items that take care of records -/

/-- An item of a batch, with the name of whose record it takes care. -/
abbrev Chore := String × Action (Result Unit)

variable {quiet : Prop} {goal : String → Option Record → Prop} {names : Set String}
  {w w' : World} {chores before after : List Chore} {agent : ℕ} {n : String}

/-- Every item, left alone with its record, brings it to its goal. -/
def Promising (quiet : Prop) (goal : String → Option Record → Prop) (w : World)
    (chores : List Chore) : Prop :=
  ∀ c ∈ chores, c.2.Meets (care quiet (w.podsOn c.1) c.1) (fun t _ ↦ goal c.1 t) (w.record? c.1)

theorem Promising.tended (h : Promising quiet goal w chores) (hw : Tended quiet names w w')
    (hnames : ∀ c ∈ chores, c.1 ∉ names) : Promising quiet goal w' chores := by
  intro c hc
  rw [hw.podsOn, hw.others c.1 (hnames c hc)]
  exact h c hc

/-- An item that goes on takes care of its record, and leaves those of the others to them. -/
theorem Promising.step {r : Request} {go : r.Answer → Action (Result Unit)} {a : r.Answer}
    (h : Promising quiet goal w (before ++ (n, .ask r go) :: after))
    (hnodup : ((before ++ (n, .ask r go) :: after).map (·.1)).Nodup) (hw : Gives agent w r a w') :
    Promising quiet goal w' (before ++ (n, go a) :: after) ∧ Tended quiet {n} w w' ∧
      w'.coordination = w.coordination := by
  have hchore : (Action.ask r go).Meets (care quiet (w.podsOn n) n) (fun t _ ↦ goal n t)
      (w.record? n) := h (n, .ask r go) (by simp)
  -- the item is allowed what it asks for, and so it is answered as if it were alone
  obtain ⟨htold, htended, hcoordination⟩ := Allowed.told hchore.1 rfl hw
  refine ⟨?_, htended, hcoordination⟩
  simp only [List.map_append, List.map_cons, List.nodup_append, List.nodup_cons, List.mem_map,
    List.mem_cons] at hnodup
  have hothers : Promising quiet goal w' (before ++ after) := by
    have hsub : Promising quiet goal w (before ++ after) := fun c hc ↦ h c (by
      rw [List.mem_append, List.mem_cons]
      rcases List.mem_append.mp hc with hc | hc
      · exact .inl hc
      · exact .inr (.inr hc))
    refine hsub.tended htended fun c hc hn ↦ ?_
    rcases List.mem_append.mp hc with hc | hc
    · exact hnodup.2.2 c.1 ⟨c, hc, rfl⟩ n (.inl rfl) hn
    · exact hnodup.2.1.1 ⟨c, hc, hn⟩
  intro c hc
  rw [List.mem_append, List.mem_cons] at hc
  rcases hc with hc | rfl | hc
  · exact hothers c (List.mem_append_left _ hc)
  · rw [htended.podsOn]
    exact hchore.2 a _ htold
  · exact hothers c (List.mem_append_right _ hc)

theorem Promising.goal_of_done (h : Promising quiet goal w chores) {results : List (Result Unit)}
    (hdone : chores.map (·.2) = results.map .done) : ∀ c ∈ chores, goal c.1 (w.record? c.1) := by
  intro c hc
  have hmem : c.2 ∈ results.map Action.done := hdone ▸ List.mem_map_of_mem hc
  obtain ⟨result, -, hresult⟩ := List.mem_map.mp hmem
  have hmeets := h c hc
  rw [← hresult] at hmeets
  exact hmeets

/-! ## A batch by itself -/

variable {d : Duties} {p : Scene → Prop} {rest : List Stage} {k : Int}
  {next : List (Result Unit) → Program (Result Unit)}

/-- A batch by itself brings the records of all its items to their goals, in whatever order its
items go on. -/
theorem inevitable_batch (goal : String → Option Record → Prop) {names : List String}
    (hend : ∀ results, ∃ v, next results = .done v) (hchores : Promising quiet goal w chores)
    (hnames : chores.map (·.1) = names) (hnodup : names.Nodup)
    (hp : ∀ w', Tended quiet {n | n ∈ names} w w' → w'.coordination = w.coordination →
      (∀ n ∈ names, goal n (w'.record? n)) → Inevitable (Step d) p ⟨w', rest⟩) :
    Inevitable (Step d) p ⟨w, .job (.batch k (chores.map (·.2)) next) :: rest⟩ := by
  obtain ⟨load, hload⟩ : ∃ load, load = (chores.map fun c ↦ itemLoad c.2).sum := ⟨_, rfl⟩
  induction load using Load.wellFounded_less.cutExpand.induction generalizing w chores with
  | _ load ih =>
    refine .later ?_ fun t ht ↦ ?_
    -- some item has something to ask, or all of them are done
    · obtain ⟨results, hdone⟩ | ⟨xs, r, go, ys, hasks⟩ :=
        Program.all_done_or_asks (chores.map (·.2))
      · obtain ⟨v, hv⟩ := hend results
        have hended : (next results).Ended v := by
          rw [hv]
          exact .done v
        rw [hdone]
        exact ⟨_, .ended (.joined hended)⟩
      · rw [hasks]
        exact ⟨_, .asked (.item xs ys _) (.answered r)⟩
    cases ht with
    | ended hx =>
      obtain ⟨results, hdone⟩ := Program.exists_results_of_ended hx
      refine hp w (.refl w) rfl fun n hn ↦ ?_
      obtain ⟨c, hc, rfl⟩ := List.mem_map.mp (hnames ▸ hn)
      exact hchores.goal_of_done hdone c hc
    | @asked w w' _ _ r a _ hx hw =>
      obtain ⟨xs, go, ys, hitems, rfl⟩ := Program.exists_item_of_step hend hx
      obtain ⟨before, n, after, rfl, rfl, rfl⟩ := exists_of_map_snd_eq hitems
      obtain ⟨hchores', htended, hcoordination⟩ := hchores.step (hnames ▸ hnodup) hw
      have hn : n ∈ names := by
        rw [← hnames]
        simp
      have hstill := ih _ ?_ hchores' (by simpa using hnames) ?_ rfl
      · simpa using hstill
      · have hless : CutExpand Load.Less (itemLoad (go a)) (itemLoad (.ask r go)) :=
          cutExpand_itemLoad go a
        rw [hload]
        exact cutExpand_sum (f := fun c : Chore ↦ itemLoad c.2) (x := (n, .ask r go))
          (y := (n, go a)) hless before after
      · intro w'' htended' hcoordination' hdone
        refine hp w'' (Tended.trans (htended.mono ?_) htended')
          (hcoordination'.trans hcoordination) hdone
        rintro m rfl
        exact hn

end Pass

end NodeInventory
