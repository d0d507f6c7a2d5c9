import NodeInventory.Proofs.Interleaving
import NodeInventory.Proofs.Writers.Testimony

/-!
# Programs who share a shelf

A hall is to programs what a room is to actions: any number of parties, each of whom carries out a
program of its own, and strangers write to one shelf. A party that works off a batch has several
items under way, and any of them may go on, so between two requests of an item there may be requests
of its siblings as well as of others.

What an item has seen is part of what its party has seen. So a party rests on its testimony
(`Program.Heeds`) if all its items do and what is admitted is not given up when more is seen.
-/

namespace NodeInventory

open Writers

variable {α β : Type} {admits : List Exchange → Request → Prop} {seen seen' : List Exchange}

/-- What is admitted is admitted still when more was seen. -/
def Lasting (admits : List Exchange → Request → Prop) : Prop :=
  ∀ ⦃seen seen' r⦄, seen.Sublist seen' → admits seen r → admits seen' r

theorem Action.Meets.of_sublist (hadmits : Lasting admits) {x : Action α}
    (h : x.Meets (testifying admits) (fun _ _ ↦ True) seen) (hsub : seen.Sublist seen') :
    x.Meets (testifying admits) (fun _ _ ↦ True) seen' := by
  induction x generalizing seen seen' with
  | done a => trivial
  | ask r next ih =>
    refine ⟨hadmits hsub h.1, fun a t ht ↦ ?_⟩
    rw [ht]
    exact ih a (h.2 a _ rfl) (hsub.append_right _)

namespace Program

/-- A program asks only what is admitted after what was seen. What it asks in loops is admitted at
any time. -/
def Heeds (admits : List Exchange → Request → Prop) : Program α → List Exchange → Prop
  | done _, _ => True
  | ask r next, seen => admits seen r ∧ ∀ a, (next a).Heeds admits (seen ++ [⟨r, a⟩])
  | batch _ items next, seen =>
    (∀ x ∈ items, x.Meets (testifying admits) (fun _ _ ↦ True) seen) ∧
      ∀ results seen', (next results).Heeds admits seen'
  | loop question act _ next, seen =>
    (∀ s, admits [] (question s)) ∧ (∀ s a, (act s a).Asks (admits [])) ∧
      ∀ b seen', seen.Sublist seen' → (next b).Heeds admits seen'

theorem heeds_afterAction (hadmits : Lasting admits) {x : Action β} {f : β → Program α}
    (hx : x.Asks (admits [])) (hf : ∀ b seen', seen.Sublist seen' → (f b).Heeds admits seen') :
    (afterAction x f).Heeds admits seen := by
  induction x generalizing seen with
  | done b => exact hf b seen (.refl _)
  | ask r next ih =>
    refine ⟨hadmits (List.nil_sublist _) hx.1, fun a ↦ ih a (hx.2 a) fun b seen' hsub ↦ ?_⟩
    exact hf b seen' ((List.sublist_append_left _ _).trans hsub)

theorem Heeds.step {p q : Program α} {r : Request} {a : r.Answer} (hadmits : Lasting admits)
    (h : p.Heeds admits seen) (hstep : p.Step r a q) :
    admits seen r ∧ q.Heeds admits (seen ++ [⟨r, a⟩]) := by
  induction hstep with
  | ask next a => exact ⟨h.1, h.2 a⟩
  | @item n next r go xs ys a =>
    have hitem : (Action.ask r go).Meets (testifying admits) (fun _ _ ↦ True) seen :=
      h.1 _ (by simp)
    refine ⟨hitem.1, fun x hx ↦ ?_, h.2⟩
    rw [List.mem_append, List.mem_cons] at hx
    obtain hx | rfl | hx := hx
    · exact (h.1 x (by simp [hx])).of_sublist hadmits (List.sublist_append_left _ _)
    · exact hitem.2 a _ rfl
    · exact (h.1 x (by simp [hx])).of_sublist hadmits (List.sublist_append_left _ _)
  | joined hstep ih => exact ih (h.2 _ _)
  | @loop ι κ question act u next a =>
    refine ⟨hadmits (List.nil_sublist _) (h.1 u), ?_⟩
    refine heeds_afterAction hadmits (h.2.1 u a) fun b seen' hsub ↦ ?_
    have hmore := (List.sublist_append_left seen _).trans hsub
    cases b with
    | inl u' => exact ⟨h.1, h.2.1, fun b seen'' hsub' ↦ h.2.2 b seen'' (hmore.trans hsub')⟩
    | inr b => exact h.2.2 b seen' hmore

theorem heeds_ofAction {x : Action α} (h : x.Meets (testifying admits) (fun _ _ ↦ True) seen) :
    (ofAction x).Heeds admits seen := by
  induction x generalizing seen with
  | done a => trivial
  | ask r next ih => exact ⟨h.1, fun a ↦ ih a (h.2 a _ rfl)⟩

theorem heeds_joined {n : Int} {items : List (Action (Result Unit))}
    (h : ∀ x ∈ items, x.Meets (testifying admits) (fun _ _ ↦ True) seen) :
    (joined n items).Heeds admits seen :=
  ⟨h, fun _ _ ↦ trivial⟩

end Program

/-- To list the names of all records takes nothing but the permission to list records. -/
theorem Record.heeds_listNames_bind (hlist : ∀ token limit, admits [] (.listRecords token limit))
    {pageSize : ℕ} {f : Result (List String) → Program α}
    (hf : ∀ answer seen', (f answer).Heeds admits seen') :
    (listNames pageSize >>= f).Heeds admits seen := by
  refine ⟨fun s ↦ hlist s.1 pageSize, fun s (answer : Result (Page Record)) ↦ ?_,
    fun answer seen' _ ↦ hf answer seen'⟩
  cases answer with
  | error f => trivial
  | ok page =>
    rw [collectNames]
    split <;> trivial

namespace Writers

/-- A shelf and all who use it, each with the program that it has still to carry out. -/
structure Hall : Type 1 where
  shelf : Shelf
  parties : ℕ → Program (Result Unit)

/-- One moment in a hall. -/
inductive Hall.Step : Hall → Moment → Hall → Prop
  | asked {hall : Hall} {i : ℕ} {r : Request} {a : r.Answer} {q : Program (Result Unit)} {t : Shelf}
      (hasks : (hall.parties i).Step r a q) (hanswer : hall.shelf.Answers r a t) :
    Step hall ⟨hall.shelf, .asked i ⟨r, a⟩, t⟩ ⟨t, Function.update hall.parties i q⟩
  | stored {hall : Hall} (r : Record) {v : String} (hnew : v ∉ hall.shelf.issued) :
    Step hall ⟨hall.shelf, .stored r v, hall.shelf.write r v⟩
      ⟨hall.shelf.write r v, hall.parties⟩
  | removed {hall : Hall} (name : String) :
    Step hall ⟨hall.shelf, .removed name, hall.shelf.remove name⟩
      ⟨hall.shelf.remove name, hall.parties⟩

variable {start hall hall' : Hall} {m : Moment} {moments past future : List Moment} {i : ℕ}
  {name : String} {x : Record} {e : Exchange}

theorem Hall.Step.before_eq (h : Hall.Step hall m hall') : m.before = hall.shelf := by
  cases h <;> rfl

theorem Hall.Step.after_eq (h : Hall.Step hall m hall') : m.after = hall'.shelf := by
  cases h <;> rfl

theorem Hall.heeds_testimony (hadmits : Lasting admits) (hrun : Run Hall.Step start moments hall)
    (hstart : (start.parties i).Heeds admits []) :
    (hall.parties i).Heeds admits (testimony i moments) := by
  induction hrun with
  | nil => exact hstart
  | @snoc moments m hall hall' hrun hstep ih =>
    rw [testimony_snoc]
    cases hstep with
    | @asked j r a q t hasks hanswer =>
      by_cases hij : j = i
      · subst j
        simpa [Moment.exchange?] using (ih.step hadmits hasks).2
      · simpa [Moment.exchange?, hij, Function.update_of_ne (Ne.symm hij)] using ih
    | stored | removed => simpa [Moment.exchange?] using ih

/-- What a party asks is admitted after what it has seen, and is answered by the shelf. -/
theorem Hall.admits_of_run (hadmits : Lasting admits)
    (hrun : Run Hall.Step start (past ++ m :: future) hall)
    (hstart : (start.parties i).Heeds admits []) (hm : m.event = .asked i e) :
    admits (testimony i past) e.request ∧ m.before.Answers e.request e.answer m.after := by
  obtain ⟨now, later, hpast, hstep, -⟩ := hrun.exists_step
  have hheeds := Hall.heeds_testimony hadmits hpast hstart
  cases hstep with
  | stored | removed => cases hm
  | asked hasks hanswer =>
    cases hm
    exact ⟨(hheeds.step hadmits hasks).1, hanswer⟩

/-! ## Removals -/

/-- The record of a name is removed at the moment. -/
def Moment.Removes (m : Moment) (name : String) : Prop :=
  (∃ x, m.before.record? name = some x) ∧ m.after.record? name = none

theorem Hall.exists_removal (hrun : Run Hall.Step start moments hall)
    (hstart : start.shelf.record? name = some x) (hend : hall.shelf.record? name = none) :
    ∃ m ∈ moments, m.Removes name := by
  induction hrun with
  | nil =>
    rw [hstart] at hend
    cases hend
  | @snoc moments m hall hall' hrun hstep ih =>
    cases hnow : hall.shelf.record? name with
    | none =>
      obtain ⟨m', hm', hremoves⟩ := ih hnow
      exact ⟨m', List.mem_append_left _ hm', hremoves⟩
    | some y =>
      refine ⟨m, by simp, ⟨y, ?_⟩, ?_⟩
      · rw [hstep.before_eq, hnow]
      · rw [hstep.after_eq, hend]

end Writers

end NodeInventory
