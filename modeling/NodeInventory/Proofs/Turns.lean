import Mathlib.Data.List.Basic
import NodeInventory.Proofs.Interleaving
import NodeInventory.Proofs.Traversal

/-!
# Taking turns

A step of a program leaves open which item of a batch goes on. Here that is settled from outside: in
a *turn* the item with a given number goes on, if it has anything to ask. Whoever calls the turns
decides on the order of everything that is not decided by the answers, so a list of numbers is a
schedule, and every order of the steps has one (`step_iff_exists_turn`).

To count something or to report it takes no waiting. What an item counts and reports after an answer
it does in the same turn (`Program.noted`), so a turn leads from one thing to wait for to the next.
-/

namespace NodeInventory

variable {α β : Type}

namespace Action

/-- The value of an action that is done. -/
def value? : Action α → Option α
  | done a => some a
  | ask _ _ => none

/-- What an action counts and reports before anything else, and what is left of it after that. -/
def noted : Action α → List Exchange × Action α
  | ask (.count c) next => (⟨.count c, ()⟩ :: (next ()).noted.1, (next ()).noted.2)
  | ask (.report r) next => (⟨.report r, ()⟩ :: (next ()).noted.1, (next ()).noted.2)
  | x => ([], x)

/-- What the item with the given number counts and reports before anything else, and what is left of
it after that. Where there is no item there is nothing to say. -/
def notedAt (items : List (Action (Result Unit))) (i : ℕ) : List Exchange × Action (Result Unit) :=
  match items[i]? with
  | some x => x.noted
  | none => ([], done (.ok ()))

theorem value?_eq_some {x : Action α} {a : α} : x.value? = some a ↔ x = done a := by
  cases x <;> simp [value?]

theorem notedAt_set {items : List (Action (Result Unit))} {i : ℕ} (hi : i < items.length)
    (x : Action (Result Unit)) : notedAt (items.set i x) i = x.noted := by
  simp [notedAt, hi]

theorem mapM_value?_eq_some {items : List (Action α)} {results : List α} :
    items.mapM value? = some results ↔ items = results.map done :=
  mapM_eq_some_iff_eq_map fun x a ↦ by cases x <;> simp [value?]

theorem mapM_value?_eq_none {items : List (Action α)} {r : Request} {next : r.Answer → Action α}
    (h : ask r next ∈ items) : items.mapM value? = none := by
  rw [Option.eq_none_iff_forall_ne_some]
  intro results hresults
  rw [mapM_value?_eq_some.mp hresults] at h
  obtain ⟨_, _, hdone⟩ := List.mem_map.mp h
  cases hdone

end Action

/-- A request, and how it goes on with the answer. -/
structure Turn (α : Type) : Type 1 where
  request : Request
  next : request.Answer → Program α

namespace Program

/-- What a program asks if the turn is that of the item with the given number, unless that item is
done. Without a batch there is nothing to choose. -/
def turn? (i : ℕ) : Program α → Option (Turn α)
  | done _ => none
  | ask r next => some ⟨r, next⟩
  | batch n items next =>
    match items.mapM Action.value? with
    | some results => (next results).turn? i
    | none =>
      match items[i]? with
      | some (.ask r go) => some ⟨r, fun a ↦ batch n (items.set i (go a)) next⟩
      | _ => none
  | loop question act s next => some ⟨question s, fun a ↦ afterAction (act s a) fun
      | .inl s' => loop question act s' next
      | .inr b => next b⟩

/-- What a program, or the item with the given number, counts and reports before anything else, and
what is left of the program after that. -/
def noted (i : ℕ) : Program α → List Exchange × Program α
  | ask (.count c) next => (⟨.count c, ()⟩ :: ((next ()).noted i).1, ((next ()).noted i).2)
  | ask (.report r) next => (⟨.report r, ()⟩ :: ((next ()).noted i).1, ((next ()).noted i).2)
  | batch n items next =>
    match (items.set i (Action.notedAt items i).2).mapM Action.value? with
    | some results =>
      ((Action.notedAt items i).1 ++ ((next results).noted i).1, ((next results).noted i).2)
    | none => ((Action.notedAt items i).1, batch n (items.set i (Action.notedAt items i).2) next)
  | p => ([], p)

/-- If an item notes something and then is like another item, so is the batch. -/
theorem noted_batch_set {n : Int} {items : List (Action (Result Unit))} {i : ℕ}
    (hi : i < items.length) {next : List (Result Unit) → Program α} {x y : Action (Result Unit)}
    {first : List Exchange} (h : x.noted = (first ++ y.noted.1, y.noted.2)) :
    (batch n (items.set i x) next).noted i = (first ++ ((batch n (items.set i y) next).noted i).1,
      ((batch n (items.set i y) next).noted i).2) := by
  simp only [noted, Action.notedAt_set hi, List.set_set, h]
  split <;> simp only [List.append_assoc]

/-- An item that asks may go on. -/
theorem Step.set {n : Int} {items : List (Action (Result Unit))} {i : ℕ} {r : Request}
    {go : r.Answer → Action (Result Unit)} {next : List (Result Unit) → Program α}
    (hitem : items[i]? = some (.ask r go)) (a : r.Answer) :
    (batch n items next).Step r a (batch n (items.set i (go a)) next) := by
  obtain ⟨hi, hgo⟩ := List.getElem?_eq_some_iff.mp hitem
  have hsplit : items = items.take i ++ .ask r go :: items.drop (i + 1) := by
    rw [← hgo, List.getElem_cons_drop, List.take_append_drop]
  rw [List.set_eq_take_cons_drop _ hi]
  nth_rewrite 1 [hsplit]
  exact .item _ _ a

theorem Step.exists_turn {p q : Program α} {r : Request} {a : r.Answer} (h : p.Step r a q) :
    ∃ i next, p.turn? i = some ⟨r, next⟩ ∧ q = next a := by
  induction h with
  | ask next a => exact ⟨0, next, rfl, rfl⟩
  | @item n next r go xs ys a =>
    have hnone : (xs ++ Action.ask r go :: ys).mapM Action.value? = none :=
      Action.mapM_value?_eq_none (List.mem_append_right xs List.mem_cons_self)
    exact ⟨xs.length, fun a ↦ batch n ((xs ++ .ask r go :: ys).set xs.length (go a)) next,
      by simp [turn?, hnone], by simp⟩
  | joined _ ih =>
    obtain ⟨i, next, hturn, rfl⟩ := ih
    exact ⟨i, next, by rw [turn?, Action.mapM_value?_eq_some.mpr rfl]; exact hturn, rfl⟩
  | loop a => exact ⟨0, _, rfl, rfl⟩

theorem step_of_turn {p : Program α} {i : ℕ} {r : Request} {next : r.Answer → Program α}
    (h : p.turn? i = some ⟨r, next⟩) (a : r.Answer) : p.Step r a (next a) := by
  induction p with
  | done a => cases h
  | ask r next => cases h; exact .ask _ _
  | batch n items next' ih =>
    rw [turn?] at h
    split at h
    · next results hresults =>
      exact Action.mapM_value?_eq_some.mp hresults ▸ .joined (ih results h)
    · split at h
      · next hitem =>
        cases h
        exact .set hitem a
      · cases h
  | loop question act s next => cases h; exact .loop _

/-- The steps of a program are the turns that it can take. -/
theorem step_iff_exists_turn {p q : Program α} {r : Request} {a : r.Answer} :
    p.Step r a q ↔ ∃ i next, p.turn? i = some ⟨r, next⟩ ∧ q = next a :=
  ⟨Step.exists_turn, fun ⟨_, _, hturn, hq⟩ ↦ hq ▸ step_of_turn hturn a⟩

end Program

end NodeInventory
