import Mathlib.Logic.Function.Basic
import NodeInventory.Proofs.Contract
import NodeInventory.Proofs.Tour.System

/-!
# Batches on a tour

The items of a batch go on in any order, and others may change things in between. What an item can
rely on are its *terms*: an account that is kept of its own name, which neither the other items nor
others disturb, and the answers that may come (`Terms`). An item that meets a contract on these
terms by itself meets it in the batch.

Beside the account an item has a log of what it exchanged. All that is exchanged in a batch is in
the logs of its items, each exchange once (`UnderWay`). So in the end there is a log and a result
for each item, and what is to be counted in the batch can be counted item by item
(`Terms.finished`).
-/

namespace NodeInventory

/-- The contract with a log, beside the account, of what was exchanged. -/
def Contract.logged {σ : Type} (c : Contract σ) : Contract (σ × List Exchange) where
  allows s r := c.allows s.1 r
  answers s r a t := c.answers s.1 r a t.1 ∧ t.2 = s.2 ++ [⟨r, a⟩]

theorem Action.Meets.logged {σ α : Type} {c : Contract σ} {post : σ → α → Prop} {x : Action α}
    {s : σ} (h : x.Meets c post s) (log : List Exchange) :
    x.Meets c.logged (fun t v ↦ post t.1 v) (s, log) := by
  induction x generalizing s log with
  | done v => exact h
  | ask r next ih =>
    refine ⟨h.1, fun a t ⟨hat, hlog⟩ ↦ ?_⟩
    obtain ⟨t, log'⟩ := t
    exact ih a (h.2 a t hat) log'

namespace Tour

open Simulation

/-- What the items of a batch can rely on. -/
structure Terms (K : Conditions) (σ : Type) where
  /-- What holds of the world all along. -/
  inv : World → Prop
  /-- The account of a name. -/
  look : World → String → σ
  contract : String → Contract σ
  /-- Who asks for what is allowed gets an answer that may come, and leaves other accounts alone. -/
  answered : ∀ {w w' : World} {n : String} {r : Request} {a : r.Answer}, inv w →
    (contract n).allows (look w n) r → Gives K w r a w' →
      inv w' ∧ (contract n).answers (look w n) r a (look w' n) ∧
        ∀ m, m ≠ n → look w' m = look w m
  /-- Others leave all accounts alone. -/
  undisturbed : ∀ {w : World} {c : Change}, inv w → K.others w c →
    inv (c.apply w) ∧ ∀ m, look (c.apply w) m = look w m

/-- A place in a list that was mapped is a place in the list. -/
theorem exists_of_map_eq_append {β γ : Type*} {l : List β} {f : β → γ} {xs ys : List γ} {x : γ}
    (h : l.map f = xs ++ x :: ys) :
    ∃ before b after, l = before ++ b :: after ∧ before.map f = xs ∧ f b = x ∧
      after.map f = ys := by
  obtain ⟨before, rest, rfl, hbefore, hrest⟩ := List.map_eq_append_iff.mp h
  obtain ⟨b, after, rfl, hb, hafter⟩ := List.map_eq_cons_iff.mp hrest
  exact ⟨before, b, after, rfl, hbefore, hb, hafter⟩

section Update

variable {β : Type*} {before after : List String} {n : String}

theorem map_update (hnodup : (before ++ n :: after).Nodup) (f : String → β) (b : β) :
    (before ++ n :: after).map (Function.update f n b) = before.map f ++ b :: after.map f := by
  rw [List.nodup_append, List.nodup_cons] at hnodup
  have hkeep : ∀ l : List String, n ∉ l → l.map (Function.update f n b) = l.map f := fun l hl ↦
    List.map_congr_left fun m hm ↦ Function.update_of_ne (fun h : m = n ↦ hl (h ▸ hm)) b f
  have hbefore : n ∉ before := fun hmem ↦ hnodup.2.2 n hmem n List.mem_cons_self rfl
  rw [List.map_append, List.map_cons, hkeep before hbefore, hkeep after hnodup.2.1.1,
    Function.update_self]

theorem perm_flatMap_update (hnodup : (before ++ n :: after).Nodup) (f : String → List β) (b : β) :
    ((before ++ n :: after).flatMap f ++ [b]).Perm
      ((before ++ n :: after).flatMap (Function.update f n (f n ++ [b]))) := by
  rw [List.flatMap_def, List.flatMap_def, map_update hnodup, List.map_append, List.map_cons]
  simp only [List.flatten_append, List.flatten_cons, List.append_assoc]
  refine List.Perm.append_left _ (List.Perm.append_left _ ?_)
  exact List.perm_append_comm

end Update

variable {α σ : Type} {K : Conditions} {T : Terms K σ} {w w' : World} {s t : Scene α} {e : Event}
  {events : List Event} {names : List String} {k : Int} {act : String → Action (Result Unit)}
  {next : List (Result Unit) → Program α} {post : String → σ → List Exchange → Result Unit → Prop}
  {logs : String → List Exchange} {rests : String → Action (Result Unit)}

/-- Some items have gone on for a while. Each of them has a log, and still meets its contract with
what it has left to do. -/
structure UnderWay (T : Terms K σ) (names : List String)
    (post : String → σ → List Exchange → Result Unit → Prop) (w : World) (events : List Event)
    (w' : World) (logs : String → List Exchange) (rests : String → Action (Result Unit)) :
    Prop where
  exchanged : (exchanges events).Perm (names.flatMap logs)
  meets : ∀ n ∈ names, (rests n).Meets (T.contract n).logged (fun s v ↦ post n s.1 s.2 v)
    (T.look w' n, logs n)
  inv : T.inv w'
  elsewhere : ∀ m, m ∉ names → T.look w' m = T.look w m

theorem UnderWay.other {c : Change} (h : UnderWay T names post w events w' logs rests)
    (hc : K.others w' c) :
    UnderWay T names post w (events ++ [.other c]) (c.apply w') logs rests := by
  obtain ⟨hinv, hlook⟩ := T.undisturbed h.inv hc
  refine ⟨?_, fun n hn ↦ ?_, hinv, fun m hm ↦ (hlook m).trans (h.elsewhere m hm)⟩
  · rw [exchanges_snoc_other]
    exact h.exchanged
  · rw [hlook n]
    exact h.meets n hn

/-- An item that goes on goes on as if it were alone. -/
theorem UnderWay.asked {before after : List String} {n : String} {r : Request} {a : r.Answer}
    {go : r.Answer → Action (Result Unit)} {w'' : World}
    (h : UnderWay T (before ++ n :: after) post w events w' logs rests)
    (hnodup : (before ++ n :: after).Nodup) (hn : rests n = .ask r go) (hw : Gives K w' r a w'') :
    UnderWay T (before ++ n :: after) post w (events ++ [.asked w' ⟨r, a⟩]) w''
      (Function.update logs n (logs n ++ [⟨r, a⟩])) (Function.update rests n (go a)) := by
  have hmem : n ∈ before ++ n :: after := by simp
  have hmeets := h.meets n hmem
  rw [hn] at hmeets
  obtain ⟨hinv, hanswer, hlook⟩ := T.answered h.inv hmeets.1 hw
  refine ⟨?_, fun m hm ↦ ?_, hinv, fun m hm ↦ ?_⟩
  · rw [exchanges_append, exchanges_asked]
    exact (h.exchanged.append_right _).trans (perm_flatMap_update hnodup logs _)
  · by_cases hmn : m = n
    · subst hmn
      rw [Function.update_self, Function.update_self]
      exact hmeets.2 a _ ⟨hanswer, rfl⟩
    · rw [Function.update_of_ne hmn, Function.update_of_ne hmn, hlook m hmn]
      exact h.meets m hm
  · rw [hlook m fun hmn ↦ hm (hmn ▸ hmem)]
    exact h.elsewhere m hm

/-- How far a tour has come that begins with a batch. -/
inductive Batching (T : Terms K σ) (names : List String)
    (post : String → σ → List Exchange → Result Unit → Prop) (k : Int)
    (next : List (Result Unit) → Program α) (w : World) : List Event → Scene α → Prop
  /-- Some items have gone on. -/
  | underWay {events : List Event} {w' : World} {logs : String → List Exchange}
      {rests : String → Action (Result Unit)}
      (h : UnderWay T names post w events w' logs rests) :
    Batching T names post k next w events ⟨w', .batch k (names.map rests) next⟩
  /-- All items are done, and the tour has gone on with what follows. -/
  | beyond {past future : List Event} {w' : World} {logs : String → List Exchange}
      {rests : String → Action (Result Unit)} {results : String → Result Unit} {s : Scene α}
      (h : UnderWay T names post w past w' logs rests)
      (hresults : ∀ n ∈ names, rests n = .done (results n))
      (hfuture : Course K ⟨w', next (names.map results)⟩ future s) :
    Batching T names post k next w (past ++ future) s

theorem exists_results {results : List (Result Unit)}
    (h : names.map rests = results.map .done) :
    ∃ f : String → Result Unit, results = names.map f ∧ ∀ n ∈ names, rests n = .done (f n) := by
  have hdone : ∀ n ∈ names, ∃ v, rests n = .done v := fun n hn ↦ by
    have hmem : rests n ∈ results.map Action.done := h ▸ List.mem_map_of_mem hn
    obtain ⟨v, -, hv⟩ := List.mem_map.mp hmem
    exact ⟨v, hv.symm⟩
  refine ⟨fun n ↦ match rests n with | .done v => v | .ask _ _ => .ok (), ?_, fun n hn ↦ ?_⟩
  · have hinjective : Function.Injective (Action.done : Result Unit → Action (Result Unit)) :=
      fun _ _ heq ↦ by cases heq; rfl
    refine List.map_injective_iff.mpr hinjective ?_
    rw [← h, List.map_map]
    refine List.map_congr_left fun n hn ↦ ?_
    obtain ⟨v, hv⟩ := hdone n hn
    simp [hv]
  · obtain ⟨v, hv⟩ := hdone n hn
    simp [hv]

theorem Batching.step (hnodup : names.Nodup) (h : Batching T names post k next w events s)
    (hstep : Step K s e t) : Batching T names post k next w (events ++ [e]) t := by
  cases h with
  | beyond h hresults hfuture =>
    rw [List.append_assoc]
    exact .beyond h hresults (hfuture.snoc hstep)
  | underWay h =>
    cases hstep with
    | other hc => exact .underWay (h.other hc)
    | @asked w' w'' _ y r a hx hw =>
      generalize hitems : names.map _ = items at hx
      cases hx with
      | item xs ys a =>
        obtain ⟨before, n, after, rfl, rfl, hn, rfl⟩ := exists_of_map_eq_append hitems
        rw [← map_update hnodup]
        exact .underWay (h.asked hnodup hn hw)
      | joined hx =>
        obtain ⟨results, rfl, hresults⟩ := exists_results hitems
        exact .beyond h hresults (Run.nil.snoc (.asked hx hw))

theorem Terms.batching (T : Terms K σ) (hnodup : names.Nodup) (hinv : T.inv w)
    (hmeets : ∀ n ∈ names, (act n).Meets (T.contract n).logged (fun s v ↦ post n s.1 s.2 v)
      (T.look w n, []))
    (hcourse : Course K ⟨w, .batch k (names.map act) next⟩ events s) :
    Batching T names post k next w events s := by
  induction hcourse with
  | nil =>
    have hnothing : (exchanges []).Perm (names.flatMap fun _ ↦ []) := by simp [exchanges]
    exact .underWay ⟨hnothing, hmeets, hinv, fun _ _ ↦ rfl⟩
  | snoc _ hstep ih => exact ih.step hnodup hstep

/-- In the end there is a log and a result for each item, and the tour has gone on from there. -/
structure Finished (T : Terms K σ) (names : List String)
    (post : String → σ → List Exchange → Result Unit → Prop)
    (next : List (Result Unit) → Program α) (w : World) (events : List Event) (w' : World)
    (v : α) (logs : String → List Exchange) (results : String → Result Unit)
    (past future : List Event) (between : World) (last : Scene α) : Prop where
  split : events = past ++ future
  exchanged : (exchanges past).Perm (names.flatMap logs)
  kept : ∀ n ∈ names, post n (T.look between n) (logs n) (results n)
  inv : T.inv between
  elsewhere : ∀ m, m ∉ names → T.look between m = T.look w m
  course : Course K ⟨between, next (names.map results)⟩ future last
  world : last.world = w'
  ended : last.rest.Ended v

/-- If a tour has ended that began with a batch, its items kept their contracts. -/
theorem Terms.finished (T : Terms K σ)
    (post : String → σ → List Exchange → Result Unit → Prop) (hnodup : names.Nodup) (hinv : T.inv w)
    (hmeets : ∀ n ∈ names, (act n).Meets (T.contract n).logged (fun s v ↦ post n s.1 s.2 v)
      (T.look w n, []))
    (hcourse : Course K ⟨w, .batch k (names.map act) next⟩ events s) {v : α}
    (hended : s.rest.Ended v) :
    ∃ logs results past future between last,
      Finished T names post next w events s.world v logs results past future between last := by
  cases T.batching hnodup hinv hmeets hcourse with
  | @underWay _ w' logs rests h =>
    generalize hitems : names.map rests = items at hended
    cases hended with
    | joined hended =>
      obtain ⟨results, rfl, hresults⟩ := exists_results hitems
      refine ⟨logs, results, events, [], w', _, (List.append_nil _).symm, h.exchanged,
        fun n hn ↦ ?_, h.inv, h.elsewhere, .nil, rfl, hended⟩
      have hmeets := h.meets n hn
      rwa [hresults n hn] at hmeets
  | @beyond past future w' logs rests results s h hresults hfuture =>
    refine ⟨logs, results, past, future, w', s, rfl, h.exchanged, fun n hn ↦ ?_, h.inv,
      h.elsewhere, hfuture, rfl, hended⟩
    have hmeets := h.meets n hn
    rwa [hresults n hn] at hmeets

theorem Terms.kept_of_done (T : Terms K σ) {v : α} (hinv : T.inv w)
    (hcourse : Course K ⟨w, .done v⟩ events s) :
    T.inv s.world ∧ ∀ m, T.look s.world m = T.look w m := by
  refine (hcourse.invariant (p := fun t ↦ t.rest = .done v ∧ T.inv t.world ∧
    ∀ m, T.look t.world m = T.look w m) ⟨rfl, hinv, fun _ ↦ rfl⟩ ?_).2
  rintro s e t ⟨hrest, hinv, hlook⟩ hstep
  cases hstep with
  | other hc =>
    obtain ⟨hinv', hlook'⟩ := T.undisturbed hinv hc
    exact ⟨hrest, hinv', fun m ↦ (hlook' m).trans (hlook m)⟩
  | asked hx =>
    dsimp only at hrest
    rw [hrest] at hx
    cases hx

/-- If a tour has ended that is a batch and nothing more, its items kept their contracts. -/
theorem Terms.concluded (T : Terms K σ)
    (post : String → σ → List Exchange → Result Unit → Prop) {g : List (Result Unit) → α}
    (hnodup : names.Nodup) (hinv : T.inv w)
    (hmeets : ∀ n ∈ names, (act n).Meets (T.contract n).logged (fun s v ↦ post n s.1 s.2 v)
      (T.look w n, []))
    (hcourse : Course K ⟨w, .batch k (names.map act) fun results ↦ .done (g results)⟩ events s)
    {v : α} (hended : s.rest.Ended v) :
    ∃ logs results, (exchanges events).Perm (names.flatMap logs) ∧
      (∀ n ∈ names, post n (T.look s.world n) (logs n) (results n)) ∧ T.inv s.world ∧
        (∀ m, m ∉ names → T.look s.world m = T.look w m) ∧ v = g (names.map results) := by
  obtain ⟨logs, results, past, future, between, last, h⟩ :=
    T.finished post hnodup hinv hmeets hcourse hended
  obtain ⟨hrest, hexchanges⟩ := h.course.of_done
  obtain ⟨hinv', hlook⟩ := T.kept_of_done h.inv h.course
  rw [h.world] at hinv' hlook
  have hended' := h.ended
  rw [hrest] at hended'
  cases hended'
  refine ⟨logs, results, ?_, fun n hn ↦ ?_, hinv', fun m hm ↦ ?_, rfl⟩
  · rw [h.split, exchanges_append, hexchanges, List.append_nil]
    exact h.exchanged
  · rw [hlook n]
    exact h.kept n hn
  · rw [hlook m]
    exact h.elsewhere m hm

end Tour

end NodeInventory
