import NodeInventory.Proofs.Bound
import NodeInventory.Proofs.Run

/-!
# Tours

A tour is a program on its way, in a world that answers each of its requests. Between two requests
somebody else may have changed records or nodes. What others do, which requests fail, and what the
registry answers are the *conditions* of a tour; a request that fails changes nothing.

Which item of a batch goes on is left open, so that what holds of every tour holds for every bound
on how many items run at once. What has happened on a tour is told by its events: each exchange,
with the world that was met by the request, and each change that was made by somebody else. Facts
about a tour are facts about its events and the scene that it has come to.

A tour can go on as long as its program has not ended (`ended_or_goes_on`). It comes to its end if
its program does not loop for ever and others cannot change things for ever (`acc_of_acc`).
-/

namespace NodeInventory

open Simulation

/-! ## What is told of exchanges -/

/-- What is called, if a request calls the registry. -/
def Request.call? : Request → Option Fleet.Call
  | .callFleet call => some call
  | _ => none

/-- The name of the record that a request would remove. -/
def Request.removal? : Request → Option String
  | .deleteRecord name => some name
  | _ => none

/-- The names whose nodes a request asks for. -/
def Request.lookup? : Request → Option (List String)
  | .findNodes names => some names
  | _ => none

/-- Whether a request counts something. -/
def Request.counts (c : Counter) : Request → Bool
  | .count c' => c' == c
  | _ => false

namespace Exchange

/-- The calls of the registry. -/
def calls (log : List Exchange) : List Fleet.Call := log.filterMap (·.request.call?)

/-- The names whose records were to be removed. -/
def removals (log : List Exchange) : List String := log.filterMap (·.request.removal?)

/-- The names whose nodes were asked for. -/
def lookups (log : List Exchange) : List (List String) := log.filterMap (·.request.lookup?)

/-- How often something was counted. -/
def counted (c : Counter) (log : List Exchange) : ℕ := log.countP (·.request.counts c)

/-- The names in a part of the listing of records. -/
def listed (e : Exchange) : List String :=
  match e with
  | ⟨.listRecords _ _, answer⟩ =>
    match (answer : Result (Page Record)) with
    | .ok page => page.items.map (·.spec.nodeName)
    | .error _ => []
  | _ => []

end Exchange

namespace Tour

/-! ## The system -/

/-- What somebody else does to records or nodes. -/
inductive Change
  /-- Store a record under its name. -/
  | put (r : Record)
  /-- Remove a record, if it is there. -/
  | drop (name : String)
  /-- A node joins the cluster. -/
  | join (node : Node)
  /-- A node leaves the cluster, if it is there. -/
  | leave (name : String)

/-- The world after a change. -/
def Change.apply (w : World) : Change → World
  | put r => { w with store := w.store.put r }
  | drop name => { w with store := w.store.drop name }
  | join node => { w with nodes := w.nodes.insert node.name node }
  | leave name => { w with nodes := w.nodes.erase name }

/-- What may happen on a tour apart from what the program does. -/
structure Conditions where
  /-- What others may do. -/
  others : World → Change → Prop
  /-- Why a request fails, if it does. -/
  fault : Request → Option Failure
  /-- What the registry may answer. -/
  fleet : Fleet.Call → Result Fleet.Response → Prop
  answers : ∀ call, ∃ a, fleet call a

theorem exists_any_answer (_ : Fleet.Call) : ∃ _ : Result Fleet.Response, True :=
  ⟨.ok { code := 200 }, trivial⟩

/-- The failure with which a request is answered, if it can fail and does. -/
def Conditions.refusal (K : Conditions) (r : Request) : Option r.Answer :=
  (K.fault r).bind fun f ↦ World.refuse f r

/-- A request is answered under the conditions. The nodes of some names come in any order. -/
inductive Gives (K : Conditions) (w : World) : (r : Request) → r.Answer → World → Prop
  | answered {r : Request} (hr : r.kind ≠ .callFleet) (hfault : K.refusal r = none) :
    Gives K w r ((w.note 0 r).respond {} r).2 ((w.note 0 r).respond {} r).1
  | failed {r : Request} {a : r.Answer} (hr : r.kind ≠ .callFleet)
    (hfault : K.refusal r = some a) : Gives K w r a (w.note 0 r)
  | found {names : List String} {nodes : List Node} (hfault : K.fault (.findNodes names) = none)
    (hnodes : nodes.Perm (names.filterMap w.nodes.get?)) :
    Gives K w (.findNodes names) (.ok nodes) (w.note 0 (.findNodes names))
  | told {call : Fleet.Call} {a : Result Fleet.Response} (ha : K.fleet call a) :
    Gives K w (.callFleet call) a (w.note 0 (.callFleet call))

/-- A world, and what a program has still to do in it. -/
structure Scene (α : Type) : Type 1 where
  world : World
  rest : Program α

/-- Something that happens on a tour. -/
inductive Event
  /-- Somebody else changes something. -/
  | other (c : Change)
  /-- The program asks for something, in a world, and is answered. -/
  | asked (w : World) (e : Exchange)

variable {α : Type} {K : Conditions} {w w' : World} {x y : Program α} {r : Request} {a : r.Answer}
  {s t : Scene α} {e : Event} {events : List Event}

inductive Step (K : Conditions) : Scene α → Event → Scene α → Prop
  | other {w : World} {x : Program α} {c : Change} (hc : K.others w c) :
    Step K ⟨w, x⟩ (.other c) ⟨c.apply w, x⟩
  | asked {w w' : World} {x y : Program α} {r : Request} {a : r.Answer} (hx : x.Step r a y)
    (hw : Gives K w r a w') : Step K ⟨w, x⟩ (.asked w ⟨r, a⟩) ⟨w', y⟩

/-- A tour: what happens from one scene to another. -/
abbrev Course (K : Conditions) (start : Scene α) (events : List Event) (s : Scene α) : Prop :=
  Run (Step K) start events s

/-! ## What is told of events -/

/-- What is exchanged in an event. -/
def Event.exchange? : Event → Option Exchange
  | .other _ => none
  | .asked _ e => some e

/-- The record that somebody else removes in an event. -/
def Event.loss? : Event → Option String
  | .other (.drop name) => some name
  | _ => none

/-- All that was exchanged. -/
def exchanges (events : List Event) : List Exchange := events.filterMap Event.exchange?

/-- The records that others removed. -/
def losses (events : List Event) : List String := events.filterMap Event.loss?

/-- The names of records that were listed. -/
def listedNames (events : List Event) : List String := (exchanges events).flatMap Exchange.listed

@[simp] theorem exchanges_append (past future : List Event) :
    exchanges (past ++ future) = exchanges past ++ exchanges future :=
  List.filterMap_append

@[simp] theorem losses_append (past future : List Event) :
    losses (past ++ future) = losses past ++ losses future :=
  List.filterMap_append

@[simp] theorem exchanges_other (c : Change) : exchanges [.other c] = [] := rfl

theorem exchanges_snoc_other (events : List Event) (c : Change) :
    exchanges (events ++ [.other c]) = exchanges events := by
  rw [exchanges_append, exchanges_other, List.append_nil]

@[simp] theorem exchanges_asked (w : World) (e : Exchange) : exchanges [.asked w e] = [e] := rfl

@[simp] theorem losses_asked (w : World) (e : Exchange) : losses [.asked w e] = [] := rfl

@[simp] theorem losses_drop (name : String) : losses [.other (.drop name)] = [name] := rfl

@[simp] theorem listedNames_append (past future : List Event) :
    listedNames (past ++ future) = listedNames past ++ listedNames future := by
  simp [listedNames]

/-! ## Answers -/

theorem exists_gives (K : Conditions) (w : World) (r : Request) : ∃ a w', Gives K w r a w' := by
  by_cases hr : r.kind = .callFleet
  · cases r with
    | callFleet call =>
      obtain ⟨a, ha⟩ := K.answers call
      exact ⟨a, _, .told ha⟩
    | _ => cases hr
  · cases hfault : K.refusal r with
    | none => exact ⟨_, _, .answered hr hfault⟩
    | some a => exact ⟨a, _, .failed hr hfault⟩

theorem Conditions.refusal_eq_none (h : K.fault r = none) : K.refusal r = none := by
  rw [refusal, h, Option.bind_none]

theorem Gives.pass_of_refusal (h : Gives K w r a w')
    (hfault : r.kind ≠ .callFleet → K.refusal r = none) : Pass.Gives 0 w r a w' := by
  cases h with
  | answered => exact .answered _
  | failed hr hfailed =>
    rw [hfault hr] at hfailed
    cases hfailed
  | found _ hnodes => exact .found _ hnodes
  | told => exact .told _ _

theorem Gives.pass (h : Gives K w r a w') (hfault : K.fault r = none) : Pass.Gives 0 w r a w' :=
  h.pass_of_refusal fun _ ↦ Conditions.refusal_eq_none hfault

theorem Gives.eq_of_refusal {a' : r.Answer} (h : Gives K w r a w') (hr : r.kind ≠ .callFleet)
    (hrefusal : K.refusal r = some a') : a = a' ∧ w' = w.note 0 r := by
  cases h with
  | answered _ hnone =>
    rw [hrefusal] at hnone
    cases hnone
  | failed _ hsome => exact ⟨Option.some.inj (hsome.symm.trans hrefusal), rfl⟩
  | found hnone =>
    rw [Conditions.refusal_eq_none hnone] at hrefusal
    cases hrefusal
  | told => exact absurd rfl hr

theorem Gives.cluster_eq (h : Gives K w r a w') :
    w'.nodes = w.nodes ∧ w'.pods = w.pods ∧ w'.allPods = w.allPods := by
  cases h with
  | answered =>
    cases r <;> exact ⟨rfl, rfl, rfl⟩
  | failed | found | told => exact ⟨rfl, rfl, rfl⟩

theorem Gives.store_eq (h : Gives K w r a w') (hr : r.isWrite = false) : w'.store = w.store := by
  cases h with
  | answered =>
    cases r with
    | createRecord | updateRecord | deleteRecord => cases hr
    | _ => rfl
  | failed | found | told => rfl

/-! ## Going on, and coming to an end -/

/-- The program of a tour has ended, or the tour can go on with a request of it. -/
theorem ended_or_goes_on (K : Conditions) (s : Scene α) :
    (∃ v, s.rest.Ended v) ∨ ∃ w e t, Step K s (.asked w e) t := by
  obtain hended | ⟨r, hasks⟩ := s.rest.ended_or_asks
  · exact .inl hended
  · obtain ⟨a, w', hw⟩ := exists_gives K s.world r
    obtain ⟨y, hy⟩ := hasks a
    exact .inr ⟨_, _, _, .asked hy hw⟩

/-- Something happens. -/
abbrev Moves (K : Conditions) (s t : Scene α) : Prop := ∃ e, Step K s e t

theorem inevitable_ended_of_acc (h : Acc (fun t s ↦ Moves K s t) s) :
    Inevitable (Moves K) (fun t ↦ ∃ v, t.rest.Ended v) s :=
  .of_acc h fun s ↦ (ended_or_goes_on K s).imp_right fun ⟨_, _, t, hstep⟩ ↦ ⟨t, _, hstep⟩

/-- A tour comes to its end if its program does not go on for ever and neither do others. -/
theorem acc_of_acc (size : World → ℕ) (hothers : ∀ w c, K.others w c → size (c.apply w) < size w)
    (hx : Acc (fun y x : Program α ↦ ∃ (r : Request) (a : r.Answer), x.Step r a y) x) (w : World) :
    Acc (fun t s ↦ Moves K s t) (⟨w, x⟩ : Scene α) := by
  induction hx generalizing w with
  | intro x _ ih =>
    -- others make the world smaller until the program goes on
    induction hsize : size w using Nat.strongRecOn generalizing w with
    | _ left ihsize =>
      refine .intro _ fun t ⟨e, hstep⟩ ↦ ?_
      cases hstep with
      | other hc => exact ihsize _ (hsize ▸ hothers _ _ hc) _ rfl
      | asked hx _ => exact ih _ ⟨_, _, hx⟩ _

theorem acc_of_course {start : Scene α} (h : Acc (fun t s ↦ Moves K s t) start)
    (hcourse : Course K start events s) : Acc (fun t s ↦ Moves K s t) s :=
  hcourse.invariant h fun _ e _ hacc hstep ↦ hacc.inv ⟨e, hstep⟩

theorem asks_of_course {p : Request → Prop} {start : Scene α} (hasks : start.rest.Asks p)
    (hcourse : Course K start events s) :
    s.rest.Asks p ∧ ∀ e ∈ exchanges events, p e.request := by
  induction hcourse with
  | nil => exact ⟨hasks, by simp [exchanges]⟩
  | snoc _ hstep ih =>
    obtain ⟨hasks, hasked⟩ := ih
    cases hstep with
    | other =>
      rw [exchanges_snoc_other]
      exact ⟨hasks, hasked⟩
    | asked hx =>
      obtain ⟨hr, hasks⟩ := hasks.step hx
      rw [exchanges_append, exchanges_asked]
      exact ⟨hasks, List.forall_mem_append.mpr ⟨hasked, List.forall_mem_singleton.mpr hr⟩⟩

theorem Course.of_done {v : α} (hcourse : Course K ⟨w, .done v⟩ events s) :
    s.rest = .done v ∧ exchanges events = [] := by
  induction hcourse with
  | nil => exact ⟨rfl, rfl⟩
  | snoc _ hstep ih =>
    obtain ⟨hrest, hexchanges⟩ := ih
    cases hstep with
    | other =>
      exact ⟨hrest, (exchanges_snoc_other _ _).trans hexchanges⟩
    | asked hx =>
      dsimp only at hrest
      rw [hrest] at hx
      cases hx

/-- A tour that ends and begins with a request asks this request before any other. -/
theorem exists_asked_of_course {next : r.Answer → Program α} {v : α}
    (hcourse : Course K ⟨w, .ask r next⟩ events s) (hended : s.rest.Ended v) :
    ∃ past w' a w'' future, events = past ++ .asked w' ⟨r, a⟩ :: future ∧ exchanges past = [] ∧
      Course K ⟨w, .ask r next⟩ past ⟨w', .ask r next⟩ ∧ Gives K w' r a w'' ∧
      Course K ⟨w'', next a⟩ future s := by
  have hasked : (s.rest = .ask r next ∧ exchanges events = []) ∨
      ∃ past w' a w'' future, events = past ++ .asked w' ⟨r, a⟩ :: future ∧ exchanges past = [] ∧
        Course K ⟨w, .ask r next⟩ past ⟨w', .ask r next⟩ ∧ Gives K w' r a w'' ∧
        Course K ⟨w'', next a⟩ future s := by
    clear hended
    induction hcourse with
    | nil => exact .inl ⟨rfl, rfl⟩
    | @snoc events e s t hrun hstep ih =>
      obtain ⟨hrest, hexchanges⟩ | ⟨past, w', a, w'', future, rfl, hpast⟩ := ih
      · cases hstep with
        | other =>
          rw [exchanges_append, hexchanges]
          exact .inl ⟨hrest, rfl⟩
        | asked hx hw =>
          dsimp only at hrest
          subst hrest
          cases hx
          exact .inr ⟨events, _, _, _, [], rfl, hexchanges, hrun, hw, .nil⟩
      · obtain ⟨hexchanges, hcourse, hw, hfuture⟩ := hpast
        refine .inr ⟨past, w', a, w'', future ++ [e], ?_, hexchanges, hcourse, hw,
          hfuture.snoc hstep⟩
        rw [List.append_assoc, List.cons_append]
  obtain ⟨hrest, -⟩ | hasked := hasked
  · rw [hrest] at hended
    cases hended
  · exact hasked

/-- Where others only remove records the cluster stays as it is. -/
theorem cluster_eq_of_course {start : Scene α} (hdrops : ∀ w c, K.others w c → ∃ n, c = .drop n)
    (hcourse : Course K start events s) :
    s.world.nodes = start.world.nodes ∧ s.world.pods = start.world.pods ∧
      s.world.allPods = start.world.allPods := by
  induction hcourse with
  | nil => exact ⟨rfl, rfl, rfl⟩
  | snoc _ hstep ih =>
    cases hstep with
    | other hc =>
      obtain ⟨n, rfl⟩ := hdrops _ _ hc
      exact ih
    | asked _ hw =>
      obtain ⟨hnodes, hpods, hall⟩ := hw.cluster_eq
      exact ⟨hnodes.trans ih.1, hpods.trans ih.2.1, hall.trans ih.2.2⟩

theorem losses_eq_nil {start : Scene α} (hothers : ∀ w c, ¬K.others w c)
    (hcourse : Course K start events s) : losses events = [] := by
  induction hcourse with
  | nil => rfl
  | snoc _ hstep ih =>
    rw [losses_append, ih]
    cases hstep with
    | other hc => exact absurd hc (hothers _ _)
    | asked => rfl

theorem store_eq_of_course {start : Scene α} (hothers : ∀ w c, ¬K.others w c)
    (hwrites : ∀ e ∈ exchanges events, e.request.isWrite = false)
    (hcourse : Course K start events s) : s.world.store = start.world.store := by
  induction hcourse with
  | nil => rfl
  | snoc _ hstep ih =>
    rw [exchanges_append, List.forall_mem_append] at hwrites
    cases hstep with
    | other hc => exact absurd hc (hothers _ _)
    | asked _ hw =>
      exact (hw.store_eq (hwrites.2 _ (List.mem_singleton_self _))).trans (ih hwrites.1)

/-! ## Going on with the first item -/

/-- The results of items that are all done, or what the first other item asks, and the items after
an answer. -/
def firstAsking : List (Action (Result Unit)) →
    List (Result Unit) ⊕ (r : Request) × (r.Answer → List (Action (Result Unit)))
  | [] => .inl []
  | .ask r go :: items => .inr ⟨r, fun a ↦ go a :: items⟩
  | .done result :: items =>
    match firstAsking items with
    | .inl results => .inl (result :: results)
    | .inr ⟨r, go⟩ => .inr ⟨r, fun a ↦ .done result :: go a⟩

/-- The value of a program that has ended, or what it asks if the first item of a batch goes on, and
what it goes on with. -/
def next : Program α → α ⊕ (r : Request) × (r.Answer → Program α)
  | .done v => .inl v
  | .ask r go => .inr ⟨r, go⟩
  | .batch n items go =>
    match firstAsking items with
    | .inl results => next (go results)
    | .inr ⟨r, more⟩ => .inr ⟨r, fun a ↦ .batch n (more a) go⟩
  | .loop question act s go => .inr ⟨question s, fun a ↦ .afterAction (act s a) fun
      | .inl s' => .loop question act s' go
      | .inr b => go b⟩

theorem eq_map_of_firstAsking {items : List (Action (Result Unit))} {results : List (Result Unit)}
    (h : firstAsking items = .inl results) : items = results.map .done := by
  induction items generalizing results with
  | nil =>
    cases h
    rfl
  | cons item items ih =>
    cases item with
    | ask r go => cases h
    | done result =>
      rw [firstAsking] at h
      split at h
      · next results' hrest =>
        cases h
        rw [ih hrest, List.map_cons]
      · cases h

theorem exists_item_of_firstAsking {items : List (Action (Result Unit))} {r : Request}
    {more : r.Answer → List (Action (Result Unit))} (h : firstAsking items = .inr ⟨r, more⟩) :
    ∃ xs go ys, items = xs ++ .ask r go :: ys ∧ ∀ a, more a = xs ++ go a :: ys := by
  induction items generalizing more with
  | nil => cases h
  | cons item items ih =>
    cases item with
    | ask r go =>
      cases h
      exact ⟨[], go, items, rfl, fun _ ↦ rfl⟩
    | done result =>
      rw [firstAsking] at h
      split at h
      · cases h
      · next r' go' hrest =>
        cases h
        obtain ⟨xs, go, ys, rfl, hgo⟩ := ih hrest
        exact ⟨.done result :: xs, go, ys, rfl, fun a ↦ congrArg (.done result :: ·) (hgo a)⟩

theorem ended_of_next {v : α} (h : next x = .inl v) : x.Ended v := by
  induction x with
  | done v' =>
    cases h
    exact .done v
  | ask | loop => cases h
  | batch n items go ih =>
    rw [next] at h
    split at h
    · next results hitems =>
      rw [eq_map_of_firstAsking hitems]
      exact .joined (ih _ h)
    · cases h

theorem exists_ended_of_isLeft (h : (next x).isLeft) : ∃ v, x.Ended v := by
  cases hnext : next x with
  | inl v => exact ⟨v, ended_of_next hnext⟩
  | inr => rw [hnext] at h; cases h

theorem step_of_next {more : r.Answer → Program α} (h : next x = .inr ⟨r, more⟩) (a : r.Answer) :
    x.Step r a (more a) := by
  induction x with
  | done v => cases h
  | ask r go =>
    cases h
    exact .ask _ a
  | loop =>
    cases h
    exact .loop a
  | batch n items go ih =>
    rw [next] at h
    split at h
    · next results hitems =>
      rw [eq_map_of_firstAsking hitems]
      exact .joined (ih _ h)
    · next r' more' hitems =>
      cases h
      obtain ⟨xs, go', ys, rfl, hmore⟩ := exists_item_of_firstAsking hitems
      dsimp only
      rw [hmore]
      exact .item xs ys a

/-- The answer to a request under the conditions, if the registry answers as given. -/
def reply (K : Conditions) (fleet : Fleet.Call → Result Fleet.Response) (w : World) :
    (r : Request) → World × r.Answer
  | .callFleet call => (w.note 0 (.callFleet call), fleet call)
  | r =>
    match K.refusal r with
    | some a => (w.note 0 r, a)
    | none => (w.note 0 r).respond {} r

/-- The program goes on with so many requests, and the first item of a batch always goes first. -/
def advance (K : Conditions) (fleet : Fleet.Call → Result Fleet.Response) :
    ℕ → Scene α → List Event × Scene α
  | 0, s => ([], s)
  | n + 1, s =>
    match next s.rest with
    | .inl _ => ([], s)
    | .inr ⟨r, more⟩ =>
      let (w, a) := reply K fleet s.world r
      let (events, t) := advance K fleet n ⟨w, more a⟩
      (.asked s.world ⟨r, a⟩ :: events, t)

variable {fleet : Fleet.Call → Result Fleet.Response}

theorem gives_reply (hfleet : ∀ call, K.fleet call (fleet call)) (w : World) (r : Request) :
    Gives K w r (reply K fleet w r).2 (reply K fleet w r).1 := by
  by_cases hr : r.kind = .callFleet
  · cases r with
    | callFleet call => exact .told (hfleet call)
    | _ => cases hr
  · have hreply : reply K fleet w r = match K.refusal r with
        | some a => (w.note 0 r, a)
        | none => (w.note 0 r).respond {} r := by
      cases r with
      | callFleet => exact absurd rfl hr
      | _ => rfl
    rw [hreply]
    split
    · next a hfault => exact .failed hr hfault
    · next hfault => exact .answered hr hfault

theorem course_advance (hfleet : ∀ call, K.fleet call (fleet call)) (n : ℕ) (s : Scene α) :
    Course K s (advance K fleet n s).1 (advance K fleet n s).2 := by
  induction n generalizing s with
  | zero => exact .nil
  | succ n ih =>
    rw [advance]
    split
    · exact .nil
    · next r more hnext =>
      have hstep : Step K s (.asked s.world ⟨r, (reply K fleet s.world r).2⟩)
          ⟨(reply K fleet s.world r).1, more (reply K fleet s.world r).2⟩ :=
        .asked (step_of_next hnext _) (gives_reply hfleet s.world r)
      exact (Run.nil.snoc hstep).append (ih _)

end Tour

end NodeInventory
