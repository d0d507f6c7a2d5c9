import NodeInventory.Proofs.Tour.Enumeration
import NodeInventory.Proofs.Tour.Logs

/-!
# What becomes of each part of the nodes

The nodes of the cluster are queued part by part, and both the listing and each push may fail.
Nothing is known here of the cluster or of the queue: what is answered may be anything. Whatever it
is, each part that was obtained and is not empty is pushed, in order, and one task is counted for
each push that succeeds (`Task.Enqueued`).

A push that fails ends nothing. Its failure is kept for the end, when all of them are joined. A
listing that fails ends everything, and what it comes to is the failure of the listing alone. So all
failures are told as long as they are of one kind; if a push failed before the listing did, nothing
is told of the push.

The answers that are of interest are a listing, which has an end (`Listing`), and an outcome for
each part that is not empty. With each choice of them the queueing comes to its end.
-/

namespace NodeInventory

/-! ## What is told of exchanges -/

/-- A text that was to be put at the end of a list, and what came of it. -/
structure Push where
  list : String
  text : String
  outcome : Result Unit

namespace Exchange

/-- The push that was made. -/
def push? : Exchange → Option Push
  | ⟨.pushValue list text, outcome⟩ => some ⟨list, text, outcome⟩
  | _ => none

/-- The answer to a request for a part of the nodes. -/
def listing? : Exchange → Option (Result (Page Node))
  | ⟨.listNodes _ _, answer⟩ => some answer
  | _ => none

/-- The nodes of a part that was obtained. -/
def part? : Result (Page Node) → Option (List Node)
  | .ok page => some page.items
  | .error _ => none

/-- Why a part was not obtained. -/
def fault? : Result (Page Node) → Option Failure
  | .ok _ => none
  | .error f => some f

/-- The pushes, in order. -/
def pushes (log : List Exchange) : List Push := log.filterMap push?

/-- What the cluster answered, in order. -/
def listings (log : List Exchange) : List (Result (Page Node)) := log.filterMap listing?

/-- The parts that are not empty, of those that were obtained. -/
def filled (answers : List (Result (Page Node))) : List (List Node) :=
  (answers.filterMap part?).filter fun nodes ↦ !nodes.isEmpty

/-- The texts whose push succeeded. -/
def queuedTexts (log : List Exchange) : List String :=
  ((pushes log).filter (·.outcome.isOk)).map Push.text

/-- The failures of pushes. -/
def unqueued (log : List Exchange) : List Failure :=
  (pushes log).filterMap fun p ↦ Failure.told? p.outcome

/-- The failures of the listing. -/
def unlisted (log : List Exchange) : List Failure := (listings log).filterMap fault?

@[simp] theorem pushes_append (log more : List Exchange) :
    pushes (log ++ more) = pushes log ++ pushes more :=
  List.filterMap_append

@[simp] theorem listings_append (log more : List Exchange) :
    listings (log ++ more) = listings log ++ listings more :=
  List.filterMap_append

theorem filled_append (answers more : List (Result (Page Node))) :
    filled (answers ++ more) = filled answers ++ filled more := by
  rw [filled, List.filterMap_append, List.filter_append, filled, filled]

@[simp] theorem queuedTexts_append (log more : List Exchange) :
    queuedTexts (log ++ more) = queuedTexts log ++ queuedTexts more := by
  simp [queuedTexts]

@[simp] theorem unlisted_append (log more : List Exchange) :
    unlisted (log ++ more) = unlisted log ++ unlisted more := by
  simp [unlisted]

variable (token : Option String) (limit : ℕ) (answer : Result (Page Node)) (page : Page Node)
  (log : List Exchange)

@[simp] theorem queuedTexts_listNodes_cons :
    queuedTexts (⟨.listNodes token limit, answer⟩ :: log) = queuedTexts log := rfl

@[simp] theorem pushes_listNodes_cons :
    pushes (⟨.listNodes token limit, answer⟩ :: log) = pushes log := rfl

@[simp] theorem listings_listNodes_cons :
    listings (⟨.listNodes token limit, answer⟩ :: log) = answer :: listings log := rfl

@[simp] theorem unlisted_ok_cons :
    unlisted (⟨.listNodes token limit, .ok page⟩ :: log) = unlisted log := rfl

end Exchange

/-- A store of lists after some pushes. One that failed changed nothing. -/
def KeyStore.afterPushes (s : KeyStore) (pushes : List Push) : KeyStore :=
  pushes.foldl (fun s p ↦ if p.outcome.isOk then s.push p.list p.text else s) s

theorem KeyStore.list_afterPushes {name : String} {pushes : List Push}
    (h : ∀ p ∈ pushes, p.list = name) (s : KeyStore) :
    (s.afterPushes pushes).list name =
      s.list name ++ (pushes.filter (·.outcome.isOk)).map Push.text := by
  induction pushes generalizing s with
  | nil => simp [afterPushes]
  | cons p pushes ih =>
    rw [List.forall_mem_cons] at h
    rw [afterPushes, List.foldl_cons, ← afterPushes, ih h.2]
    split
    · next hok => simp [hok, ← h.1, list_push]
    · next hfailed => simp [hfailed]

namespace Task

open Exchange Tour

variable {queue : String} {limit : ℕ} {token : Option String} {log : List Exchange}
  {results pushed : List (Result Unit)} {nodes : List Node} {result : Result Unit}

/-! ## One part -/

/-- The text of the task for some nodes. -/
def batchText (nodes : List Node) : String := (nodeBatch (nodes.map Node.name)).encode

/-- What is exchanged to queue the nodes of a part, and what comes of it. -/
inductive Pushed (queue : String) : List Node → List Exchange → List (Result Unit) → Prop
  | nothing : Pushed queue [] [] []
  | refused (node : Node) (nodes : List Node) (f : Failure) :
    Pushed queue (node :: nodes) [⟨.pushValue queue (batchText (node :: nodes)), .error f⟩]
      [.error (.context "error queuing node batch" f)]
  | queued (node : Node) (nodes : List Node) :
    Pushed queue (node :: nodes)
      [⟨.pushValue queue (batchText (node :: nodes)), .ok ()⟩, ⟨.count .tasksEnqueued, ()⟩]
      [.ok ()]

theorem plays_push {names : List String} {r : Result Unit} :
    (push queue (nodeBatch names)).Plays log r ↔
      (∃ f, log = [⟨.pushValue queue (nodeBatch names).encode, .error f⟩] ∧
        r = .error (.context "error queuing node batch" f)) ∨
      log = [⟨.pushValue queue (nodeBatch names).encode, .ok ()⟩, ⟨.count .tasksEnqueued, ()⟩] ∧
        r = .ok () := by
  constructor
  · intro h
    obtain ⟨answer, rest, rfl, hrest⟩ := Action.plays_ask_bind.mp h
    match answer with
    | .error f =>
      obtain ⟨rfl, rfl⟩ := Action.plays_done.mp hrest
      exact .inl ⟨f, rfl, rfl⟩
    | .ok () =>
      obtain ⟨⟨⟩, rest, rfl, hdone⟩ := Action.plays_ask_bind.mp hrest
      obtain ⟨rfl, rfl⟩ := Action.plays_done.mp hdone
      exact .inr ⟨rfl, rfl⟩
  · rintro (⟨f, rfl, rfl⟩ | ⟨rfl, rfl⟩)
    · exact .ask _ (.done _)
    · exact .ask _ (.ask _ (.done _))

theorem plays_pushPage :
    (pushPage queue nodes).Plays log pushed ↔ Pushed queue nodes log pushed := by
  cases nodes with
  | nil =>
    rw [pushPage, Action.pure_eq, Action.plays_done]
    constructor
    · rintro ⟨rfl, rfl⟩
      exact .nothing
    · rintro ⟨⟩
      exact ⟨rfl, rfl⟩
  | cons node nodes =>
    constructor
    · intro h
      obtain ⟨first, r, rest, rfl, hpush, hdone⟩ := Action.plays_bind.mp h
      obtain ⟨rfl, rfl⟩ := Action.plays_done.mp hdone
      rw [List.append_nil]
      obtain ⟨f, rfl, rfl⟩ | ⟨rfl, rfl⟩ := plays_push.mp hpush
      · exact .refused node nodes f
      · exact .queued node nodes
    · intro h
      refine Action.plays_bind.mpr ?_
      cases h with
      | refused _ _ f => exact ⟨_, _, [], rfl, plays_push.mpr (.inl ⟨f, rfl, rfl⟩), .done _⟩
      | queued => exact ⟨_, _, [], rfl, plays_push.mpr (.inr ⟨rfl, rfl⟩), .done _⟩

namespace Pushed

variable (h : Pushed queue nodes log pushed)
include h

theorem listings_eq_nil : listings log = [] := by cases h <;> rfl

theorem unlisted_eq_nil : unlisted log = [] := by cases h <;> rfl

theorem attempted (next : Option String) : (pushes log).map (fun p ↦ (p.list, p.text)) =
    (filled [.ok ⟨nodes, next⟩]).map fun nodes ↦ (queue, batchText nodes) := by
  cases h <;> rfl

theorem results_eq : pushed =
    (pushes log).map fun p ↦ p.outcome.within "error queuing node batch" := by
  cases h <;> rfl

theorem counted_eq : counted .tasksEnqueued log = (queuedTexts log).length := by
  cases h <;> rfl

end Pushed

theorem exists_pushed (queue : String) {next : Option String} {outcomes : List (Result Unit)}
    (h : outcomes.length = (filled [.ok ⟨nodes, next⟩]).length) :
    ∃ log pushed, Pushed queue nodes log pushed ∧ (pushes log).map Push.outcome = outcomes := by
  cases nodes with
  | nil =>
    obtain rfl := List.length_eq_zero_iff.mp h
    exact ⟨_, _, .nothing, rfl⟩
  | cons node nodes =>
    obtain ⟨outcome, rfl⟩ := List.length_eq_one_iff.mp h
    match outcome with
    | .error f => exact ⟨_, _, .refused node nodes f, rfl⟩
    | .ok () => exact ⟨_, _, .queued node nodes, rfl⟩

/-! ## All parts -/

/-- What is exchanged to queue the nodes after a token, what comes of each part, and the failure of
the listing if there is one. -/
inductive Told (queue : String) (limit : ℕ) :
    Option String → List Exchange → List (Result Unit) → Option Failure → Prop
  | failed (token : Option String) (f : Failure) :
    Told queue limit token [⟨.listNodes token limit, .error f⟩] [] (some f)
  | last {token : Option String} {nodes : List Node} {log : List Exchange}
    {pushed : List (Result Unit)} (hpushed : Pushed queue nodes log pushed) :
    Told queue limit token (⟨.listNodes token limit, .ok ⟨nodes, none⟩⟩ :: log) pushed none
  | more {token : Option String} {next : String} {nodes : List Node} {first rest : List Exchange}
    {pushed later : List (Result Unit)} {fault : Option Failure}
    (hpushed : Pushed queue nodes first pushed) (hrest : Told queue limit next rest later fault) :
    Told queue limit token (⟨.listNodes token limit, .ok ⟨nodes, some next⟩⟩ :: (first ++ rest))
      (pushed ++ later) fault

/-- What the queueing comes to. -/
def conclusion (results : List (Result Unit)) : Option Failure → Result Unit
  | none => Failure.join results
  | some f => .error (.query f)

/-- Where the queueing stands after a part that was obtained. -/
def afterPart (results : List (Result Unit)) :
    Option String → (Option String × List (Result Unit)) ⊕ Result Unit
  | some next => .inl (some next, results)
  | none => .inr (Failure.join results)

/-- After a part is obtained it is pushed, and the queueing goes on if there are more. -/
theorem plays_pushNext {next : Option String}
    {c : (Option String × List (Result Unit)) ⊕ Result Unit} :
    (pushNext queue (token, results) (.ok ⟨nodes, next⟩)).Plays log c ↔
      ∃ pushed, Pushed queue nodes log pushed ∧ c = afterPart (results ++ pushed) next := by
  have hpushNext : pushNext queue (token, results) (.ok ⟨nodes, next⟩) =
      pushPage queue nodes >>= fun pushed ↦ .done (afterPart (results ++ pushed) next) := by
    cases next <;> rfl
  rw [hpushNext]
  constructor
  · intro h
    obtain ⟨first, pushed, more, rfl, hpage, hmore⟩ := Action.plays_bind.mp h
    obtain ⟨rfl, rfl⟩ := Action.plays_done.mp hmore
    rw [List.append_nil]
    exact ⟨pushed, plays_pushPage.mp hpage, rfl⟩
  · rintro ⟨pushed, hpushed, rfl⟩
    exact Action.plays_bind.mpr ⟨log, pushed, [], (List.append_nil _).symm,
      plays_pushPage.mpr hpushed, .done _⟩

theorem plays_queueing_of_told {fault : Option Failure}
    (h : Told queue limit token log pushed fault) (results : List (Result Unit)) :
    (queueing queue limit token results).Plays log (conclusion (results ++ pushed) fault) := by
  induction h generalizing results with
  | failed token f =>
    exact Program.plays_loop.mpr ⟨.error f, [], .inr (.error (.query f)), [], rfl, .done _,
      .ended (.done _)⟩
  | @last token nodes log pushed hpushed =>
    exact Program.plays_loop.mpr ⟨.ok ⟨nodes, none⟩, log, _, [], by rw [List.append_nil],
      plays_pushNext.mpr ⟨pushed, hpushed, rfl⟩, .ended (.done _)⟩
  | @more token next nodes first rest pushed later fault hpushed hrest ih =>
    refine Program.plays_loop.mpr ⟨.ok ⟨nodes, some next⟩, first, _, rest, rfl,
      plays_pushNext.mpr ⟨pushed, hpushed, rfl⟩, ?_⟩
    rw [← List.append_assoc]
    exact ih (results ++ pushed)

/-- However it is answered, the queueing goes part by part. -/
theorem told_of_plays_queueing
    (h : (queueing queue limit token results).Plays log result) :
    ∃ pushed fault, Told queue limit token log pushed fault ∧
      result = conclusion (results ++ pushed) fault := by
  -- a round takes at least one exchange
  induction hlength : log.length using Nat.strong_induction_on generalizing token results log with
  | _ n ih =>
    subst hlength
    obtain ⟨answer, first, c, rest, rfl, hact, hrest⟩ := Program.plays_loop.mp h
    match answer with
    | .error f =>
      obtain ⟨rfl, rfl⟩ := Action.plays_done.mp hact
      obtain ⟨rfl, rfl⟩ := Program.plays_done.mp hrest
      exact ⟨[], some f, .failed token f, rfl⟩
    | .ok ⟨nodes, none⟩ =>
      obtain ⟨pushed, hpushed, rfl⟩ := plays_pushNext.mp hact
      obtain ⟨rfl, rfl⟩ := Program.plays_done.mp hrest
      rw [List.append_nil]
      exact ⟨pushed, none, .last hpushed, rfl⟩
    | .ok ⟨nodes, some next⟩ =>
      obtain ⟨pushed, hpushed, rfl⟩ := plays_pushNext.mp hact
      have hlt : rest.length < (first ++ rest).length + 1 := by
        rw [List.length_append]
        omega
      obtain ⟨later, fault, hlater, rfl⟩ := ih _ hlt hrest rfl
      refine ⟨pushed ++ later, fault, .more hpushed hlater, ?_⟩
      rw [List.append_assoc]

namespace Told

variable {fault : Option Failure} (h : Told queue limit token log pushed fault)
include h

theorem attempted : (pushes log).map (fun p ↦ (p.list, p.text)) =
    (filled (listings log)).map fun nodes ↦ (queue, batchText nodes) := by
  induction h with
  | failed => rfl
  | last hpushed =>
    rw [pushes_listNodes_cons, hpushed.attempted none, listings_listNodes_cons,
      hpushed.listings_eq_nil]
  | @more _ next nodes _ rest _ _ _ hpushed _ ih =>
    rw [pushes_listNodes_cons, pushes_append, List.map_append, hpushed.attempted (some next), ih,
      ← List.map_append, ← filled_append, listings_listNodes_cons, listings_append,
      hpushed.listings_eq_nil]
    rfl

theorem results_eq : pushed =
    (pushes log).map fun p ↦ p.outcome.within "error queuing node batch" := by
  induction h with
  | failed => rfl
  | last hpushed => rw [pushes_listNodes_cons, ← hpushed.results_eq]
  | more hpushed _ ih =>
    rw [pushes_listNodes_cons, pushes_append, List.map_append, ← hpushed.results_eq, ← ih]

theorem filterMap_told? : pushed.filterMap Failure.told? =
    (unqueued log).map (.context "error queuing node batch") := by
  rw [h.results_eq, unqueued, List.filterMap_map, List.map_filterMap]
  refine List.filterMap_congr fun p _ ↦ ?_
  obtain ⟨_, _, _ | _⟩ := p <;> rfl

theorem unlisted_eq : unlisted log = fault.toList := by
  induction h with
  | failed => rfl
  | last hpushed => rw [unlisted_ok_cons, hpushed.unlisted_eq_nil, Option.toList_none]
  | more hpushed _ ih => rw [unlisted_ok_cons, unlisted_append, hpushed.unlisted_eq_nil, ih,
      List.nil_append]

theorem counted_eq : counted .tasksEnqueued log = (queuedTexts log).length := by
  induction h with
  | failed => rfl
  | last hpushed => simp [Request.counts, hpushed.counted_eq]
  | more hpushed _ ih => simp [Request.counts, hpushed.counted_eq, ih]

theorem list_eq : ∀ p ∈ pushes log, p.list = queue := by
  intro p hp
  have hmem : (p.list, p.text) ∈ (pushes log).map fun p ↦ (p.list, p.text) :=
    List.mem_map_of_mem hp
  rw [h.attempted] at hmem
  obtain ⟨nodes, -, heq⟩ := List.mem_map.mp hmem
  exact (congrArg Prod.fst heq).symm

theorem conclusion_eq (hlisted : unlisted log = []) : conclusion pushed fault =
    Failure.summary ((unqueued log).map (.context "error queuing node batch")) := by
  have hfault : fault = none := by rwa [h.unlisted_eq, Option.toList_eq_nil_iff] at hlisted
  rw [hfault, conclusion, Failure.join_eq_summary, h.filterMap_told?]

theorem conclusion_eq_query {f : Failure} (hf : f ∈ unlisted log) :
    conclusion pushed fault = .error (.query f) := by
  rw [h.unlisted_eq, Option.mem_toList] at hf
  rw [hf, conclusion]

theorem conclusion_eq_ok_iff :
    conclusion pushed fault = .ok () ↔ unqueued log = [] ∧ unlisted log = [] := by
  cases hunlisted : unlisted log with
  | nil =>
    rw [h.conclusion_eq hunlisted, Failure.summary_eq_ok_iff, List.map_eq_nil_iff,
      and_iff_left rfl]
  | cons f fs =>
    rw [h.conclusion_eq_query (hunlisted ▸ List.mem_cons_self)]
    exact iff_of_false (by rintro ⟨⟩) (by rintro ⟨-, ⟨⟩⟩)

theorem exists_tells_unqueued (hlisted : unlisted log = []) {f : Failure} (hf : f ∈ unqueued log) :
    ∃ e, conclusion pushed fault = .error e ∧ e.Tells f := by
  obtain ⟨e, he, htells⟩ := Failure.exists_summary_tells
    (List.mem_map_of_mem hf (f := .context "error queuing node batch"))
  exact ⟨e, (h.conclusion_eq hlisted).trans he, htells.trans (.context (.self f))⟩

end Told

/-! ## What becomes of all parts -/

/-- Each part that is obtained and not empty is pushed, and what succeeds is queued and counted. All
failures are told, unless a push fails before the listing does. -/
structure Enqueued (queue : String) (log : List Exchange) (result : Result Unit) : Prop where
  attempted : (pushes log).map (fun p ↦ (p.list, p.text)) =
    (filled (listings log)).map fun nodes ↦ (queue, batchText nodes)
  queued (s : KeyStore) :
    (s.afterPushes (pushes log)).list queue = s.list queue ++ queuedTexts log
  counted : counted .tasksEnqueued log = (queuedTexts log).length
  succeeds_iff : result = .ok () ↔ unqueued log = [] ∧ unlisted log = []
  /-- The failures of pushes are joined if the listing does not fail. -/
  joined (h : unlisted log = []) :
    result = Failure.summary ((unqueued log).map (.context "error queuing node batch"))
  /-- The failure of the listing is the result if no push failed. -/
  refused (h : unqueued log = []) {f : Failure} (hf : f ∈ unlisted log) : result = .error (.query f)
  /-- Every failure is told, if all are of one kind. -/
  tells (h : unqueued log = [] ∨ unlisted log = []) {f : Failure}
    (hf : f ∈ unqueued log ++ unlisted log) : ∃ e, result = .error e ∧ e.Tells f

theorem Told.enqueued {fault : Option Failure} (h : Told queue limit token log pushed fault) :
    Enqueued queue log (conclusion pushed fault) where
  attempted := h.attempted
  queued := KeyStore.list_afterPushes h.list_eq
  counted := h.counted_eq
  succeeds_iff := h.conclusion_eq_ok_iff
  joined := h.conclusion_eq
  refused := fun _ _ hf ↦ h.conclusion_eq_query hf
  tells := by
    rintro hone f hf
    obtain hf | hf := List.mem_append.mp hf
    · have hlisted : unlisted log = [] := hone.resolve_left (List.ne_nil_of_mem hf)
      exact h.exists_tells_unqueued hlisted hf
    · exact ⟨.query f, h.conclusion_eq_query hf, .query (.self f)⟩

/-! ## Listings -/

/-- What the cluster may tell of its nodes: parts with tokens, and in the end a part without one or
a failure. -/
inductive Listing
  | failed (f : Failure)
  | last (nodes : List Node)
  | more (nodes : List Node) (token : String) (rest : Listing)

namespace Listing

/-- The answers in order. -/
def answers : Listing → List (Result (Page Node))
  | failed f => [.error f]
  | last nodes => [.ok ⟨nodes, none⟩]
  | more nodes token rest => .ok ⟨nodes, some token⟩ :: rest.answers

end Listing

/-- The queueing comes to its end for every listing and all outcomes of its pushes. -/
theorem exists_told (queue : String) (limit : ℕ) (token : Option String) (listing : Listing)
    {outcomes : List (Result Unit)} (h : outcomes.length = (filled listing.answers).length) :
    ∃ log pushed fault, Told queue limit token log pushed fault ∧
      listings log = listing.answers ∧ (pushes log).map Push.outcome = outcomes := by
  induction listing generalizing token outcomes with
  | failed f =>
    obtain rfl := List.length_eq_zero_iff.mp h
    exact ⟨_, _, _, .failed token f, rfl, rfl⟩
  | last nodes =>
    obtain ⟨log, pushed, hpushed, houtcomes⟩ := exists_pushed queue h
    refine ⟨_, pushed, none, .last hpushed, ?_, houtcomes⟩
    rw [listings_listNodes_cons, hpushed.listings_eq_nil, Listing.answers]
  | more nodes next rest ih =>
    have happend : filled (Listing.more nodes next rest).answers =
        filled [.ok ⟨nodes, some next⟩] ++ filled rest.answers :=
      filled_append [_] rest.answers
    rw [happend, List.length_append] at h
    obtain ⟨here, there, rfl, hhere, hthere⟩ : ∃ here there, outcomes = here ++ there ∧
        here.length = (filled [.ok ⟨nodes, some next⟩]).length ∧
        there.length = (filled rest.answers).length := by
      refine ⟨_, _, (List.take_append_drop _ outcomes).symm, List.length_take_of_le ?_, ?_⟩
      · omega
      · rw [List.length_drop]
        omega
    obtain ⟨first, pushed, hpushed, hfirst⟩ := exists_pushed queue hhere
    obtain ⟨log, later, fault, hlater, hlistings, hlog⟩ := ih (some next) hthere
    refine ⟨_, _, fault, .more hpushed hlater, ?_, ?_⟩
    · rw [listings_listNodes_cons, listings_append, hpushed.listings_eq_nil, hlistings,
        List.nil_append, Listing.answers]
    · rw [pushes_listNodes_cons, pushes_append, List.map_append, hfirst, hlog]

/-! ## The queueing of all nodes -/

/-- For every listing and all outcomes of the pushes, the queueing of all nodes comes to its end.
However it does, every part is pushed that was obtained and is not empty, what was pushed with
success is queued and counted, and the result is a success if and only if nothing failed. Every
failure is told unless both a push and the listing fail. -/
theorem failures_of_one_kind_are_told (queue : String) (pageSize : ℕ) :
    (∀ (listing : Listing) (outcomes : List (Result Unit)),
      outcomes.length = (filled listing.answers).length → ∃ log result,
        (enqueueAll queue pageSize).Plays log result ∧ listings log = listing.answers ∧
          (pushes log).map Push.outcome = outcomes) ∧
    ∀ log result, (enqueueAll queue pageSize).Plays log result → Enqueued queue log result := by
  constructor
  · intro listing outcomes h
    obtain ⟨log, pushed, fault, htold, hlistings, houtcomes⟩ :=
      exists_told queue pageSize none listing h
    exact ⟨log, _, plays_queueing_of_told htold [], hlistings, houtcomes⟩
  · intro log result h
    obtain ⟨pushed, fault, htold, rfl⟩ := told_of_plays_queueing h
    exact htold.enqueued

/-- A node of the given name, of which nothing else is known. -/
def bareNode (name : String) : Node := { ownName := some name }

theorem refused_batch_is_told : ∃ log result, (enqueueAll "task_queue" 1).Plays log result ∧
    listings log = [.ok ⟨[bareNode "a"], some "a"⟩, .ok ⟨[bareNode "b"], none⟩] ∧
    (pushes log).map Push.outcome = [.error (.plain "connection refused"), .ok ()] ∧
    Enqueued "task_queue" log result ∧
    result = .error (.joined [.context "error queuing node batch"
      (.plain "connection refused")]) := by
  obtain ⟨log, result, hplays, hlistings, houtcomes⟩ :=
    (failures_of_one_kind_are_told "task_queue" 1).1
      (.more [bareNode "a"] "a" (.last [bareNode "b"]))
      [.error (.plain "connection refused"), .ok ()] rfl
  have henqueued := (failures_of_one_kind_are_told "task_queue" 1).2 log result hplays
  have hunlisted : unlisted log = [] := by rw [unlisted, hlistings]; rfl
  have hunqueued : unqueued log = [.plain "connection refused"] := by
    have hmap : unqueued log = ((pushes log).map Push.outcome).filterMap Failure.told? := by
      rw [List.filterMap_map]
      rfl
    rw [hmap, houtcomes]
    rfl
  refine ⟨log, result, hplays, hlistings, houtcomes, henqueued, ?_⟩
  rw [henqueued.joined hunlisted, hunqueued]
  rfl

/-- The push of the first part fails, and then the listing does. The result is the failure of the
listing, which tells nothing of the push. -/
theorem refused_batch_before_fault_is_not_told :
    ∃ log, (enqueueAll "task_queue" 1).Plays log (.error (.query (.plain "timeout"))) ∧
      listings log = [.ok ⟨[bareNode "a"], some "a"⟩, .error (.plain "timeout")] ∧
      unqueued log = [.plain "connection refused"] ∧
      ¬ (Failure.query (.plain "timeout")).Tells (.plain "connection refused") := by
  refine ⟨_, plays_queueing_of_told (.more (.refused (bareNode "a") [] (.plain "connection refused"))
    (.failed (some "a") (.plain "timeout"))) [], rfl, rfl, ?_⟩
  intro h
  cases h with
  | query h => exact absurd (Failure.plain_tells_iff.mp h) (by simp)

end Task

end NodeInventory
