import Mathlib.Data.Nat.Nth
import NodeInventory.Proofs.Failure
import NodeInventory.Proofs.Pass.Enumeration
import NodeInventory.Proofs.Tour.Naming

/-!
# Enumerations in parts lose nothing and repeat nothing

While records and nodes come and go, the names of all records are listed part by part, and so are
the nodes, a task being queued for each part that is not empty. Both loops read a listing in parts
(`Reading`), each from where the part before it ended. So what they have enumerated in the end
increases strictly, it has all that was there for every part, and nothing that was there for none
(`enumerations_lose_and_repeat_nothing`).

What was enumerated was there from the beginning or was added, and a part that is not the last is
not empty. Hence there are no more parts than names, and an enumeration ends unless names are added
again and again.
-/

namespace NodeInventory.Tour

open Simulation Pass

variable {α : Type} {w w' : World} {s t start : Scene α} {e : Event}
  {events past future : List Event} {limit : ℕ} {token : Option String} {queue : String}
  {visits parts : List (List String)} {before : List String}

/-- Others may do anything to records and nodes, as long as records are stored under the names of
their nodes. Nothing fails. -/
def busy : Conditions where
  others _ c := c.Keyed
  fault _ := none
  fleet _ _ := True
  answers := exists_any_answer

/-! ## Queueing all nodes -/

/-- The queueing of all nodes, when some were queued. -/
abbrev queueing (queue : String) (limit : ℕ) (token : Option String)
    (results : List (Result Unit)) : Program (Result Unit) :=
  .loop (fun s : Option String × List (Result Unit) ↦ .listNodes s.1 limit) (Task.pushNext queue)
    (token, results) .done

/-- What is left to do when all parts that were read are queued. -/
inductive Left (queue : String) (limit : ℕ) (visits parts : List (List String)) :
    Program (Result Unit) → Prop
  | more {token : Option String} {results : List (Result Unit)}
    (hread : Reading limit visits parts token) (hresults : ∀ r ∈ results, r = .ok ()) :
    Left queue limit visits parts (queueing queue limit token results)
  | nothing (hread : Enumerated limit visits parts) :
    Left queue limit visits parts (.done (.ok ()))

/-- How far a tour has come that queues all nodes. Each part takes three requests at most. -/
inductive Queueing (queue : String) (limit : ℕ) (before : List String) :
    List Event → Scene (Result Unit) → Prop
  /-- All parts that were read are queued. -/
  | ready {events : List Event} {w : World} {parts : List (List String)}
      {x : Program (Result Unit)} (hleft : Left queue limit (Subject.nodes.visits events) parts x)
      (hqueue : w.queued queue = before ++ texts parts) (hlisted : Pass.Listed w.nodes)
      (hasked : (exchanges events).length ≤ 3 * (Subject.nodes.visits events).length) :
    Queueing queue limit before events ⟨w, x⟩
  /-- A part is to be queued. -/
  | pushing {events : List Event} {w : World} {parts : List (List String)} {part : List String}
      {next : Result Unit → Program (Result Unit)} {x : Program (Result Unit)}
      (hleft : Left queue limit (Subject.nodes.visits events) (parts ++ [part]) x)
      (hnext : next (.ok ()) = .ask (.count .tasksEnqueued) fun _ ↦ x)
      (hqueue : w.queued queue = before ++ texts parts) (hlisted : Pass.Listed w.nodes)
      (hasked : (exchanges events).length + 2 ≤ 3 * (Subject.nodes.visits events).length) :
    Queueing queue limit before events
      ⟨w, .ask (.pushValue queue (Task.nodeBatch part).encode) next⟩
  /-- A part was queued, which is to be counted. -/
  | counting {events : List Event} {w : World} {parts : List (List String)}
      {x : Program (Result Unit)} (hleft : Left queue limit (Subject.nodes.visits events) parts x)
      (hqueue : w.queued queue = before ++ texts parts) (hlisted : Pass.Listed w.nodes)
      (hasked : (exchanges events).length + 1 ≤ 3 * (Subject.nodes.visits events).length) :
    Queueing queue limit before events ⟨w, .ask (.count .tasksEnqueued) fun _ ↦ x⟩

theorem Change.listed {c : Change} (h : Pass.Listed w.nodes) : Pass.Listed (c.apply w).nodes := by
  intro n node hnode
  cases c with
  | put | drop => exact h n node hnode
  | join newcomer =>
    rw [Change.apply, Dict.get?_insert] at hnode
    split at hnode
    · next hn =>
      cases hnode
      exact hn.symm
    · exact h n node hnode
  | leave name =>
    rw [Change.apply, Dict.get?_erase] at hnode
    split at hnode
    · cases hnode
    · exact h n node hnode

theorem Change.queued_apply (c : Change) (w : World) (queue : String) :
    (c.apply w).queued queue = w.queued queue := by
  cases c <;> rfl

theorem names_page_nodes (h : Pass.Listed w.nodes) :
    (w.nodes.page token limit).items.map Node.name = w.nodes.part token limit :=
  Dict.map_items_page h

/-- A part of the listing of nodes comes as it is if asking for it does not fail. -/
theorem Gives.of_listNodes {K : Conditions} {a : (Request.listNodes token limit).Answer}
    (h : Gives K w (.listNodes token limit) a w')
    (hfault : K.fault (.listNodes token limit) = none) :
    a = .ok (w.nodes.page token limit) ∧ w' = w.note 0 (.listNodes token limit) := by
  cases h.pass hfault with
  | answered => exact ⟨rfl, rfl⟩

theorem Left.not_asks {x y : Program (Result Unit)} {r : Request} {a : r.Answer}
    (h : Left queue limit visits parts x) (hstep : x.Step r a y) :
    ∃ token results, x = queueing queue limit token results ∧ r = .listNodes token limit ∧
      Reading limit visits parts token ∧ ∀ r ∈ results, r = .ok () := by
  cases h with
  | more hread hresults =>
    cases hstep
    exact ⟨_, _, rfl, rfl, hread, hresults⟩
  | nothing => cases hstep

/-- A part was read. -/
theorem Queueing.read {results : List (Result Unit)}
    {next : (Option String × List (Result Unit)) ⊕ Result Unit → Program (Result Unit)}
    (hmore : ∀ token results, next (.inl (token, results)) = queueing queue limit token results)
    (hdone : ∀ result, next (.inr result) = .done result)
    (hread : Reading limit (Subject.nodes.visits events) parts token)
    (hresults : ∀ r ∈ results, r = .ok ()) (hqueue : w.queued queue = before ++ texts parts)
    (hlisted : Pass.Listed w.nodes)
    (hasked : (exchanges events).length ≤ 3 * (Subject.nodes.visits events).length) :
    Queueing queue limit before
      (events ++ [.asked w ⟨.listNodes token limit,
        (.ok (w.nodes.page token limit) : Result (Page Node))⟩])
      ⟨w.note 0 (.listNodes token limit),
        .afterAction (Task.pushNext queue (token, results) (.ok (w.nodes.page token limit)))
          next⟩ := by
  have hvisits : Subject.nodes.visits (events ++ [.asked w ⟨.listNodes token limit,
      (.ok (w.nodes.page token limit) : Result (Page Node))⟩]) =
        Subject.nodes.visits events ++ [w.nodes.keys] :=
    Subject.visits_snoc rfl
  have hnames : (w.nodes.page token limit).items.map Node.name = w.nodes.part token limit :=
    names_page_nodes hlisted
  rw [Task.pushNext, Program.afterAction_bind]
  cases hitems : (w.nodes.page token limit).items with
  | nil =>
    rw [hitems, List.map_nil] at hnames
    have hnext : (w.nodes.page token limit).next = none := by
      cases hnext : (w.nodes.page token limit).next with
      | none => rfl
      | some t =>
        have hlast := Dict.getLast?_part hnext
        rw [← hnames] at hlast
        cases hlast
    have hfinish := hread.finish hnext
    rw [← hnames, addPart, ← hvisits] at hfinish
    rw [hnext]
    refine .ready ?_ hqueue hlisted ?_
    · have hjoin : Failure.join (results ++ []) = .ok () := by
        rw [List.append_nil, Failure.join_of_forall_eq_ok hresults]
      change Left _ _ _ _ (next (.inr (Failure.join (results ++ []))))
      rw [hdone, hjoin]
      exact .nothing hfinish
    · rw [hvisits, exchanges_append, List.length_append, List.length_append]
      simp only [exchanges_asked, List.length_singleton]
      omega
  | cons node nodes =>
    have hpart : w.nodes.part token limit = (node :: nodes).map Node.name := by
      rw [← hnames, hitems]
    have hresults' : ∀ r ∈ results ++ [.ok ()], r = .ok () := by
      simpa [or_imp, forall_and] using hresults
    refine .pushing ?_ rfl hqueue hlisted ?_
    · rw [hvisits, ← hpart]
      cases hnext : (w.nodes.page token limit).next with
      | none =>
        have hfinish := hread.finish hnext
        rw [addPart_of_ne_nil (by simp [hpart])] at hfinish
        change Left _ _ _ _ (next (.inr (Failure.join (results ++ [.ok ()]))))
        rw [hdone, Failure.join_of_forall_eq_ok hresults']
        exact .nothing hfinish
      | some t =>
        change Left _ _ _ _ (next (.inl (some t, results ++ [.ok ()])))
        rw [hmore]
        exact .more (hread.next hnext) hresults'
    · rw [hvisits, exchanges_append, List.length_append, List.length_append]
      simp only [exchanges_asked, List.length_singleton]
      omega

theorem Queueing.step {s t : Scene (Result Unit)} (h : Queueing queue limit before events s)
    (hstep : Step busy s e t) : Queueing queue limit before (events ++ [e]) t := by
  cases hstep with
  | @other w x c hc =>
    have hvisits : Subject.nodes.visits (events ++ [.other c]) = Subject.nodes.visits events :=
      Subject.visits_snoc_other _ events c
    have hexchanges : exchanges (events ++ [.other c]) = exchanges events :=
      exchanges_snoc_other events c
    cases h with
    | ready hleft hqueue hlisted hasked =>
      exact .ready (hvisits ▸ hleft) ((c.queued_apply _ _).trans hqueue) (Change.listed hlisted)
        (by rwa [hvisits, hexchanges])
    | pushing hleft hnext hqueue hlisted hasked =>
      exact .pushing (hvisits ▸ hleft) hnext ((c.queued_apply _ _).trans hqueue)
        (Change.listed hlisted) (by rwa [hvisits, hexchanges])
    | counting hleft hqueue hlisted hasked =>
      exact .counting (hvisits ▸ hleft) ((c.queued_apply _ _).trans hqueue)
        (Change.listed hlisted) (by rwa [hvisits, hexchanges])
  | @asked w w' x y r a hx hw =>
    have hgives := hw.pass rfl
    have hexchanges : (exchanges (events ++ [.asked w ⟨r, a⟩])).length =
        (exchanges events).length + 1 := by
      rw [exchanges_append, List.length_append, exchanges_asked, List.length_singleton]
    cases h with
    | ready hleft hqueue hlisted hasked =>
      obtain ⟨token, results, rfl, rfl, hread, hresults⟩ := hleft.not_asks hx
      cases hx
      obtain ⟨rfl, rfl⟩ := hw.of_listNodes rfl
      exact .read (fun _ _ ↦ rfl) (fun _ ↦ rfl) hread hresults hqueue hlisted hasked
    | @pushing _ parts part next _ hleft hnext hqueue hlisted hasked =>
      have hvisits : Subject.nodes.visits (events ++ [.asked w ⟨r, a⟩]) =
          Subject.nodes.visits events := by
        cases hx
        exact Subject.visits_snoc_of_ne (by simp [Request.kind, Subject.kind])
      cases hx
      cases hgives with
      | answered =>
        have hpushed : (w.coordination.push queue (Task.nodeBatch part).encode).list queue =
            before ++ texts (parts ++ [part]) := by
          rw [KeyStore.list_push, texts, List.map_append, ← texts, ← List.append_assoc, ← hqueue]
          rfl
        change Queueing queue limit before _ ⟨_, next (.ok ())⟩
        rw [hnext]
        exact .counting (hvisits ▸ hleft) hpushed hlisted (by rw [hvisits, hexchanges]; omega)
    | counting hleft hqueue hlisted hasked =>
      have hvisits : Subject.nodes.visits (events ++ [.asked w ⟨r, a⟩]) =
          Subject.nodes.visits events := by
        cases hx
        exact Subject.visits_snoc_of_ne (by simp [Request.kind, Subject.kind])
      cases hx
      cases hgives with
      | answered =>
        exact .ready (hvisits ▸ hleft) hqueue hlisted (by rw [hvisits, hexchanges]; omega)

theorem queueing_of_course {s : Scene (Result Unit)} (hlisted : Pass.Listed w.nodes)
    (hcourse : Course busy ⟨w, Task.enqueueAll queue limit⟩ events s) :
    Queueing queue limit (w.queued queue) events s := by
  induction hcourse with
  | nil =>
    refine .ready (.more (.start limit) (by simp)) ?_ hlisted (by simp [exchanges])
    exact (List.append_nil _).symm
  | snoc _ hstep ih => exact ih.step hstep

/-! ## How many parts there are -/

variable {q : Subject} {K : Conditions}

/-- There are no more names than there were and were added. -/
theorem length_flatten_le {names : List String} (hincreasing : parts.flatten.Pairwise (· < ·))
    (hpresent : ∀ n ∈ parts.flatten, ∃ visit ∈ visits, n ∈ visit)
    (hknown : ∀ visit ∈ visits, ∀ n ∈ visit, n ∈ names) :
    parts.flatten.length ≤ names.length := by
  refine (List.subperm_of_subset (nodup_of_increasing hincreasing) fun n hn ↦ ?_).length_le
  obtain ⟨visit, hvisit, hmem⟩ := hpresent n hn
  exact hknown visit hvisit n hmem

theorem Reading.length_visits_le {names : List String} (h : Reading limit visits parts token)
    (hknown : ∀ visit ∈ visits, ∀ n ∈ visit, n ∈ names) : visits.length ≤ names.length + 1 := by
  have hlength := length_flatten_le h.increasing h.present hknown
  rw [h.length] at hlength
  have hparts : parts.length * 1 ≤ parts.length * max limit 1 :=
    Nat.mul_le_mul_left _ (Nat.le_max_right _ _)
  rw [h.visited]
  omega

theorem Enumerated.length_visits_le {names : List String} (h : Enumerated limit visits parts)
    (hknown : ∀ visit ∈ visits, ∀ n ∈ visit, n ∈ names) : visits.length ≤ names.length + 1 := by
  have hlength := length_flatten_le h.increasing h.present hknown
  have hpositive : 0 < max limit 1 := Nat.le_max_right _ _
  have hparts : parts.length ≤ parts.flatten.length := by
    rw [h.number, ceilDiv_le_iff_le_mul hpositive]
    exact Nat.le_mul_of_pos_left _ hpositive
  have hvisited := h.visited
  omega

/-! ## Whole enumerations -/

/-- A program enumerates something in parts, while others add and remove names. In the end it has
the given outcome. -/
structure Enumerates (q : Subject) (limit cost : ℕ) (start : Scene α)
    (outcome : World → α → List (List String) → Prop) : Prop where
  /-- What it has enumerated in the end increases strictly, has every name that was there for every
  part, and has no name that was there for none. -/
  outcome : ∀ events s v, Course busy start events s → s.rest.Ended v →
    ∃ parts, outcome s.world v parts ∧ Enumerated limit (q.visits events) parts
  /-- As long as it has not ended it can go on. -/
  goesOn : ∀ events s, Course busy start events s →
    (∃ v, s.rest.Ended v) ∨ ∃ w e t, Step busy s (.asked w e) t
  /-- It asks no more often than there are names, but for the cost of a part. -/
  bounded : ∀ events s, Course busy start events s → (exchanges events).length ≤
    cost * ((q.names start.world).length + (q.additions events).length + 1)
  /-- It ends, unless it is kept from asking for ever or names are added for ever. -/
  ends : ∀ (scenes : ℕ → Scene α) (events : ℕ → Event), scenes 0 = start →
    (∀ i, Step busy (scenes i) (events i) (scenes (i + 1))) →
    (∀ i, (∃ v, (scenes i).rest.Ended v) ∨ ∃ j, i ≤ j ∧ (events j).exchange?.isSome) →
    {i | (q.added? (events i)).isSome}.Finite → ∃ i v, (scenes i).rest.Ended v

/-- The beginning of an endless course is a course. -/
theorem exists_course {scenes : ℕ → Scene α} {events : ℕ → Event}
    (hstep : ∀ i, Step K (scenes i) (events i) (scenes (i + 1))) (n : ℕ) :
    ∃ log, Course K (scenes 0) log (scenes n) ∧
      (exchanges log).length = Nat.count (fun i ↦ (events i).exchange?.isSome) n ∧
      (q.additions log).length = Nat.count (fun i ↦ (q.added? (events i)).isSome) n := by
  induction n with
  | zero => exact ⟨[], .nil, rfl, rfl⟩
  | succ n ih =>
    obtain ⟨log, hcourse, hexchanges, hadditions⟩ := ih
    refine ⟨log ++ [events n], hcourse.snoc (hstep n), ?_, ?_⟩
    · rw [exchanges_append, List.length_append, hexchanges, Nat.count_succ]
      cases h : (events n).exchange? <;> simp [exchanges, h]
    · rw [Subject.additions_append, List.length_append, hadditions, Nat.count_succ]
      cases h : q.added? (events n) <;> simp [Subject.additions, h]

/-- Whoever asks no more often than names are added ends. -/
theorem exists_ended_of_bounded {cost size : ℕ}
    (hbounded : ∀ events s, Course K start events s →
      (exchanges events).length ≤ cost * (size + (q.additions events).length + 1))
    {scenes : ℕ → Scene α} {events : ℕ → Event} (hstart : scenes 0 = start)
    (hstep : ∀ i, Step K (scenes i) (events i) (scenes (i + 1)))
    (hfair : ∀ i, (∃ v, (scenes i).rest.Ended v) ∨ ∃ j, i ≤ j ∧ (events j).exchange?.isSome)
    (hfinite : {i | (q.added? (events i)).isSome}.Finite) : ∃ i v, (scenes i).rest.Ended v := by
  subst hstart
  by_contra hnever
  have hasks : ∀ i, ∃ j, i ≤ j ∧ (events j).exchange?.isSome := fun i ↦
    (hfair i).resolve_left fun ⟨v, hv⟩ ↦ hnever ⟨i, v, hv⟩
  -- then it asks time and again, more often than it can
  have hinfinite : {i | (events i).exchange?.isSome}.Infinite :=
    Set.infinite_of_forall_exists_gt fun i ↦ by
      obtain ⟨j, hij, hj⟩ := hasks (i + 1)
      exact ⟨j, hj, hij⟩
  obtain ⟨most, hmost⟩ : ∃ most, most = cost * (size + hfinite.toFinset.card + 1) := ⟨_, rfl⟩
  obtain ⟨log, hcourse, hexchanges, hadditions⟩ := exists_course (q := q) hstep
    (Nat.nth (fun i ↦ (events i).exchange?.isSome) (most + 1))
  rw [Nat.count_nth_of_infinite hinfinite] at hexchanges
  have hadded : (q.additions log).length ≤ hfinite.toFinset.card := by
    rw [hadditions]
    exact Nat.count_le_card hfinite _
  have hle : most + 1 ≤ cost * (size + (q.additions log).length + 1) :=
    hexchanges ▸ hbounded log _ hcourse
  have hmul : cost * (size + (q.additions log).length + 1) ≤ most := by
    rw [hmost]
    exact Nat.mul_le_mul_left _ (by omega)
  omega

theorem length_exchanges_eq (h : ∀ e ∈ exchanges events, e.request.kind = q.kind) :
    (exchanges events).length = (q.visits events).length := by
  induction events with
  | nil => rfl
  | cons e events ih =>
    cases e with
    | other c => exact ih h
    | asked w e =>
      have hkind : e.request.kind = q.kind := h e (by simp [exchanges, Event.exchange?])
      have hrest := ih fun e' he' ↦ h e' (List.mem_cons_of_mem _ he')
      simp only [exchanges, Subject.visits] at hrest
      simp [exchanges, Subject.visits, Event.exchange?, Subject.visit?, hkind, hrest]

theorem enumerates_listNames (limit : ℕ) (hkeyed : Keyed w) :
    Enumerates .records limit 1 ⟨w, Record.listNames limit⟩ fun _ v parts ↦
      v = .ok parts.flatten := by
  have hnaming : ∀ events s, Course busy ⟨w, Record.listNames limit⟩ events s →
      Naming busy limit .done ⟨w, Record.listNames limit⟩ events s := fun events s hcourse ↦
    naming_of_course (fun _ _ hc ↦ hc) (fun _ ↦ rfl) hkeyed hcourse
  have hbounded : ∀ events s, Course busy ⟨w, Record.listNames limit⟩ events s →
      (exchanges events).length ≤
        1 * ((Subject.records.names w).length + (Subject.records.additions events).length + 1) := by
    intro events s hcourse
    obtain ⟨-, hknown⟩ := known_of_course (q := .records) (writes_none _ (by decide)
      (asks_of_course (Record.within_listNames limit) hcourse).2) hcourse
    rw [← List.length_append, Nat.one_mul]
    cases hnaming events s hcourse with
    | listing hread hlisted =>
      rw [length_exchanges_eq (q := .records) hlisted.asked]
      exact hread.length_visits_le hknown
    | named hread hlisted hpast hfuture =>
      have hexchanges := hfuture.of_done.2
      rw [Subject.visits_append, Subject.visits_eq_nil hexchanges, List.append_nil] at hknown
      rw [exchanges_append, hexchanges, List.append_nil,
        length_exchanges_eq (q := .records) hlisted.asked]
      exact hread.length_visits_le hknown
  refine ⟨fun events s v hcourse hended ↦ ?_, fun events s _ ↦ ended_or_goes_on busy s, hbounded,
    fun scenes events hstart hstep hfair hfinite ↦
      exists_ended_of_bounded hbounded hstart hstep hfair hfinite⟩
  cases hnaming events s hcourse with
  | listing => cases hended
  | named hread hlisted hpast hfuture =>
    obtain ⟨hrest, hexchanges⟩ := hfuture.of_done
    rw [hrest] at hended
    cases hended
    refine ⟨_, rfl, ?_⟩
    rwa [Subject.visits_append, Subject.visits_eq_nil hexchanges, List.append_nil]

theorem enumerates_enqueueAll (queue : String) (limit : ℕ) (hlisted : Pass.Listed w.nodes) :
    Enumerates .nodes limit 3 ⟨w, Task.enqueueAll queue limit⟩ fun w' v parts ↦
      v = .ok () ∧ w'.queued queue = w.queued queue ++ texts parts := by
  have hbounded : ∀ events s, Course busy ⟨w, Task.enqueueAll queue limit⟩ events s →
      (exchanges events).length ≤
        3 * ((Subject.nodes.names w).length + (Subject.nodes.additions events).length + 1) := by
    intro events s hcourse
    obtain ⟨-, hknown⟩ := known_of_course (q := .nodes) (writes_none _ (by decide)
      (asks_of_course (Task.within_enqueueAll queue limit) hcourse).2) hcourse
    rw [← List.length_append]
    have hleft : ∀ {parts x}, Left queue limit (Subject.nodes.visits events) parts x →
        (Subject.nodes.visits events).length ≤
          (Subject.nodes.names w ++ Subject.nodes.additions events).length + 1 := by
      rintro parts x (⟨hread, -⟩ | hread)
      · exact hread.length_visits_le hknown
      · exact hread.length_visits_le hknown
    cases queueing_of_course hlisted hcourse with
    | ready hleft' _ _ hasked | pushing hleft' _ _ _ hasked | counting hleft' _ _ hasked =>
      have hvisits := hleft hleft'
      omega
  refine ⟨fun events s v hcourse hended ↦ ?_, fun events s _ ↦ ended_or_goes_on busy s, hbounded,
    fun scenes events hstart hstep hfair hfinite ↦
      exists_ended_of_bounded hbounded hstart hstep hfair hfinite⟩
  cases queueing_of_course hlisted hcourse with
  | pushing | counting => cases hended
  | ready hleft hqueue =>
    cases hleft with
    | more => cases hended
    | nothing hread =>
      cases hended
      exact ⟨_, ⟨rfl, hqueue⟩, hread⟩

/-- Whatever comes and goes meanwhile, listing the names of all records and queueing all nodes lose
nothing and repeat nothing, and they end. -/
theorem enumerations_lose_and_repeat_nothing (limit : ℕ) (queue : String) (hkeyed : Keyed w)
    (hlisted : Pass.Listed w.nodes) :
    (Enumerates .records limit 1 ⟨w, Record.listNames limit⟩ fun _ v parts ↦
      v = .ok parts.flatten) ∧
    Enumerates .nodes limit 3 ⟨w, Task.enqueueAll queue limit⟩ fun w' v parts ↦
      v = .ok () ∧ w'.queued queue = w.queued queue ++ texts parts :=
  ⟨enumerates_listNames limit hkeyed, enumerates_enqueueAll queue limit hlisted⟩

/-- A world with two nodes, and with a record of one of them. -/
def twoNodes : World where
  nodes := World.nodesOf [{ ownName := some "a" }, { ownName := some "b" }]
  store := Store.empty.put (.ofSpec { nodeName := "a" })

/-- Of the nodes "a" and "b" the first is listed and queued. Then the second leaves and a third
joins, and the third is queued after the first. -/
theorem node_that_joined_is_queued :
    ((Enumerates .records 0 1 ⟨twoNodes, Record.listNames 0⟩ fun _ v parts ↦
        v = .ok parts.flatten) ∧
      Enumerates .nodes 0 3 ⟨twoNodes, Task.enqueueAll "tasks" 0⟩ fun w v parts ↦
        v = .ok () ∧ w.queued "tasks" = twoNodes.queued "tasks" ++ texts parts) ∧
    ∃ events s, Course busy ⟨twoNodes, Task.enqueueAll "tasks" 0⟩ events s ∧
      (∃ v, s.rest.Ended v) ∧ Subject.nodes.visits events = [["a", "b"], ["a", "c"]] ∧
      s.world.queued "tasks" = texts [["a"], ["c"]] := by
  have hkeyed : Keyed twoNodes := .of_forall_mem (by decide +kernel)
  have hnamed : Pass.Named twoNodes.nodes := .of_forall_mem (by decide +kernel)
  have henumerates := enumerations_lose_and_repeat_nothing 0 "tasks" hkeyed hnamed.name
  refine ⟨henumerates, ?_⟩
  let fleet : Fleet.Call → Result Fleet.Response := fun _ ↦ .ok { code := 200 }
  have hfleet : ∀ call, busy.fleet call (fleet call) := fun _ ↦ trivial
  have hqueued := course_advance hfleet 3 ⟨twoNodes, Task.enqueueAll "tasks" 0⟩
  have hleft := hqueued.snoc (.other (c := .leave "b") trivial)
  have hjoined := hleft.snoc (.other (c := .join { ownName := some "c" }) trivial)
  have hcourse := hjoined.append (course_advance hfleet 3 _)
  exact ⟨_, _, hcourse, exists_ended_of_isLeft (by decide +kernel), by decide +kernel,
    by decide +kernel⟩

end NodeInventory.Tour
