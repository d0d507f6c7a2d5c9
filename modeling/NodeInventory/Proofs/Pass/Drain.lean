import Mathlib.Tactic.Abel
import NodeInventory.Proofs.Pass.Chores
import NodeInventory.Proofs.Pass.Enumeration
import NodeInventory.Proofs.Pass.Upkeep

/-!
# Working off the queue

Every name of a live node is *claimed* at most once: by a task that waits in the queue, or by a
worker that has taken such a task. So no two workers take care of one record, and what a worker can
rely on while it works off a batch (`Holds`) is left to it by all others. A name that is claimed no
more is one whose record is up to date. When the queue is empty and all workers wait, nothing is
claimed, and so all records are up to date (`inevitable_drain`).

The drain comes to its end because less and less is left to do (`crewLoad`): a task that waits is
worth more than one that is begun, and that is worth more than any number of items.
-/

namespace NodeInventory

open Simulation Relation

theorem Worker.isChange_of_step {queue : String} {worker worker' : Worker} {input : Worker.Input}
    {notes : List Request} (h : worker.step queue input = some (worker', notes)) :
    ∀ r ∈ notes, r.isChange = false := by
  unfold Worker.step at h
  split at h <;> cases h <;> simp [Request.isChange]

theorem Worker.eq_waiting_of_handled {queue : String} {worker worker' : Worker}
    {result : Result Unit} {notes : List Request}
    (h : worker.step queue (.handled result) = some (worker', notes)) : worker' = .waiting := by
  cases worker with
  | handling raw => cases result <;> cases h <;> rfl
  | waiting | resting | stopped => cases h

theorem Worker.exists_step_handled (queue raw : String) (result : Result Unit) :
    ∃ notes, (handling raw).step queue (.handled result) = some (waiting, notes) := by
  cases result with
  | ok _ => exact ⟨_, rfl⟩
  | error f => exact ⟨_, rfl⟩

theorem KeyStore.list_of_pop? {s s' : KeyStore} {name value : String}
    (h : s.pop? name = some (value, s')) : s.list name = value :: s'.list name := by
  unfold pop? at h
  split at h
  · cases h
  · next v vs hlist =>
    cases h
    rw [hlist]
    simp [list]

theorem KeyStore.exists_pop? {s : KeyStore} {name value : String} {values : List String}
    (h : s.list name = value :: values) : ∃ s', s.pop? name = some (value, s') := by
  rw [pop?, h]
  exact ⟨_, rfl⟩

namespace Pass

theorem still_noteAll (agent : ℕ) {notes : List Request} (h : ∀ r ∈ notes, r.isChange = false)
    (w : World) : Still w (Pool.noteAll agent notes w) := by
  induction notes generalizing w with
  | nil => exact .refl w
  | cons r rs ih =>
    have hhead := Still.note w agent (h r List.mem_cons_self)
    exact hhead.trans (ih (fun s hs ↦ h s (List.mem_cons_of_mem r hs)) _)

variable {d : Duties} {p : Scene → Prop} {quiet : Prop} {home w w' : World} {rest : List Stage}

/-- A node is live. -/
def Live (w : World) (n : String) : Prop := ∃ node, w.nodes.get? n = some node

/-- The record tells of the node of a name what the snapshot of the node tells. -/
def UpToDate (d : Duties) (w : World) (n : String) (s : Option Record) : Prop :=
  ∃ node spec, w.nodes.get? n = some node ∧
    Snapshot.build node w.pods d.tracked = .exact (.ok spec) ∧ Current spec s

/-- What can be said of a worker that has the names of its task to itself. -/
inductive Holds (d : Duties) (quiet : Prop) (home w : World) : Clerk → List String → Prop
  | idle : Holds d quiet home w {} []
  | begun {raw : String} {names : List String} {x : Program (Result Unit)}
      (hx : x = Task.dispatch d.handlers (Task.nodeBatch names).encode) :
    Holds d quiet home w ⟨.handling raw, some x⟩ names
  | busy {raw : String} {k : Int} {chores : List Chore} {names : List String}
      {next : List (Result Unit) → Program (Result Unit)}
      (hend : ∀ results, ∃ v, next results = .done v)
      (hchores : Promising quiet (UpToDate d home) w chores)
      (hnames : (chores.map (·.1)).Perm names) :
    Holds d quiet home w ⟨.handling raw, some (.batch k (chores.map (·.2)) next)⟩ names

/-- A worker, with the names that it has to itself. -/
abbrev Seat := List String × Clerk

/-- The names that are still to be worked off. -/
def claimed (batches : List (List String)) (seats : List Seat) : List String :=
  batches.flatten ++ seats.flatMap (·.1)

/-- The workers, with the names that each has to itself, and the batches that wait in the queue, on
the way from the world in which they set out. -/
structure Draining (d : Duties) (quiet : Prop) (home w : World) (batches : List (List String))
    (seats : List Seat) : Prop where
  tended : Tended quiet {n | Live home n} home w
  queued : w.queued d.queue = texts batches
  holds : ∀ q ∈ seats, Holds d quiet home w q.2 q.1
  nodup : (claimed batches seats).Nodup
  live : ∀ n ∈ claimed batches seats, Live home n
  done : ∀ n, Live home n → n ∉ claimed batches seats → UpToDate d home n (w.record? n)

theorem claimed_perm (batches : List (List String)) (before after : List Seat) (names : List String)
    (clerk : Clerk) :
    (claimed batches (before ++ (names, clerk) :: after)).Perm
      (names ++ claimed batches (before ++ after)) := by
  rw [List.perm_iff_count]
  intro n
  simp only [claimed, List.flatMap_append, List.flatMap_cons, List.count_append]
  omega

theorem Holds.tended {names : Set String} {held : List String} {clerk : Clerk}
    (h : Holds d quiet home w clerk held) (hw : Tended quiet names w w')
    (hnames : ∀ n ∈ held, n ∉ names) : Holds d quiet home w' clerk held := by
  cases h with
  | idle => exact .idle
  | begun hx => exact .begun hx
  | busy hend hchores hheld =>
    refine .busy hend (hchores.tended hw fun c hc ↦ hnames c.1 ?_) hheld
    exact hheld.mem_iff.mp (List.mem_map_of_mem hc)

namespace Draining

variable {batches : List (List String)} {before after : List Seat} {names : List String}
  {clerk clerk' : Clerk}

/-- What one worker does concerns the names that it has to itself. -/
theorem replace (h : Draining d quiet home w batches (before ++ (names, clerk) :: after))
    (hw : Tended quiet {n | n ∈ names} w w') (hqueued : w'.queued d.queue = w.queued d.queue)
    (hclerk : Holds d quiet home w' clerk' names) :
    Draining d quiet home w' batches (before ++ (names, clerk') :: after) := by
  have hperm := claimed_perm batches before after names
  have hclaimed : ∀ n, n ∈ claimed batches (before ++ (names, clerk') :: after) ↔
      n ∈ claimed batches (before ++ (names, clerk) :: after) := fun n ↦ by
    rw [(hperm clerk').mem_iff, (hperm clerk).mem_iff]
  have hnodup := (hperm clerk).nodup_iff.mp h.nodup
  have hlive : {n | n ∈ names} ⊆ {n | Live home n} := fun n hn ↦
    h.live n ((hperm clerk).mem_iff.mpr (List.mem_append_left _ hn))
  refine ⟨h.tended.trans (hw.mono hlive), hqueued.trans h.queued, fun q hq ↦ ?_,
    (hperm clerk').nodup_iff.mpr hnodup, fun n hn ↦ h.live n ((hclaimed n).mp hn),
    fun n hn hfree ↦ ?_⟩
  · rw [List.mem_append, List.mem_cons] at hq
    -- no name is claimed twice, so the other workers take care of other records
    have hother : q ∈ before ++ after → Holds d quiet home w' q.2 q.1 := fun hmem ↦ by
      refine (h.holds q ?_).tended hw fun n hn hown ↦ ?_
      · rcases List.mem_append.mp hmem with hmem | hmem <;> simp [hmem]
      · refine (List.nodup_append.mp hnodup).2.2 n hown n ?_ rfl
        exact List.mem_append_right _ (List.mem_flatMap.mpr ⟨q, hmem, hn⟩)
    rcases hq with hq | rfl | hq
    · exact hother (List.mem_append_left _ hq)
    · exact hclerk
    · exact hother (List.mem_append_right _ hq)
  · rw [hclaimed] at hfree
    rw [hw.others n fun hmem ↦ hfree ((hperm clerk).mem_iff.mpr (List.mem_append_left _ hmem))]
    exact h.done n hn hfree

theorem release (h : Draining d quiet home w batches (before ++ (names, clerk) :: after))
    (hnames : ∀ n ∈ names, UpToDate d home n (w.record? n)) :
    Draining d quiet home w batches (before ++ ([], {}) :: after) := by
  have hperm := claimed_perm batches before after names clerk
  have hfree := claimed_perm batches before after [] {}
  refine ⟨h.tended, h.queued, fun q hq ↦ ?_, ?_, fun n hn ↦ h.live n ?_, fun n hn hnot ↦ ?_⟩
  · rw [List.mem_append, List.mem_cons] at hq
    rcases hq with hq | rfl | hq
    · exact h.holds q (by simp [hq])
    · exact .idle
    · exact h.holds q (by simp [hq])
  · exact hfree.nodup_iff.mpr (List.nodup_append.mp (hperm.nodup_iff.mp h.nodup)).2.1
  · exact hperm.mem_iff.mpr (List.mem_append_right _ (hfree.mem_iff.mp hn))
  · -- a name that is claimed no more is one of those given up, or was not claimed before
    by_cases hmem : n ∈ names
    · exact hnames n hmem
    · refine h.done n hn fun hclaimed ↦ hnot ?_
      rcases List.mem_append.mp (hperm.mem_iff.mp hclaimed) with hown | hother
      · exact absurd hown hmem
      · exact hfree.mem_iff.mpr hother

/-- A worker that takes a task off the queue has the names of the task to itself. -/
theorem take (h : Draining d quiet home w (names :: batches) (before ++ ([], {}) :: after))
    {coordination : KeyStore} (hqueued : coordination.list d.queue = texts batches) :
    Draining d quiet home { w with coordination } batches
      (before ++ (names, ⟨.handling (Task.nodeBatch names).encode,
        some (Task.dispatch d.handlers (Task.nodeBatch names).encode)⟩) :: after) := by
  have hperm : (claimed (names :: batches) (before ++ ([], {}) :: after)).Perm
      (claimed batches (before ++ (names, ⟨.handling (Task.nodeBatch names).encode,
        some (Task.dispatch d.handlers (Task.nodeBatch names).encode)⟩) :: after)) := by
    rw [List.perm_iff_count]
    intro n
    simp only [claimed, List.flatten_cons, List.flatMap_append, List.flatMap_cons,
      List.count_append, List.count_nil]
    omega
  have hw : Tended quiet ∅ w { w with coordination } := .coordination w coordination
  refine ⟨h.tended.trans (hw.mono (Set.empty_subset _)), hqueued, fun q hq ↦ ?_,
    hperm.nodup_iff.mp h.nodup, fun n hn ↦ h.live n (hperm.mem_iff.mpr hn),
    fun n hn hfree ↦ h.done n hn fun hmem ↦ hfree (hperm.mem_iff.mp hmem)⟩
  rw [List.mem_append, List.mem_cons] at hq
  rcases hq with hq | rfl | hq
  · exact (h.holds q (by simp [hq])).tended hw fun _ _ hmem ↦ hmem
  · exact .begun rfl
  · exact (h.holds q (by simp [hq])).tended hw fun _ _ hmem ↦ hmem

theorem still {seats : List Seat} (h : Draining d quiet home w batches seats) (hw : Still w w') :
    Draining d quiet home w' batches seats := by
  refine ⟨h.tended.trans hw.tended, ?_, fun q hq ↦ ?_, h.nodup, h.live, fun n hn hfree ↦ ?_⟩
  · rw [World.queued, hw.coordination]
    exact h.queued
  · have htended : Tended quiet ∅ w w' := hw.tended
    exact (h.holds q hq).tended htended fun _ _ hmem ↦ hmem
  · rw [hw.record?]
    exact h.done n hn hfree

end Draining

/-- What a pass relies on: nodes are known by their names, every live node has a snapshot, and every
record is stored as it should be. -/
structure Fit (d : Duties) (w : World) : Prop where
  named : Named w.nodes
  snapshot : ∀ n node, w.nodes.get? n = some node →
    ∃ spec, Snapshot.build node w.pods d.tracked = .exact (.ok spec)
  proper : ∀ n, Proper n (w.record? n)

theorem Listed.map_name_filterMap (h : Listed w.nodes) {names : List String}
    (hlive : ∀ n ∈ names, Live w n) : (names.filterMap w.nodes.get?).map Node.name = names := by
  induction names with
  | nil => rfl
  | cons n names ih =>
    obtain ⟨node, hnode⟩ := hlive n List.mem_cons_self
    rw [List.filterMap_cons_some hnode, List.map_cons, h n node hnode,
      ih fun m hm ↦ hlive m (List.mem_cons_of_mem n hm)]

theorem Listed.missingNames_eq_nil (h : Listed w.nodes) {names : List String}
    (hlive : ∀ n ∈ names, Live w n) {nodes : List Node}
    (hnodes : nodes.Perm (names.filterMap w.nodes.get?)) : Node.missingNames names nodes = [] := by
  rw [List.eq_nil_iff_forall_not_mem]
  intro n hn
  obtain ⟨node, hnode⟩ := hlive n (Node.mem_missingNames.mp hn).1
  rw [h.eq_none_of_mem_missingNames hnodes hn] at hnode
  cases hnode

theorem build_podsOn (w : World) (node : Node) (tracked : List String) :
    Snapshot.build node (w.podsOn node.name) tracked = Snapshot.build node w.pods tracked := by
  unfold World.podsOn
  split
  · rfl
  · exact Snapshot.build_podsOf node w.pods tracked

section Chores

variable {nodes : List Node} (hfit : Fit d home)
  (hquiet : quiet → ∀ n, Live home n → UpToDate d home n (home.record? n))
  (hhome : Tended quiet {n | Live home n} home w)

/-- The items of a batch, with the names of their nodes. -/
def refreshes (d : Duties) (nodes : List Node) : List Chore :=
  nodes.map fun node ↦ (node.name, d.refresh node)

theorem map_snd_refreshes (d : Duties) (nodes : List Node) :
    (refreshes d nodes).map (·.2) = nodes.map d.refresh := by
  rw [refreshes, List.map_map]
  rfl

include hfit hquiet hhome

theorem promising_refreshes (hnodes : ∀ node ∈ nodes, home.nodes.get? node.name = some node) :
    Promising quiet (UpToDate d home) w (refreshes d nodes) := by
  intro c hc
  obtain ⟨node, hmem, rfl⟩ := List.mem_map.mp hc
  have hnode := hnodes node hmem
  obtain ⟨spec, hspec⟩ := hfit.snapshot node.name node hnode
  have hbuild : Snapshot.build node (w.podsOn node.name) d.tracked = .exact (.ok spec) := by
    rw [build_podsOn, hhome.pods, hspec]
  have hproper := hhome.proper node.name (hfit.proper node.name)
  refine (meets_refresh d hbuild hproper fun hq ↦ ?_).imp fun t _ ht ↦ ?_
  · obtain ⟨node', spec', hnode', hspec', hcurrent⟩ := hquiet hq node.name ⟨node, hnode⟩
    rw [hnode] at hnode'
    cases hnode'
    rw [hspec] at hspec'
    cases hspec'
    rw [hhome.records hq]
    exact hcurrent
  · exact ⟨node, spec, hnode, hspec, ht⟩

variable {names : List String} {agent : ℕ} {r : Request} {a : r.Answer} {y : Program (Result Unit)}

/-- A task that is begun asks for its nodes, and goes on with a batch of which every item refreshes
one of them. -/
theorem exists_chores (hlive : ∀ n ∈ names, Live home n)
    (hx : (Task.dispatch d.handlers (Task.nodeBatch names).encode).Step r a y)
    (hw : Gives agent w r a w') :
    Still w w' ∧ ∃ k chores next, y = .batch k (List.map (·.2) chores) next ∧
      (∀ results, ∃ v, next results = .done v) ∧
      Promising quiet (UpToDate d home) w' chores ∧ (chores.map (·.1)).Perm names := by
  rw [Task.dispatch, Task.decode_encode] at hx
  cases hx with
  | ask =>
    obtain ⟨nodes, rfl, hnodes, rfl⟩ := hw.of_findNodes
    rw [hhome.nodes] at hnodes
    have hstill : Still w (w.note agent (.findNodes names)) := .note w agent rfl
    refine ⟨hstill, d.parallelism, refreshes d nodes, ?next, ?hy, ?hend,
      promising_refreshes hfit hquiet (hhome.trans hstill.tended) fun node hmem ↦ ?_, ?_⟩
    case hy =>
      rw [map_snd_refreshes]
      exact rfl
    case hend =>
      -- every name is that of a live node, so there are no records to remove
      intro results
      dsimp only
      rw [Listed.missingNames_eq_nil hfit.named.name hlive hnodes]
      exact ⟨_, rfl⟩
    · obtain ⟨n, -, hn⟩ := List.mem_filterMap.mp (hnodes.mem_iff.mp hmem)
      rw [hfit.named.name n node hn]
      exact hn
    · rw [refreshes, List.map_map]
      have hperm := hnodes.map Node.name
      rw [Listed.map_name_filterMap hfit.named.name hlive] at hperm
      exact hperm

end Chores

variable {names : List String} {agent : ℕ} {r : Request} {a : r.Answer} {y : Program (Result Unit)}

/-! ## Steps -/

/-- What is left of the task of a worker. -/
def clerkLoad (clerk : Clerk) : Multiset Load :=
  match clerk.work with
  | none => 0
  | some (.batch _ items _) => {.underWay} + (items.map itemLoad).sum
  | some _ => {.begun}

/-- What is left of the tasks in the queue and of those that workers have taken. -/
def crewLoad (batches : List (List String)) (seats : List Seat) : Multiset Load :=
  Multiset.replicate batches.length .queued + (seats.map fun q ↦ clerkLoad q.2).sum

theorem cutExpand_crewLoad {clerk clerk' : Clerk} (batches : List (List String))
    (before after : List Seat) (names names' : List String)
    (h : CutExpand Load.Less (clerkLoad clerk') (clerkLoad clerk)) :
    CutExpand Load.Less (crewLoad batches (before ++ (names', clerk') :: after))
      (crewLoad batches (before ++ (names, clerk) :: after)) :=
  (cutExpand_add_left _).mpr (cutExpand_sum (f := fun q : Seat ↦ clerkLoad q.2)
    (x := (names, clerk)) (y := (names', clerk')) h before after)

theorem clerkLoad_dispatch {worker : Worker} {x : Program (Result Unit)}
    (hx : x = Task.dispatch d.handlers (Task.nodeBatch names).encode) :
    clerkLoad ⟨worker, some x⟩ = {.begun} := by
  rw [hx, clerkLoad, Task.dispatch, Task.decode_encode]
  rfl

theorem exists_item_of_mem_sum {items : List (Action (Result Unit))} {l : Load}
    (h : l ∈ (items.map itemLoad).sum) : ∃ x, l = .item x := by
  induction items with
  | nil => cases h
  | cons x items ih =>
    rw [List.map_cons, List.sum_cons, Multiset.mem_add] at h
    rcases h with h | h
    · cases x with
      | done => cases h
      | ask r go => exact ⟨_, Multiset.mem_singleton.mp h⟩
    · exact ih h

section Steps

variable {worker : Worker} {x : Program (Result Unit)} (hfit : Fit d home)
  (hquiet : quiet → ∀ n, Live home n → UpToDate d home n (home.record? n))

include hfit hquiet

/-- A worker that goes on takes care of the records of its names, and comes closer to the end. -/
theorem Holds.step (h : Holds d quiet home w ⟨worker, some x⟩ names)
    (hhome : Tended quiet {n | Live home n} home w) (hlive : ∀ n ∈ names, Live home n)
    (hnodup : names.Nodup) (hx : x.Step r a y) (hw : Gives agent w r a w') :
    Holds d quiet home w' ⟨worker, some y⟩ names ∧ Tended quiet {n | n ∈ names} w w' ∧
      w'.coordination = w.coordination ∧
        CutExpand Load.Less (clerkLoad ⟨worker, some y⟩) (clerkLoad ⟨worker, some x⟩) := by
  cases h with
  | begun hdispatch =>
    rw [hdispatch] at hx
    obtain ⟨hstill, k, chores, next, rfl, hend, hchores, hnames⟩ :=
      exists_chores hfit hquiet hhome hlive hx hw
    refine ⟨.busy hend hchores hnames, hstill.tended, hstill.coordination, ?_⟩
    rw [clerkLoad_dispatch hdispatch]
    -- the task makes way for a batch and its items, each of which is less than the task
    refine cutExpand_singleton fun l hl ↦ ?_
    rcases Multiset.mem_add.mp hl with hl | hl
    · rw [Multiset.mem_singleton.mp hl]
      exact .started
    · obtain ⟨x, rfl⟩ := exists_item_of_mem_sum hl
      exact .item x
  | @busy raw k chores _ next hend hchores hnames =>
    obtain ⟨xs, go, ys, hitems, rfl⟩ := Program.exists_item_of_step hend hx
    obtain ⟨before, n, after, rfl, rfl, rfl⟩ := exists_of_map_snd_eq hitems
    obtain ⟨hchores', htended, hcoordination⟩ := hchores.step (hnames.nodup_iff.mpr hnodup) hw
    have hmap : (before ++ (n, go a) :: after).map (·.2) =
        before.map (·.2) ++ go a :: after.map (·.2) := by simp
    have hn : ({n} : Set String) ⊆ {m | m ∈ names} := by
      rintro m rfl
      exact hnames.mem_iff.mp (by simp)
    refine ⟨?_, htended.mono hn, hcoordination, ?_⟩
    · rw [← hmap]
      exact .busy hend hchores' (by simpa using hnames)
    · rw [hitems]
      exact (cutExpand_add_left _).mpr (cutExpand_sum (cutExpand_itemLoad go a) _ _)

end Steps

theorem cutExpand_of_ended {worker : Worker} {x : Program (Result Unit)} {result : Result Unit}
    (hx : x.Ended result) : CutExpand Load.Less (clerkLoad {}) (clerkLoad ⟨worker, some x⟩) := by
  cases hx with
  | done => exact cutExpand_zero
  | @joined _ _ results =>
    have hload : ((results.map Action.done).map itemLoad).sum = 0 := by
      refine List.sum_eq_zero fun l hl ↦ ?_
      rw [List.map_map] at hl
      obtain ⟨_, -, rfl⟩ := List.mem_map.mp hl
      rfl
    simp only [clerkLoad, hload, add_zero]
    exact cutExpand_zero

/-- A worker that is done with its task has brought the records of its names up to date. -/
theorem Holds.finish {worker : Worker} {x : Program (Result Unit)} {result : Result Unit}
    (h : Holds d quiet home w ⟨worker, some x⟩ names) (hx : x.Ended result) :
    (∀ n ∈ names, UpToDate d home n (w.record? n)) ∧
      CutExpand Load.Less (clerkLoad {}) (clerkLoad ⟨worker, some x⟩) := by
  cases h with
  | begun hdispatch =>
    rw [hdispatch, Task.dispatch, Task.decode_encode] at hx
    cases hx
  | busy hend hchores hnames =>
    obtain ⟨results, hdone⟩ := Program.exists_results_of_ended hx
    refine ⟨fun n hn ↦ ?_, cutExpand_of_ended hx⟩
    obtain ⟨c, hc, rfl⟩ := List.mem_map.mp (hnames.mem_iff.mpr hn)
    exact hchores.goal_of_done hdone c hc

/-- What a step of the drain leads to: a drain in which less is left to do, or the end of the drain,
with all records up to date. -/
theorem Draining.step {batches : List (List String)} {seats : List Seat} {clerks : List Clerk}
    {t : Scene} (hfit : Fit d home)
    (hquiet : quiet → ∀ n, Live home n → UpToDate d home n (home.record? n))
    (h : Draining d quiet home w batches seats) (hclerks : seats.map (·.2) = clerks)
    (hstep : Step d ⟨w, .drain clerks :: rest⟩ t) :
    (∃ w' batches' seats', t = ⟨w', .drain (seats'.map (·.2)) :: rest⟩ ∧ seats' ≠ [] ∧
      Draining d quiet home w' batches' seats' ∧
        CutExpand Load.Less (crewLoad batches' seats') (crewLoad batches seats)) ∨
      (t = ⟨w, rest⟩ ∧ w.queued d.queue = [] ∧
        ∀ n, Live home n → UpToDate d home n (w.record? n)) := by
  cases hstep with
  | @took _ coordination raw _ _ clerk worker notes _ hpop hworker =>
    obtain ⟨before, names, after, rfl, rfl, rfl⟩ := exists_of_map_snd_eq hclerks
    have hlist := h.queued.symm.trans (KeyStore.list_of_pop? hpop)
    obtain ⟨b, batches, rfl, rfl, hrest⟩ := List.map_eq_cons_iff.mp hlist
    have hholds : Holds d quiet home w clerk names := h.holds (names, clerk) (by simp)
    -- only a worker that waits takes a task
    cases hholds with
    | begun | busy => cases hworker
    | idle =>
      cases hworker
      refine .inl ⟨_, batches, _, ?_, ?_, h.take hrest.symm, ?_⟩
      · simp [Pool.noteAll]
      · simp
      · refine ⟨{.begun}, .queued, fun l hl ↦ ?_, ?_⟩
        · rw [Multiset.mem_singleton.mp hl]
          exact .begun
        · simp only [crewLoad, List.length_cons, Multiset.replicate_succ, List.map_append,
            List.map_cons, List.sum_append, List.sum_cons, clerkLoad_dispatch rfl,
            ← Multiset.singleton_add]
          have hidle : clerkLoad {} = 0 := rfl
          rw [hidle]
          abel
  | @worked _ w' x y r a _ _ worker _ hx hw =>
    obtain ⟨before, names, after, rfl, hbefore, rfl⟩ := exists_of_map_snd_eq hclerks
    have hholds : Holds d quiet home w ⟨worker, some x⟩ names :=
      h.holds (names, ⟨worker, some x⟩) (by simp)
    have hperm := claimed_perm batches before after names ⟨worker, some x⟩
    have hlive : ∀ n ∈ names, Live home n := fun n hn ↦
      h.live n (hperm.mem_iff.mpr (List.mem_append_left _ hn))
    have hnodup : names.Nodup := (List.nodup_append.mp (hperm.nodup_iff.mp h.nodup)).1
    obtain ⟨hholds', htended, hcoordination, hless⟩ :=
      hholds.step hfit hquiet h.tended hlive hnodup hx hw
    have hqueued : w'.queued d.queue = w.queued d.queue := by
      rw [World.queued, hcoordination]
      rfl
    refine .inl ⟨w', batches, before ++ (names, ⟨worker, some y⟩) :: after, ?_, ?_,
      h.replace htended hqueued hholds', cutExpand_crewLoad batches before after names names hless⟩
    · simp [hbefore]
    · simp
  | @finished _ x result _ _ worker worker' notes _ hx hworker =>
    obtain ⟨before, names, after, rfl, hbefore, rfl⟩ := exists_of_map_snd_eq hclerks
    have hholds : Holds d quiet home w ⟨worker, some x⟩ names :=
      h.holds (names, ⟨worker, some x⟩) (by simp)
    obtain ⟨hnames, hless⟩ := hholds.finish hx
    have hstill := still_noteAll before.length (Worker.isChange_of_step hworker) w
    have hwaiting : worker' = .waiting := Worker.eq_waiting_of_handled hworker
    refine .inl ⟨_, batches, before ++ ([], {}) :: after, ?_, ?_, (h.release hnames).still hstill,
      cutExpand_crewLoad batches before after names [] hless⟩
    · simp [← hbefore, hwaiting]
    · simp
  | drained hqueue hidle =>
    -- nothing is claimed any more, so every record is up to date
    have hbatches : batches = [] := by
      rw [h.queued, texts, List.map_eq_nil_iff] at hqueue
      exact hqueue
    refine .inr ⟨rfl, hqueue, fun n hn ↦ h.done n hn fun hmem ↦ ?_⟩
    rw [claimed, hbatches, List.flatten_nil, List.nil_append, List.mem_flatMap] at hmem
    obtain ⟨q, hq, hn⟩ := hmem
    have hholds := h.holds q hq
    rw [hidle q.2 (hclerks ▸ List.mem_map_of_mem hq)] at hholds
    generalize q.1 = names at hholds hn
    cases hholds
    cases hn

theorem Holds.exists_work {clerk : Clerk} (h : Holds d quiet home w clerk names)
    (hbusy : clerk ≠ {}) : ∃ raw x, clerk = ⟨.handling raw, some x⟩ := by
  cases h with
  | idle => exact absurd rfl hbusy
  | begun => exact ⟨_, _, rfl⟩
  | busy => exact ⟨_, _, rfl⟩

/-- A drain does not get stuck: a worker that has a task goes on with it, and one that has none
takes one, if there is one. -/
theorem exists_step_of_clerks {clerks : List Clerk} (hsome : clerks ≠ [])
    (hclerks : ∀ clerk ∈ clerks, clerk = {} ∨ ∃ raw x, clerk = ⟨.handling raw, some x⟩) :
    ∃ t, Step d ⟨w, .drain clerks :: rest⟩ t := by
  by_cases hidle : ∀ clerk ∈ clerks, clerk = {}
  · cases hqueued : w.queued d.queue with
    | nil => exact ⟨_, .drained hqueued hidle⟩
    | cons raw raws =>
      obtain ⟨clerk, after, rfl⟩ := List.exists_cons_of_ne_nil hsome
      obtain ⟨coordination, hpop⟩ := KeyStore.exists_pop? hqueued
      have hworker : clerk.worker.step d.queue (.popped raw) = some (.handling raw, []) := by
        rw [hidle clerk List.mem_cons_self]
        rfl
      have hstep := @Step.took d w coordination raw [] after clerk _ _ rest hpop hworker
      exact ⟨_, hstep⟩
  · simp only [not_forall] at hidle
    obtain ⟨clerk, hclerk, hbusy⟩ := hidle
    obtain ⟨raw, x, rfl⟩ := (hclerks clerk hclerk).resolve_left hbusy
    obtain ⟨before, after, rfl⟩ := List.append_of_mem hclerk
    obtain ⟨result, hended⟩ | ⟨r, hasks⟩ := Program.ended_or_asks x
    · obtain ⟨notes, hworker⟩ := Worker.exists_step_handled d.queue raw result
      exact ⟨_, .finished hended hworker⟩
    · obtain ⟨y, hy⟩ := hasks _
      exact ⟨_, .worked hy (.answered r)⟩

theorem Draining.exists_step {batches : List (List String)} {seats : List Seat}
    (h : Draining d quiet home w batches seats) (hseats : seats ≠ []) :
    ∃ t, Step d ⟨w, .drain (seats.map (·.2)) :: rest⟩ t := by
  refine exists_step_of_clerks (by simpa using hseats) fun clerk hclerk ↦ ?_
  obtain ⟨q, hq, rfl⟩ := List.mem_map.mp hclerk
  by_cases hidle : q.2 = {}
  · exact .inl hidle
  · exact .inr ((h.holds q hq).exists_work hidle)

/-- Working off the queue brings the records of all nodes up to date, whoever takes which task and
whoever goes on. -/
theorem inevitable_drain {batches : List (List String)} {seats : List Seat} (hfit : Fit d home)
    (hquiet : quiet → ∀ n, Live home n → UpToDate d home n (home.record? n))
    (h : Draining d quiet home w batches seats) (hseats : seats ≠ [])
    (hp : ∀ w', Tended quiet {n | Live home n} home w' → w'.queued d.queue = [] →
      (∀ n, Live home n → UpToDate d home n (w'.record? n)) →
        Inevitable (Step d) p ⟨w', rest⟩) :
    Inevitable (Step d) p ⟨w, .drain (seats.map (·.2)) :: rest⟩ := by
  obtain ⟨load, hload⟩ : ∃ load, load = crewLoad batches seats := ⟨_, rfl⟩
  induction load using Load.wellFounded_less.cutExpand.induction generalizing w batches seats with
  | _ load ih =>
    refine .later (h.exists_step hseats) fun t ht ↦ ?_
    obtain ⟨w', batches', seats', rfl, hseats', h', hless⟩ | ⟨rfl, hqueued, hdone⟩ :=
      h.step hfit hquiet rfl ht
    · exact ih _ (hload ▸ hless) h' hseats' rfl
    · exact hp w h.tended hqueued hdone

end Pass

end NodeInventory
