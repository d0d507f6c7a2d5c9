import NodeInventory.Proofs.Mirror.Crew
import NodeInventory.Proofs.Pass.Convergence

/-!
# What a pass repairs of the registry

A pass queues all nodes, works off the queue, sweeps the records without a node, and asks the
registry about the nodes of all records. Calls of the registry failed before it; in the pass they
succeed.

Whatever the registry knew before, working off the queue and the sweep change what it knows of a
name only when they change the record of the name, and then it knows of the change
(`View.Mended`). After that the heartbeats let it know of all records of which it knows nothing
(`View.heard`). So after the pass the registry knows of a name what its record says, unless the pass
has left the record as it was and the registry had known something else of the name before
(`pass_repairs_unless_overlooked`).

Of the calls that failed before the pass, those that add a node are made up for. A node that could
not be updated is overlooked if its record needs no further writing, and one that could not be
deleted is overlooked because its record is gone: nothing asks what the registry knows of them.
-/

namespace NodeInventory

open Simulation

theorem Node.missingNames_perm {names : List String} {nodes nodes' : List Node}
    (h : nodes.Perm nodes') : missingNames names nodes = missingNames names nodes' := by
  refine List.filter_congr fun n _ ↦ ?_
  rw [h.any_eq]

namespace Mirror

open Pass

variable {d : Duties} {p : Scene → Prop} {w w' : World} {g : Registry} {rest : List Stage}
  {n : String} {s t : View}

/-- What a pass relies on: nodes and records are listed under their names, and nothing is queued. -/
structure Orderly (d : Duties) (w : World) : Prop where
  listed : Listed w.nodes
  proper : ∀ n, Proper n (w.record? n)
  queue : w.queued d.queue = []

/-- The stages of a pass that ends with heartbeats. -/
def stages (d : Duties) (workers : ℕ) : List Stage :=
  [.job (Job.sync.program d), .drain (List.replicate workers {}), .job (Job.collection.program d),
    .job (Job.heartbeat.program d)]

/-! ## Listing -/

/-- Queueing the nodes leaves the registry as it is. -/
theorem inevitable_sync (h : Orderly d w)
    (hp : ∀ w' batches, Tended True ∅ w w' → w'.queued d.queue = texts batches →
      batches.flatten = w.nodes.keys → Inevitable (Step d False) p ⟨w', g, rest⟩) :
    Inevitable (Step d False) p ⟨w, g, .job (Job.sync.program d) :: rest⟩ := by
  let queuedAll (u : Pass.Scene) : Prop := ∃ w' batches, u = ⟨w', rest⟩ ∧ Tended True ∅ w w' ∧
    w'.queued d.queue = texts batches ∧ batches.flatten = w.nodes.keys
  have hpass : Inevitable (Pass.Step d) queuedAll ⟨w, .job (Job.sync.program d) :: rest⟩ :=
    inevitable_enqueueAll h.listed h.queue fun w' batches hw' hqueued hnames ↦
      .now ⟨w', batches, rfl, hw', hqueued, hnames⟩
  have hchanges : ∀ u, queuedAll u → u.world.changes = w.changes := by
    rintro u ⟨w', batches, rfl, hw', -⟩
    exact hw'.changes trivial
  refine (inevitable_unchanged hpass hchanges).bind ?_
  rintro ⟨w', g', stages'⟩ ⟨⟨_, batches, hscene, hw', hqueued, hnames⟩, rfl⟩
  cases hscene
  exact hp w' batches hw' hqueued hnames

/-- Listing the names of all records leaves the registry as it is. -/
theorem inevitable_listing {pageSize : ℕ} {f : Result (List String) → Program (Result Unit)}
    (hproper : ∀ n, Proper n (w.record? n))
    (hp : ∀ w', Still w w' → Inevitable (Step d False) p
      ⟨w', g, .job (f (.ok w.store.records.keys)) :: rest⟩) :
    Inevitable (Step d False) p ⟨w, g, .job (Record.listNames pageSize >>= f) :: rest⟩ := by
  let listedAll (u : Pass.Scene) : Prop :=
    ∃ w', u = ⟨w', .job (f (.ok w.store.records.keys)) :: rest⟩ ∧ Still w w'
  have hpass : Inevitable (Pass.Step d) listedAll
      ⟨w, .job (Record.listNames pageSize >>= f) :: rest⟩ :=
    inevitable_listNames hproper fun w' hw' ↦ .now ⟨w', rfl, hw'⟩
  have hchanges : ∀ u, listedAll u → u.world.changes = w.changes := by
    rintro u ⟨w', rfl, hw'⟩
    exact hw'.changes
  refine (inevitable_unchanged hpass hchanges).bind ?_
  rintro ⟨w', g', stages'⟩ ⟨⟨_, hscene, hw'⟩, rfl⟩
  cases hscene
  exact hp w' hw'

/-! ## The stages -/

theorem mem_keys_iff_record : n ∈ w.store.records.keys ↔ ∃ x, w.record? n = some x :=
  Dict.mem_keys_iff

/-- The record of a name needs nothing to be done: it is in line with the snapshot of the node, if
there is one, and there is no record if there is no node. -/
@[mk_iff] structure InOrder (d : Duties) (w : World) (n : String) : Prop where
  live : ∀ node spec, w.nodes.get? n = some node →
    Snapshot.build node w.pods d.tracked = .exact (.ok spec) → Current spec (w.record? n)
  gone : w.nodes.get? n = none → w.record? n = none

theorem InOrder.congr (hnodes : w'.nodes = w.nodes) (hpods : w'.pods = w.pods)
    (hrecord : w'.record? n = w.record? n) : InOrder d w' n ↔ InOrder d w n := by
  rw [inOrder_iff, inOrder_iff, hnodes, hpods, hrecord]

/-- The view of a name is mended, and the record left just if it needs nothing to be done. -/
def Refreshed (d : Duties) (w : World) (g : Registry) (n : String) (t : View) : Prop :=
  (view w g n).Mended t ∧ (t.record = w.record? n ↔ InOrder d w n)

/-- A task with names of live nodes refreshes these names. -/
theorem serves_dispatch {names : List String} (hlisted : Listed w.nodes)
    (hproper : ∀ n, Proper n (w.record? n)) (hlive : ∀ n ∈ names, Live w n) :
    Serves (Refreshed d w g) w (view w g)
      (Task.dispatch d.handlers (Task.nodeBatch names).encode) names := by
  rw [Task.dispatch, Task.decode_encode]
  refine .ask fun nodes hnodes ↦
    ⟨d.parallelism, refreshes d nodes, ?next, ?hy, ?hend, fun c hc ↦ ?_, ?_⟩
  case hy =>
    rw [map_snd_refreshes]
    exact rfl
  case hend =>
    intro results
    dsimp only
    rw [hlisted.missingNames_eq_nil hlive hnodes]
    exact ⟨_, rfl⟩
  · obtain ⟨node, hmem, rfl⟩ := List.mem_map.mp hc
    obtain ⟨n, -, hn⟩ := List.mem_filterMap.mp (hnodes.mem_iff.mp hmem)
    obtain rfl : node.name = n := hlisted n node hn
    refine (meets_refresh d rfl (hproper node.name)).imp ?_
    rintro t _ ⟨hmended, hcurrent⟩
    refine ⟨hmended, hcurrent.trans ⟨fun h ↦ ⟨fun node' spec hnode' hspec ↦ ?_, fun hnone ↦ ?_⟩,
      fun h spec hspec ↦ ?_⟩⟩
    · rw [hn] at hnode'
      cases hnode'
      rw [← build_podsOn] at hspec
      exact h spec hspec
    · rw [hn] at hnone
      cases hnone
    · rw [build_podsOn] at hspec
      exact h.live node spec hn hspec
  · rw [refreshes, List.map_map, ← hlisted.map_name_filterMap hlive]
    exact hnodes.map Node.name

/-- Working off a queue with the names of all nodes refreshes these names, and leaves the views of
all others. -/
theorem inevitable_crew {batches : List (List String)} {workers : ℕ} (hworkers : 0 < workers)
    (hlisted : Listed w.nodes) (hproper : ∀ n, Proper n (w.record? n))
    (hqueued : w.queued d.queue = texts batches) (hnames : batches.flatten = w.nodes.keys)
    (hp : ∀ w' g', Tended False Set.univ w w' →
      (∀ n, ¬Live w n → view w' g' n = view w g n) →
      (∀ n, Live w n → Refreshed d w g n (view w' g' n)) →
      Inevitable (Step d False) p ⟨w', g', rest⟩) :
    Inevitable (Step d False) p ⟨w, g, .drain (List.replicate workers {}) :: rest⟩ := by
  have hlive : ∀ n, n ∈ w.nodes.keys ↔ Live w n := fun n ↦ Dict.mem_keys_iff
  have hunderway : Underway d (Refreshed d w g) w (view w g) w.nodes.keys w g
      (.drain (List.replicate workers {})) := by
    refine ⟨⟨?_, fun clerk hclerk ↦ .inl (List.eq_of_mem_replicate hclerk)⟩, .refl w,
      fun _ _ ↦ rfl, batches.map fun names ↦
        (Task.dispatch d.handlers (Task.nodeBatch names).encode, names), [], ?_, ?_, ?_, ?_⟩
    · rw [Ne, List.replicate_eq_nil_iff]
      omega
    · simp only [programs, hqueued, texts, List.filterMap_replicate, List.nil_append, List.map_map,
        Function.comp_def]
      exact .refl _
    · rw [← hnames, List.nil_append, List.flatMap_map, List.flatMap_id']
    · intro q hq
      obtain ⟨names, hmem, rfl⟩ := List.mem_map.mp hq
      have hlive' : ∀ n ∈ names, Live w n := fun n hn ↦ by
        rw [← hlive, ← hnames]
        exact List.mem_flatten_of_mem hmem hn
      dsimp only
      exact serves_dispatch hlisted hproper hlive'
    · exact fun n hn ↦ by cases hn
  refine inevitable_stage hunderway w.nodes.nodup_keys fun w' g' hw' hothers hgoal ↦ ?_
  exact hp w' g' hw' (fun n hn ↦ hothers n (mt (hlive n).mp hn))
    fun n hn ↦ hgoal n ((hlive n).mpr hn)

/-- The names of records without a node. -/
def orphans (w : World) : List String :=
  Node.missingNames w.store.records.keys (w.store.records.keys.filterMap w.nodes.get?)

theorem exists_record_of_mem_orphans (hn : n ∈ orphans w) : ∃ x, w.record? n = some x :=
  Dict.mem_keys_iff.mp (Node.mem_missingNames.mp hn).1

/-- A sweep mends the views of names without a node, and leaves those of live nodes and of names
without a record. -/
theorem inevitable_sweep (hlisted : Listed w.nodes) (hproper : ∀ n, Proper n (w.record? n))
    (hp : ∀ w' g', Tended False Set.univ w w' →
      (∀ n, Live w n ∨ w.record? n = none → view w' g' n = view w g n) →
      (∀ n, (view w g n).Mended (view w' g' n)) → Inevitable (Step d False) p ⟨w', g', rest⟩) :
    Inevitable (Step d False) p ⟨w, g, .job (Job.collection.program d) :: rest⟩ := by
  refine inevitable_listing hproper fun v hv ↦ ?_
  have hview : ∀ n, view v g n = view w g n := fun n ↦ by rw [view, view, hv.record?]
  have hnodup : (orphans w).Nodup := w.store.records.nodup_keys.filter _
  refine inevitable_job (fun _ t ↦ t = ⟨none, none⟩) (orphans w) hnodup ?_
    fun w' g' hw' hothers hgoal ↦ ?_
  · have hdelete : ∀ n ∈ orphans w, (Record.deleteOrphan d.clusterId n).Meets
        (watch (v.podsOn n) n) (fun t _ ↦ t = ⟨none, none⟩) (view v g n) := fun n hn ↦ by
      obtain ⟨x, hx⟩ := exists_record_of_mem_orphans hn
      rw [hview]
      exact meets_deleteOrphan hx
    rw [orphans] at hdelete ⊢
    cases hkeys : w.store.records.keys with
    | nil => exact .done fun n hn ↦ by cases hn
    | cons name names =>
      rw [hkeys] at hdelete
      refine .ask fun nodes hnodes ↦ ?_
      rw [hv.nodes] at hnodes
      rw [← Node.missingNames_perm hnodes] at hdelete ⊢
      exact parcels_joined d.parallelism hdelete
  · simp only [hview] at hothers
    refine hp w' g' (hv.tended.trans hw') (fun n hkept ↦ hothers n fun hn ↦ ?_) fun n ↦ ?_
    · obtain ⟨node, hnode⟩ | hnone := hkept
      · rw [hlisted.eq_none_of_mem_missingNames (.refl _) hn] at hnode
        cases hnode
      · obtain ⟨x, hx⟩ := exists_record_of_mem_orphans hn
        rw [hnone] at hx
        cases hx
    by_cases hn : n ∈ orphans w
    · obtain ⟨x, hx⟩ := exists_record_of_mem_orphans hn
      rw [hgoal n hn]
      refine .inr ⟨rfl, fun h ↦ ?_⟩
      rw [view, hx] at h
      cases h
    · exact .inl (hothers n hn)

/-- The view after heartbeats: of a record of whose node it knew nothing, the registry knows. -/
def View.heard (s : View) : View where
  record := s.record
  standing := match s.record with
    | none => s.standing
    | some x => some (s.standing.getD x.standing)

/-- Heartbeats leave all records, and let the registry know of those of which it knows nothing. -/
theorem inevitable_beat (hproper : ∀ n, Proper n (w.record? n))
    (hp : ∀ w' g', Tended False Set.univ w w' → (∀ n, view w' g' n = (view w g n).heard) →
      Inevitable (Step d False) p ⟨w', g', rest⟩) :
    Inevitable (Step d False) p ⟨w, g, .job (Job.heartbeat.program d) :: rest⟩ := by
  refine inevitable_listing hproper fun v hv ↦ ?_
  have hview : ∀ n, view v g n = view w g n := fun n ↦ by rw [view, view, hv.record?]
  refine inevitable_job (fun n t ↦ t = (view w g n).heard) w.store.records.keys
    w.store.records.nodup_keys (.batch (parcels_joined d.parallelism fun n hn ↦ ?_))
    fun w' g' hw' hothers hgoal ↦ hp w' g' (hv.tended.trans hw') fun n ↦ ?_
  · obtain ⟨x, hx⟩ := mem_keys_iff_record.mp hn
    rw [hview]
    refine (meets_heartbeat (hproper n x hx).2.1 hx).imp fun t _ ht ↦ ?_
    rw [ht, View.heard, view, hx]
  · by_cases hn : n ∈ w.store.records.keys
    · exact hgoal n hn
    · have hnone : w.record? n = none := by
        rw [Option.eq_none_iff_forall_ne_some]
        exact fun x hx ↦ hn (mem_keys_iff_record.mpr ⟨x, hx⟩)
      rw [hothers n hn, hview, View.heard, view, hnone]

/-! ## The pass -/

/-- A pass mends the views of all names; of names that have a node or no record, it leaves the
record just if it needs nothing to be done. Then the registry is let know of the records of which it
knows nothing. -/
theorem inevitable_pass {workers : ℕ} (h : Orderly d w) (hworkers : 0 < workers) :
    Inevitable (Step d False) (fun s ↦ s.stages = [] ∧ Tended False Set.univ w s.world ∧
      ∀ n, ∃ t, (view w g n).Mended t ∧
        (Live w n ∨ w.record? n = none → (t.record = w.record? n ↔ InOrder d w n)) ∧
        view s.world s.registry n = t.heard) ⟨w, g, stages d workers⟩ := by
  refine inevitable_sync h fun w₁ batches hw₁ hqueued hnames ↦ ?_
  have hlisted₁ : Listed w₁.nodes := hw₁.nodes ▸ h.listed
  have hproper₁ := fun n ↦ hw₁.proper n (h.proper n)
  rw [← hw₁.nodes] at hnames
  refine inevitable_crew hworkers hlisted₁ hproper₁ hqueued hnames
    fun w₂ g₂ hw₂ hkept₂ hrefreshed₂ ↦ ?_
  have hlisted₂ : Listed w₂.nodes := hw₂.nodes ▸ hlisted₁
  have hproper₂ := fun n ↦ hw₂.proper n (hproper₁ n)
  refine inevitable_sweep hlisted₂ hproper₂ fun w₃ g₃ hw₃ hkept₃ hmended₃ ↦ ?_
  have hproper₃ := fun n ↦ hw₃.proper n (hproper₂ n)
  refine inevitable_beat hproper₃ fun w₄ g₄ hw₄ hheard ↦ .now ⟨rfl, ?_, fun n ↦ ?_⟩
  · exact hw₁.of_true.trans (hw₂.trans (hw₃.trans hw₄))
  have hrecord : w₁.record? n = w.record? n := hw₁.records trivial n
  have hview : view w₁ g n = view w g n := by rw [view, view, hrecord]
  have horder : InOrder d w₁ n ↔ InOrder d w n := InOrder.congr hw₁.nodes hw₁.pods hrecord
  have hlive₁ : Live w₁ n ↔ Live w n := by rw [Live, Live, hw₁.nodes]
  have hlive₂ : Live w₂ n ↔ Live w₁ n := by rw [Live, Live, hw₂.nodes]
  -- a name is touched by the drain if it has a node, and by the sweep if it has none
  by_cases hlive : Live w₁ n
  · obtain ⟨hmended, hleft⟩ := hrefreshed₂ n hlive
    have hview₄ := hheard n
    rw [hkept₃ n (.inl (hlive₂.mpr hlive))] at hview₄
    rw [hview] at hmended
    rw [hrecord, horder] at hleft
    exact ⟨view w₂ g₂ n, hmended, fun _ ↦ hleft, hview₄⟩
  · have hkept : view w₂ g₂ n = view w g n := (hkept₂ n hlive).trans hview
    have hmended := hmended₃ n
    rw [hkept] at hmended
    refine ⟨view w₃ g₃ n, hmended, fun hn ↦ ?_, hheard n⟩
    have hnone : w.record? n = none :=
      hn.resolve_left fun h ↦ hlive (hlive₁.mpr h)
    have hnone₂ : w₂.record? n = none := (congrArg View.record hkept).trans hnone
    rw [hkept₃ n (.inr hnone₂), hkept]
    refine iff_of_true rfl ⟨fun node spec hnode ↦ ?_, fun _ ↦ hnone⟩
    exact absurd (hlive₁.mpr ⟨node, hnode⟩) hlive

/-- After the heartbeats the registry knows of a name what its record says, unless nothing happened
to the record and the registry had known something else. -/
theorem View.Mended.heard_agrees_iff (h : s.Mended t) :
    t.heard.Agrees ↔ ¬(t.record = s.record ∧ s.standing ≠ none ∧ ¬s.Agrees) := by
  obtain rfl | ⟨hagrees, hchanged⟩ := h
  · obtain ⟨_ | x, _ | known⟩ := t <;> simp [View.heard, View.Agrees]
  · have hheard : t.heard.Agrees := by
      obtain ⟨_ | x, known⟩ := t
      · exact hagrees
      · obtain rfl : known = some x.standing := hagrees
        rfl
    simp [hheard, hchanged]

/-- After a pass in which calls succeed, the registry knows of a name what its record says, unless
the pass has left the record as it was and the registry had known something else of the name before.
The record of a name that has a node is left just if it needs nothing to be done, and where there is
neither a node nor a record, none is made. -/
theorem pass_repairs_unless_overlooked {workers : ℕ} (h : Orderly d w) (hworkers : 0 < workers) :
    Inevitable (Step d False) (fun s ↦ s.stages = [] ∧ ∀ n,
      (s.registry n = (s.world.record? n).map Record.standing ↔
        ¬(s.world.record? n = w.record? n ∧ g n ≠ none ∧
          g n ≠ (w.record? n).map Record.standing)) ∧
      (Live w n ∨ w.record? n = none → (s.world.record? n = w.record? n ↔ InOrder d w n)))
      ⟨w, g, stages d workers⟩ := by
  refine (inevitable_pass h hworkers).imp ?_
  rintro s ⟨hend, -, hviews⟩
  refine ⟨hend, fun n ↦ ?_⟩
  obtain ⟨t, hmended, hkept, hview⟩ := hviews n
  have hrecord : s.world.record? n = t.record := congrArg View.record hview
  have hagrees := hmended.heard_agrees_iff
  rw [← hview, ← hrecord] at hagrees
  refine ⟨hagrees, fun hn ↦ ?_⟩
  rw [hrecord]
  exact hkept hn

/-! ## A cluster of one node -/

/-- The node of the cluster, which tells nothing of its state. -/
def lone : Node := { ownName := some "a" }

/-- The node with a record of it. -/
def loneWorld (status : String) : World where
  store := Store.empty.put (.ofSpec { nodeName := "a", status })
  nodes := Dict.empty.insert "a" lone

def loneDuties : Duties := ⟨"c", ⟨1, 0⟩, [], 0, 1, 1, "tasks", default⟩

theorem orderly_lone (hnodes : w.nodes = Dict.empty.insert "a" lone)
    (hproper : ∀ n, Proper n (w.record? n)) (hqueue : w.queued "tasks" = []) :
    Orderly loneDuties w := by
  refine ⟨fun n node hnode ↦ ?_, hproper, hqueue⟩
  rw [hnodes, Dict.get?_insert] at hnode
  split at hnode
  · next hn =>
    cases hnode
    exact hn.symm
  · cases hnode

theorem proper_loneWorld (status n : String) : Proper n ((loneWorld status).record? n) :=
  proper_put (fun x hx ↦ by cases hx) rfl

/-- A pass makes up for a node that could not be added to the registry. -/
theorem pass_makes_up_for_failed_addition :
    let g : Registry := fun _ ↦ none
    Orderly loneDuties (loneWorld "Unknown") ∧
      g "a" ≠ ((loneWorld "Unknown").record? "a").map Record.standing ∧
      Inevitable (Step loneDuties False)
        (fun s ↦ s.stages = [] ∧ ∀ n, s.registry n = (s.world.record? n).map Record.standing)
        ⟨loneWorld "Unknown", g, stages loneDuties 2⟩ := by
  intro g
  have horderly := orderly_lone rfl (proper_loneWorld "Unknown") rfl
  refine ⟨horderly, Option.some_ne_none _ ∘ Eq.symm, ?_⟩
  refine (pass_repairs_unless_overlooked horderly Nat.two_pos).imp ?_
  rintro s ⟨hend, hs⟩
  refine ⟨hend, fun n ↦ (hs n).1.mpr ?_⟩
  rintro ⟨-, hknown, -⟩
  exact hknown rfl

theorem exists_failed_update :
    let g : Registry := fun n ↦ ((loneWorld "Ready").record? n).map Record.standing
    let written : Record := (Record.ofSpec { nodeName := "a", status := "Unknown" }).at "1"
    ∃ s : Scene, Relation.ReflTransGen (Step loneDuties True)
        ⟨loneWorld "Ready", g, [.job (Program.ofAction (loneDuties.refresh lone))]⟩ s ∧
      s.stages = [] ∧ s.registry = g ∧ s.world.nodes = (loneWorld "Ready").nodes ∧
      s.world.queued "tasks" = [] ∧ s.world.store = (loneWorld "Ready").store.put written := by
  intro g written
  have hother : ∀ {r : Request} {a : r.Answer}, r.kind ≠ .callFleet → g.Hears True r a g :=
    fun hr ↦ .other hr _
  have hlisted : Step loneDuties True
      ⟨loneWorld "Ready", g, [.job (Program.ofAction (loneDuties.refresh lone))]⟩ _ :=
    .told (.job (.ask _ _)) (.answered (.listPods "a")) (hother (by simp [Request.kind]))
  have hread := (Relation.ReflTransGen.single hlisted).tail (.told (.job (.ask _ _))
    (.answered (.fetchRecord "a")) (hother (by simp [Request.kind])))
  have hwritten := hread.tail (.told (.job (.ask _ _)) (.answered (.updateRecord written "1"))
    (hother (by simp [Request.kind])))
  have hcounted := hwritten.tail (.told (.job (.ask _ _)) (.answered (.count .recordsUpdated))
    (hother (by simp [Request.kind])))
  have hfailed := hcounted.tail (.told (.job (.ask _ _))
    (.told (.update (.ofSpec "c" written.spec)) (.error (.plain "down")))
    (.failed trivial fun h ↦ by cases h))
  have hnoted := hfailed.tail (.told (.job (.ask _ _)) (.answered (.count .fleetCallErrors))
    (hother (by simp [Request.kind])))
  have hreported := hnoted.tail (.told (.job (.ask _ _)) (.answered (.report _))
    (hother (by simp [Request.kind])))
  have hended := hreported.tail (.turned (.ended (.done _)))
  exact ⟨_, hended, rfl, rfl, rfl, rfl, rfl⟩

/-- The registry knows what all records say, and then a record is written and the registry cannot be
told of it. The pass after that finds the record up to date, and what the registry knows of the node
stays wrong. -/
theorem pass_overlooks_failed_update :
    let g : Registry := fun n ↦ ((loneWorld "Ready").record? n).map Record.standing
    ∃ s : Scene, Relation.ReflTransGen (Step loneDuties True)
        ⟨loneWorld "Ready", g, [.job (Program.ofAction (loneDuties.refresh lone))]⟩ s ∧
      s.stages = [] ∧ Inevitable (Step loneDuties False) (fun t ↦ t.stages = [] ∧
        t.registry "a" ≠ (t.world.record? "a").map Record.standing)
        ⟨s.world, s.registry, stages loneDuties 1⟩ := by
  intro g
  obtain ⟨s, hrun, hend, hregistry, hnodes, hqueue, hstore⟩ := exists_failed_update
  have hproper : ∀ n, Proper n (s.world.record? n) := fun n ↦ by
    rw [World.record?, hstore]
    exact proper_put (proper_loneWorld "Ready" n) rfl
  have hrecord : s.world.record? "a" =
      some ((Record.ofSpec { nodeName := "a", status := "Unknown" }).at "2") := by
    rw [World.record?, hstore]
    rfl
  have hnode : s.world.nodes.get? "a" = some lone := by
    rw [hnodes]
    rfl
  have horder : InOrder loneDuties s.world "a" := by
    refine ⟨fun node spec hlone hspec ↦ ?_, fun hnone ↦ ?_⟩
    · rw [hnode] at hlone
      cases hlone
      cases hspec
      exact ⟨_, hrecord, rfl, rfl⟩
    · rw [hnode] at hnone
      cases hnone
  have hstart : view s.world s.registry "a" =
      ⟨some ((Record.ofSpec { nodeName := "a", status := "Unknown" }).at "2"),
        some ⟨"Ready", []⟩⟩ := by
    rw [view, hrecord, hregistry]
    rfl
  refine ⟨s, hrun, hend, ?_⟩
  refine (inevitable_pass (orderly_lone hnodes hproper hqueue) Nat.one_pos).imp ?_
  rintro t ⟨hdone, -, hviews⟩
  obtain ⟨v, hmended, hkept, hview⟩ := hviews "a"
  have hleft : v.record = s.world.record? "a" := (hkept (.inl ⟨lone, hnode⟩)).mpr horder
  rw [hmended.eq hleft, hstart] at hview
  have hknown : t.registry "a" = some ⟨"Ready", []⟩ := congrArg View.standing hview
  have hsays : t.world.record? "a" = _ := congrArg View.record hview
  refine ⟨hdone, ?_⟩
  rw [hknown, hsays]
  decide

end Mirror

end NodeInventory
