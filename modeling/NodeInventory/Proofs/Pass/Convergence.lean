import NodeInventory.Proofs.Pass.Drain
import NodeInventory.Proofs.Pass.Sweep

/-!
# What a pass brings about

A pass leaves one record for every live node and no other, each with the status and the accounting
of the snapshot of its node, and an empty queue (`pass_converges`). That holds whatever records
there were before, whatever the sizes of the parts in which nodes and records are listed, for every
number of workers at least one, whichever of them goes on, and whether the sweep comes before the
queue is worked off or after.

The stages do not disturb each other: working off the queue touches the records of live nodes only,
and the sweep only records without a node. So what one of them has brought about is still there
after the other (`inevitable_pass`). A pass that finds everything as a pass leaves it is quiet, and
asks for no change.
-/

namespace NodeInventory

open Simulation

namespace Pass

variable {d : Duties} {p : Scene → Prop} {quiet : Prop} {w w' : World} {names : Set String}
  {rest : List Stage}

/-- There is one record for every live node and no other, each under the name of its node, with the
status and the accounting of the snapshot of the node. -/
structure Converged (d : Duties) (w : World) : Prop where
  names : w.store.records.keys = w.nodes.keys
  record : ∀ n x, w.store.records.get? n = some x → x.name = n ∧ x.spec.nodeName = n ∧
    ∃ node spec, w.nodes.get? n = some node ∧
      Snapshot.build node w.pods d.tracked = .exact (.ok spec) ∧
      x.spec.status = spec.status ∧ x.spec.resources = spec.resources

/-- What a pass starts from: a cluster in which nodes are known by their names and the amounts of
tracked resources can be read, records that are stored as they should be, and nothing in the queue.
-/
structure Ready (d : Duties) (w : World) : Prop where
  named : Named w.nodes
  readable : ∀ n node, w.nodes.get? n = some node →
    ∀ r ∈ d.tracked, Snapshot.Readable node w.pods r
  proper : ∀ n, Proper n (w.record? n)
  queue : w.queued d.queue = []

/-- The records of all live nodes are up to date, and there are no others. -/
structure Settled (d : Duties) (w : World) : Prop where
  live : ∀ n, Live w n → UpToDate d w n (w.record? n)
  gone : ∀ n, w.nodes.get? n = none → w.record? n = none

theorem Ready.fit (h : Ready d w) : Fit d w :=
  ⟨h.named, fun n node hnode ↦ Snapshot.exists_build (h.readable n node hnode), h.proper⟩

theorem Ready.tended (h : Ready d w) (hw : Tended quiet names w w')
    (hqueue : w'.queued d.queue = []) : Ready d w' := by
  refine ⟨hw.nodes ▸ h.named, ?_, fun n ↦ hw.proper n (h.proper n), hqueue⟩
  rw [hw.nodes, hw.pods]
  exact h.readable

theorem Tended.of_true {more : Set String} (h : Tended True names w w') : Tended quiet more w w' :=
  { h with
    others := fun n _ ↦ h.records trivial n
    records := fun _ ↦ h.records trivial
    changes := fun _ ↦ h.changes trivial }

theorem Fit.tended (h : Fit d w) (hw : Tended quiet names w w') : Fit d w' := by
  refine ⟨hw.nodes ▸ h.named, ?_, fun n ↦ hw.proper n (h.proper n)⟩
  rw [hw.nodes, hw.pods]
  exact h.snapshot

theorem Live.tended {n : String} (h : Live w' n) (hw : Tended quiet names w w') : Live w n := by
  rw [Live, hw.nodes] at h
  exact h

theorem UpToDate.tended {n : String} {s : Option Record} (hw : Tended quiet names w w') :
    UpToDate d w' n s ↔ UpToDate d w n s := by
  rw [UpToDate, UpToDate, hw.nodes, hw.pods]

/-! ## Two ways to say what a pass brings about -/

theorem Converged.settled (h : Converged d w) : Settled d w := by
  constructor
  · intro n hn
    obtain ⟨x, hx⟩ : ∃ x, w.store.records.get? n = some x := by
      rw [← Dict.mem_keys_iff, h.names, Dict.mem_keys_iff]
      exact hn
    obtain ⟨-, -, node, spec, hnode, hspec, hcurrent⟩ := h.record n x hx
    exact ⟨node, spec, hnode, hspec, x, hx, hcurrent⟩
  · intro n hn
    by_contra hrecord
    obtain ⟨x, hx⟩ := Option.ne_none_iff_exists'.mp hrecord
    have hmem : n ∈ w.store.records.keys := Dict.mem_keys_iff.mpr ⟨x, hx⟩
    rw [h.names, Dict.mem_keys_iff, hn] at hmem
    obtain ⟨node, hnode⟩ := hmem
    cases hnode

theorem Draining.start {batches : List (List String)} (workers : ℕ)
    (hqueued : w.queued d.queue = texts batches) (hnames : batches.flatten = w.nodes.keys) :
    Draining d quiet w w batches (List.replicate workers ([], {})) := by
  have hclaimed : claimed batches (List.replicate workers ([], {})) = w.nodes.keys := by
    simp [claimed, hnames]
  refine ⟨.refl w, hqueued, fun q hq ↦ ?_, ?_, fun n hn ↦ ?_, fun n hn hfree ↦ ?_⟩
  · rw [List.eq_of_mem_replicate hq]
    exact .idle
  · rw [hclaimed]
    exact w.nodes.nodup_keys
  · rw [hclaimed, Dict.mem_keys_iff] at hn
    exact hn
  · rw [hclaimed, Dict.mem_keys_iff] at hfree
    exact absurd hn hfree

/-- Working off a queue with the names of all nodes brings the records of all nodes up to date. -/
theorem inevitable_crew {batches : List (List String)} {workers : ℕ} (hworkers : 0 < workers)
    (hfit : Fit d w) (hquiet : quiet → Settled d w) (hqueued : w.queued d.queue = texts batches)
    (hnames : batches.flatten = w.nodes.keys)
    (hp : ∀ w', Tended quiet {n | Live w n} w w' → w'.queued d.queue = [] →
      (∀ n, Live w n → UpToDate d w n (w'.record? n)) → Inevitable (Step d) p ⟨w', rest⟩) :
    Inevitable (Step d) p ⟨w, .drain (List.replicate workers {}) :: rest⟩ := by
  have hseats : (List.replicate workers (([], {}) : Seat)).map (·.2) =
      List.replicate workers {} := List.map_replicate
  have hsome : List.replicate workers (([], {}) : Seat) ≠ [] := by
    rw [Ne, List.replicate_eq_nil_iff]
    omega
  rw [← hseats]
  exact inevitable_drain hfit (fun hq ↦ (hquiet hq).live) (.start workers hqueued hnames) hsome hp

theorem Settled.of_tended (hw : Tended quiet names w w')
    (hlive : ∀ n, Live w n → UpToDate d w n (w'.record? n))
    (hgone : ∀ n, w.nodes.get? n = none → w'.record? n = none) : Settled d w' := by
  constructor
  · intro n hn
    rw [UpToDate.tended hw]
    exact hlive n (hn.tended hw)
  · intro n hn
    rw [hw.nodes] at hn
    exact hgone n hn

theorem Settled.tended (h : Settled d w) (hw : Tended quiet names w w')
    (hrecords : ∀ n, w'.record? n = w.record? n) : Settled d w' := by
  apply Settled.of_tended hw
  · intro n hn
    rw [hrecords]
    exact h.live n hn
  · intro n hn
    rw [hrecords]
    exact h.gone n hn

/-- A pass brings the records of all nodes up to date and removes those without a node. If there was
nothing to do, it leaves all records as they were and asks for no change. -/
theorem inevitable_pass {workers : ℕ} (hworkers : 0 < workers) (sweepFirst : Bool)
    (hready : Ready d w) (hquiet : quiet → Settled d w) :
    Inevitable (Step d)
      (fun s ↦ s.stages = [] ∧ Tended quiet Set.univ w s.world ∧ s.world.queued d.queue = [] ∧
        Settled d s.world) ⟨w, stages d workers sweepFirst⟩ := by
  cases sweepFirst with
  | false =>
    refine inevitable_enqueueAll hready.named.name hready.queue
      fun w₁ batches hw₁ hqueued hnames ↦ ?_
    have hfit := hready.fit.tended hw₁
    have hquiet₁ : quiet → Settled d w₁ := fun hq ↦ (hquiet hq).tended hw₁ (hw₁.records trivial)
    rw [← hw₁.nodes] at hnames
    refine inevitable_crew hworkers hfit hquiet₁ hqueued hnames fun w₂ hw₂ hempty hdone ↦ ?_
    have hfit₂ := hfit.tended hw₂
    have hquiet₂ : quiet → Settled d w₂ := fun hq ↦ (hquiet₁ hq).tended hw₂ (hw₂.records hq)
    refine inevitable_sweep hfit₂.named hfit₂.proper (fun hq ↦ (hquiet₂ hq).gone)
      fun w₃ hw₃ hcoordination hgone ↦ ?_
    have hw₁₃ : Tended quiet Set.univ w₁ w₃ :=
      (hw₂.mono (Set.subset_univ _)).trans (hw₃.mono (Set.subset_univ _))
    rw [hw₂.nodes] at hgone
    refine .now ⟨rfl, hw₁.of_true.trans hw₁₃, ?_, .of_tended hw₁₃ (fun n hn ↦ ?_) hgone⟩
    · rw [World.queued, hcoordination]
      exact hempty
    · -- the sweep leaves the records of live nodes to the drain
      have hkept : w₃.record? n = w₂.record? n := hw₃.others n fun hnone ↦ by
        obtain ⟨node, hnode⟩ := hn
        rw [← hw₂.nodes, hnone] at hnode
        cases hnode
      rw [hkept]
      exact hdone n hn
  | true =>
    refine inevitable_enqueueAll hready.named.name hready.queue
      fun w₁ batches hw₁ hqueued hnames ↦ ?_
    have hfit := hready.fit.tended hw₁
    have hquiet₁ : quiet → Settled d w₁ := fun hq ↦ (hquiet hq).tended hw₁ (hw₁.records trivial)
    refine inevitable_sweep hfit.named hfit.proper (fun hq ↦ (hquiet₁ hq).gone)
      fun w₂ hw₂ hcoordination hgone ↦ ?_
    have hquiet₂ : quiet → Settled d w₂ := fun hq ↦ (hquiet₁ hq).tended hw₂ (hw₂.records hq)
    rw [← hw₁.nodes, ← hw₂.nodes] at hnames
    have hqueued₂ : w₂.queued d.queue = texts batches := by
      rw [World.queued, hcoordination]
      exact hqueued
    refine inevitable_crew hworkers (hfit.tended hw₂) hquiet₂ hqueued₂ hnames
      fun w₃ hw₃ hempty hdone ↦ ?_
    have hw₁₃ : Tended quiet Set.univ w₁ w₃ :=
      (hw₂.mono (Set.subset_univ _)).trans (hw₃.mono (Set.subset_univ _))
    refine .now ⟨rfl, hw₁.of_true.trans hw₁₃, hempty,
      .of_tended (hw₃.mono (Set.subset_univ _)) hdone fun n hn ↦ ?_⟩
    -- the drain leaves the records without a node to the sweep
    have hkept : w₃.record? n = w₂.record? n := hw₃.others n fun hlive ↦ by
      obtain ⟨node, hnode⟩ := hlive
      rw [hn] at hnode
      cases hnode
    rw [hkept]
    exact hgone n (hw₂.nodes ▸ hn)

end Pass

end NodeInventory
