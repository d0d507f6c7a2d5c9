import NodeInventory.Proofs.Pass.Chores
import NodeInventory.Proofs.Pass.Upkeep

/-!
# The sweep of a pass

A sweep lists the names of all records, asks for the nodes of these names, and removes the records
of the names without a node. Listing takes a request for each part, and each takes up where the one
before it ended, so all names are listed whatever the size of the parts; nobody else writes
meanwhile. The removals are a batch of which every item takes care of a record.
-/

namespace NodeInventory

open Simulation

namespace Pass

variable {d : Duties} {p : Scene → Prop} {w : World} {rest : List Stage} {pageSize : ℕ}

/-- Listing the names of all records gives the names under which records are stored. -/
theorem inevitable_listNames {f : Result (List String) → Program (Result Unit)}
    (hproper : ∀ n, Proper n (w.record? n))
    (hp : ∀ w', Still w w' → Inevitable (Step d) p
      ⟨w', .job (f (.ok w.store.records.keys)) :: rest⟩) :
    Inevitable (Step d) p ⟨w, .job (Record.listNames pageSize >>= f) :: rest⟩ := by
  refine inevitable_rounds
    (fun s v ↦ Still w v ∧
      s.2 ++ (w.store.records.remaining s.1).map (·.1) = w.store.records.keys)
    (fun s _ ↦ (w.store.records.remaining s.1).length) ?_ ⟨.refl w, rfl⟩
  rintro ⟨token, sofar⟩ v a v' ⟨hstill, hkeys⟩ hv
  cases hv with
  | answered =>
    have hstill' : Still w (v.note 0 (.listRecords token pageSize)) := hstill.trans (.note v 0 rfl)
    have hnames : (w.store.records.page token pageSize).items.map (·.spec.nodeName) =
        ((w.store.records.remaining token).take (max pageSize 1)).map (·.1) := by
      rw [Dict.items_page]
      refine Dict.map_map_snd (fun n x hx ↦ (hproper n x hx).2.1) fun e he ↦ ?_
      exact (Dict.mem_remaining_iff.mp (List.mem_of_mem_take he)).1
    change Inevitable (Step d) _ ⟨v.note 0 (.listRecords token pageSize), .job (.afterAction
      (Record.collectNames (token, sofar) (.ok (v.store.records.page token pageSize))) _) :: rest⟩
    rw [hstill.store, Record.collectNames, hnames]
    cases hnext : (w.store.records.page token pageSize).next with
    | none =>
      rw [Dict.take_of_page_next_eq_none hnext, hkeys]
      exact (hp _ hstill').imp fun t ht ↦ .inl ht
    | some next =>
      have hrest := Dict.remaining_of_page_next hnext
      refine .now (.inr ⟨_, _, rfl, ⟨hstill', ?_⟩, ?_⟩)
      · rw [hrest, List.append_assoc, ← List.map_append, List.take_append_drop]
        exact hkeys
      · rw [hrest, List.length_drop]
        have hlt := Dict.lt_of_page_next hnext
        dsimp only
        omega

/-- Removing orphans removes their records. -/
theorem inevitable_deleteOrphans (quiet : Prop) {orphans : List String}
    (hnodup : orphans.Nodup)
    (horphans : ∀ n ∈ orphans, ¬quiet ∧ ∃ x, w.record? n = some x)
    (hp : ∀ w', Tended quiet {n | n ∈ orphans} w w' → w'.coordination = w.coordination →
      (∀ n ∈ orphans, w'.record? n = none) → Inevitable (Step d) p ⟨w', rest⟩) :
    Inevitable (Step d) p
      ⟨w, .job (Record.deleteOrphans d.clusterId d.parallelism orphans) :: rest⟩ := by
  have hitems : orphans.map (Record.deleteOrphan d.clusterId) =
      (orphans.map fun n ↦ ((n, Record.deleteOrphan d.clusterId n) : Chore)).map (·.2) := by
    rw [List.map_map]
    rfl
  have hnames : (orphans.map fun n ↦ ((n, Record.deleteOrphan d.clusterId n) : Chore)).map (·.1) =
      orphans := by
    rw [List.map_map]
    exact List.map_id orphans
  rw [Record.deleteOrphans, Program.joined, hitems]
  refine inevitable_batch (fun _ s ↦ s = none) (fun results ↦ ⟨_, rfl⟩) ?_ hnames hnodup hp
  intro c hc
  obtain ⟨n, hn, rfl⟩ := List.mem_map.mp hc
  obtain ⟨hquiet, x, hx⟩ := horphans n hn
  rw [hx]
  exact meets_deleteOrphan hquiet d.clusterId n x

/-- A sweep removes the records without a node, and no others. -/
theorem inevitable_sweep {quiet : Prop} (hnamed : Named w.nodes)
    (hproper : ∀ n, Proper n (w.record? n))
    (hquiet : quiet → ∀ n, w.nodes.get? n = none → w.record? n = none)
    (hp : ∀ w', Tended quiet {n | w.nodes.get? n = none} w w' →
      w'.coordination = w.coordination → (∀ n, w.nodes.get? n = none → w'.record? n = none) →
        Inevitable (Step d) p ⟨w', rest⟩) :
    Inevitable (Step d) p ⟨w, .job (Job.collection.program d) :: rest⟩ := by
  refine inevitable_listNames hproper fun v hv ↦ ?_
  cases hkeys : w.store.records.keys with
  | nil =>
    -- there are no records at all
    refine inevitable_done (hp v hv.tended hv.coordination fun n _ ↦ ?_)
    rw [hv.record?]
    by_contra hrecord
    obtain ⟨x, hx⟩ := Option.ne_none_iff_exists'.mp hrecord
    have hmem : n ∈ w.store.records.keys := Dict.mem_keys_iff.mpr ⟨x, hx⟩
    rw [hkeys] at hmem
    cases hmem
  | cons name names =>
    have hmem : ∀ n, n ∈ name :: names ↔ ∃ x, w.record? n = some x := fun n ↦ by
      rw [← hkeys]
      exact Dict.mem_keys_iff
    have hnodup : (name :: names).Nodup := hkeys ▸ w.store.records.nodup_keys
    refine inevitable_ask fun a v' hv' ↦ ?_
    obtain ⟨nodes, rfl, hnodes, rfl⟩ := hv'.of_findNodes
    rw [hv.nodes] at hnodes
    have hmissing : ∀ n, n ∈ Node.missingNames (name :: names) nodes ↔
        (∃ x, w.record? n = some x) ∧ w.nodes.get? n = none := fun n ↦ by
      rw [hnamed.mem_missingNames_iff hnodes, hmem]
    have hv'' : Still w (v.note 0 (.findNodes (name :: names))) := hv.trans (.note v 0 rfl)
    refine inevitable_deleteOrphans quiet (hnodup.filter _) (fun n hn ↦ ?_)
      fun u hu hcoordination hgone ↦ ?_
    · obtain ⟨⟨x, hx⟩, hnode⟩ := (hmissing n).mp hn
      refine ⟨fun hq ↦ ?_, x, ?_⟩
      · rw [hquiet hq n hnode] at hx
        cases hx
      · rw [hv''.record?, hx]
    · have hsub : {n | n ∈ Node.missingNames (name :: names) nodes} ⊆
          {n | w.nodes.get? n = none} := fun n hn ↦ ((hmissing n).mp hn).2
      refine hp u (hv''.tended.trans (hu.mono hsub)) (hcoordination.trans hv''.coordination)
        fun n hn ↦ ?_
      -- a name without a node is an orphan, or has had no record
      cases hx : w.record? n with
      | some x => exact hgone n ((hmissing n).mpr ⟨⟨x, hx⟩, hn⟩)
      | none =>
        have hkept : n ∉ {n | n ∈ Node.missingNames (name :: names) nodes} := fun hmem ↦ by
          obtain ⟨⟨x, hx'⟩, -⟩ := (hmissing n).mp hmem
          rw [hx] at hx'
          cases hx'
        rw [hu.others n hkept, hv''.record?, hx]

end Pass

end NodeInventory
