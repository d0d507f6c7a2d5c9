import NodeInventory.Proofs.Tour.Hazard
import NodeInventory.Proofs.Tour.Removal

/-!
# One item of a batch stops no other

A batch of names is worked off where any request may fail but the question for the nodes. What
becomes of the record of a name depends on this name alone (`batch_is_isolated`): if its node lives
and is not hit the record is up to date in the end, if it has no node and its removal does not fail
the record is gone, and in all other cases the record is as it was.

All failures are told: first those of the nodes, in the order in which the nodes were found, and
then those of the removals, together as one.
-/

namespace NodeInventory

open Simulation

theorem Pass.Listed.map_name_filterMap_get? {nodes : Dict Node} (h : Pass.Listed nodes)
    (names : List String) :
    (names.filterMap nodes.get?).map Node.name = names.filter fun n ↦ (nodes.get? n).isSome := by
  induction names with
  | nil => rfl
  | cons n names ih =>
    rw [List.filterMap_cons, List.filter_cons]
    cases hnode : nodes.get? n with
    | none => exact ih
    | some node =>
      rw [List.map_cons, ih, h n node hnode]
      rfl

namespace Tour

open Exchange

variable {fault : Request → Option Failure} {d : Duties} {w w' : World} {s : Scene (Result Unit)}
  {events : List Event} {names : List String} {nodes : List Node} {v : Result Unit}

theorem nobody_beset (w : World) (c : Change) : ¬(beset fault).others w c := fun hc ↦ hc

theorem onlyDrops_beset : (beset fault).OnlyDrops := fun _ _ hc ↦ hc.elim

/-- Something gets in the way of refreshing a node as it is in a world. -/
abbrev HitIn (fault : Request → Option Failure) (d : Duties) (w : World) (node : Node) :
    Option Failure → Prop :=
  Hit fault d (w.podsOn node.name) node (w.record? node.name)

/-- What the work on a batch of names has come to. -/
structure Handled (fault : Request → Option Failure) (d : Duties) (names : List String)
    (w : World) (nodes : List Node) (w' : World) (v : Result Unit) : Prop where
  /-- A node that is not hit has a record that tells what its snapshot tells. -/
  refreshed : ∀ node ∈ nodes, (∀ told, ¬HitIn fault d w node told) →
    ∃ spec, Snapshot.build node (w.podsOn node.name) d.tracked = .exact (.ok spec) ∧
      Pass.Current spec (w'.record? node.name)
  hit : ∀ node ∈ nodes, ∀ told, HitIn fault d w node told →
    w'.record? node.name = w.record? node.name
  /-- A name without a node has no record, unless the removal fails. -/
  removed : ∀ n ∈ names, w.nodes.get? n = none →
    w'.record? n = if fault (.deleteRecord n) = none then none else w.record? n
  elsewhere : ∀ n, n ∉ names → w'.record? n = w.record? n
  /-- Of each node that is hit the failure is told, and then those of the removals as one. -/
  result : ∃ told : Node → Option Failure,
    (∀ node ∈ nodes, ∀ f, told node = some f ↔ HitIn fault d w node (some f)) ∧
      v = Failure.summary (nodes.filterMap told ++ Failure.nested
        ((names.filter fun n ↦ (w.nodes.get? n).isNone).filterMap (beset fault).spoil?))
  succeeds_iff : v = .ok () ↔ (∀ node ∈ nodes, ∀ f, ¬HitIn fault d w node (some f)) ∧
    ∀ n ∈ names, w.nodes.get? n = none → (beset fault).spoil? n = none

theorem acc_handleNodeBatch (w : World) : Acc (fun t s ↦ Moves (beset fault) s t)
    (⟨w, d.handleNodeBatch names⟩ : Scene (Result Unit)) := by
  refine acc_of_acc (fun _ ↦ 0) (fun w c hc ↦ absurd hc (nobody_beset w c))
    (Program.Loopless.acc ?_) w
  refine .ask fun (answer : Result (List Node)) ↦ ?_
  cases answer with
  | error f => exact .done _
  | ok nodes =>
    refine .batch fun results ↦ ?_
    split
    · exact .done _
    · exact .batch fun _ ↦ .done _

/-- After the nodes were refreshed the records of names without a node are removed, and all failures
are told. -/
theorem removal_of_course {orphans : List String} {results : List (Result Unit)}
    (hnodup : orphans.Nodup)
    (hcourse : Course (beset fault) ⟨w, match orphans with
      | [] => pure (Failure.join results)
      | orphans => do
        let removal ← Record.deleteOrphans d.clusterId d.parallelism orphans
        pure (Failure.join (results ++ [removal]))⟩ events s) (hended : s.rest.Ended v) :
    (∀ n, s.world.record? n =
      if n ∈ orphans ∧ fault (.deleteRecord n) = none then none else w.record? n) ∧
    v = Failure.summary (results.filterMap Failure.told? ++
      Failure.nested (orphans.filterMap (beset fault).spoil?)) := by
  cases orphans with
  | nil =>
    obtain ⟨hrest, hnothing⟩ := hcourse.of_done
    rw [hrest] at hended
    cases hended
    refine ⟨fun n ↦ ?_, ?_⟩
    · rw [record?_of_course onlyDrops_beset (by simp [hnothing]) hcourse,
        losses_eq_nil nobody_beset hcourse]
      simp
    · rw [Failure.join_eq_summary]
      simp [Failure.nested]
  | cons n orphans =>
    obtain ⟨results', hremoved, htold, hv⟩ :=
      exists_removed_of_course onlyDrops_beset hnodup hcourse hended
    refine ⟨fun n ↦ ?_, ?_⟩
    · rw [hremoved.record? n, losses_eq_nil nobody_beset hcourse]
      simp [beset]
    · have hremovals : ((n :: orphans).map results').filterMap Failure.told? =
          (n :: orphans).filterMap (beset fault).spoil? := by
        rw [List.filterMap_map]
        exact List.filterMap_congr htold
      rw [hv, Failure.join_append_singleton, Failure.join_eq_summary, hremovals,
        Failure.toList_told?_summary]

/-- Each node that was found is refreshed as if it were alone. -/
theorem refreshed_of_course {start : World} {next : List (Result Unit) → Program (Result Unit)}
    {k : Int} (hproper : ∀ n, Pass.Proper n (w.record? n))
    (hnodes : ∀ node ∈ nodes, w.nodes.get? node.name = some node)
    (hnodup : (nodes.map Node.name).Nodup) (hstart : (besetTerms fault w).inv start)
    (hrecords : ∀ n, start.record? n = w.record? n)
    (hcourse : Course (beset fault) ⟨start, .batch k (nodes.map d.refresh) next⟩ events s)
    (hended : s.rest.Ended v) :
    ∃ (results : Node → Result Unit) (future : List Event) (between : World)
      (last : Scene (Result Unit)),
      (∀ node ∈ nodes, Refreshed fault d (w.podsOn node.name) node (w.record? node.name)
        (between.record? node.name) (results node)) ∧
      (∀ n, n ∉ nodes.map Node.name → between.record? n = w.record? n) ∧
      Course (beset fault) ⟨between, next (nodes.map results)⟩ future last ∧
      last.world = s.world ∧ last.rest.Ended v := by
  let act (n : String) : Action (Result Unit) := match w.nodes.get? n with
    | some node => d.refresh node
    | none => .done (.ok ())
  have hact : ∀ node ∈ nodes, act node.name = d.refresh node := fun node hnode ↦ by
    simp only [act, hnodes node hnode]
  have hitems : nodes.map d.refresh = (nodes.map Node.name).map act := by
    rw [List.map_map]
    exact List.map_congr_left fun node hnode ↦ (hact node hnode).symm
  rw [hitems] at hcourse
  let post (n : String) (t : Option Record) (_ : List Exchange) (v : Result Unit) : Prop :=
    ∀ node, w.nodes.get? n = some node →
      Refreshed fault d (w.podsOn n) node (w.record? n) t v
  have hmeets : ∀ n ∈ nodes.map Node.name, (act n).Meets ((besetTerms fault w).contract n).logged
      (fun t v ↦ post n t.1 t.2 v) (start.record? n, []) := fun n hn ↦ by
    obtain ⟨node, hnode, rfl⟩ := List.mem_map.mp hn
    rw [hact node hnode, hrecords]
    refine (Action.Meets.logged (meets_hazard_refresh (hproper node.name)) []).imp ?_
    rintro t v h other hother
    rw [hnodes node hnode] at hother
    cases hother
    exact h
  obtain ⟨logs, results, past, future, between, last, h⟩ :=
    (besetTerms fault w).finished post hnodup hstart hmeets hcourse hended
  refine ⟨fun node ↦ results node.name, future, between, last, fun node hnode ↦ ?_,
    fun n hn ↦ (h.elsewhere n hn).trans (hrecords n), ?_, h.world, h.ended⟩
  · exact h.kept node.name (List.mem_map_of_mem hnode) node (hnodes node hnode)
  · have hcourse := h.course
    rwa [List.map_map] at hcourse

/-- What a batch has come to follows from what became of its nodes and of the names without one. -/
theorem handled_of_refreshed {between : World} {results : Node → Result Unit}
    (hget : ∀ node ∈ nodes, w.nodes.get? node.name = some node)
    (hnames : ∀ node ∈ nodes, node.name ∈ names)
    (hrefreshed : ∀ node ∈ nodes, Refreshed fault d (w.podsOn node.name) node
      (w.record? node.name) (between.record? node.name) (results node))
    (hothers : ∀ n, n ∉ nodes.map Node.name → between.record? n = w.record? n)
    (hrecord : ∀ n, w'.record? n =
      if n ∈ (names.filter fun n ↦ (w.nodes.get? n).isNone) ∧ fault (.deleteRecord n) = none then
        none
      else between.record? n)
    (hv : v = Failure.summary ((nodes.map results).filterMap Failure.told? ++ Failure.nested
      ((names.filter fun n ↦ (w.nodes.get? n).isNone).filterMap (beset fault).spoil?))) :
    Handled fault d names w nodes w' v := by
  have horphan : ∀ n, n ∈ names.filter (fun n ↦ (w.nodes.get? n).isNone) ↔
      n ∈ names ∧ w.nodes.get? n = none := fun n ↦ by
    rw [List.mem_filter, Option.isNone_iff_eq_none]
  have hkept : ∀ node ∈ nodes, w'.record? node.name = between.record? node.name :=
    fun node hnode ↦ by
      rw [hrecord, if_neg]
      rintro ⟨hn, -⟩
      rw [horphan, hget node hnode] at hn
      cases hn.2
  have htold : ∀ node ∈ nodes, ∀ f,
      Failure.told? (results node) = some f ↔ HitIn fault d w node (some f) :=
    fun node hnode f ↦ (hrefreshed node hnode).told?_iff
  rw [List.filterMap_map] at hv
  refine ⟨fun node hnode hclear ↦ ?_, fun node hnode told hhit ↦ ?_, fun n hn hnone ↦ ?_,
    fun n hn ↦ ?_, ⟨fun node ↦ Failure.told? (results node), htold, hv⟩, ?_⟩
  · rw [hkept node hnode]
    exact (hrefreshed node hnode).current_of_clear hclear
  · rw [hkept node hnode]
    exact (hrefreshed node hnode).eq_of_hit hhit
  · have hnot : n ∉ nodes.map Node.name := fun hmem ↦ by
      obtain ⟨node, hnode, rfl⟩ := List.mem_map.mp hmem
      rw [hget node hnode] at hnone
      cases hnone
    rw [hrecord, hothers n hnot]
    simp [horphan, hn, hnone]
  · have hnot : n ∉ nodes.map Node.name := fun hmem ↦ by
      obtain ⟨node, hnode, rfl⟩ := List.mem_map.mp hmem
      exact hn (hnames node hnode)
    rw [hrecord, hothers n hnot, if_neg]
    rintro ⟨hmem, -⟩
    exact hn ((horphan n).mp hmem).1
  · rw [hv, Failure.summary_eq_ok_iff, List.append_eq_nil_iff, Failure.nested_eq_nil_iff,
      List.filterMap_eq_nil_iff, List.filterMap_eq_nil_iff]
    refine and_congr (forall₂_congr fun node hnode ↦ ?_) ?_
    · rw [Option.eq_none_iff_forall_ne_some]
      exact forall_congr' fun f ↦ not_congr (htold node hnode f)
    · constructor
      · exact fun h n hn hnone ↦ h n ((horphan n).mpr ⟨hn, hnone⟩)
      · exact fun h n hn ↦ h n ((horphan n).mp hn).1 ((horphan n).mp hn).2

/-- Whatever is hit by failures, the work on a batch of names comes to its end, and what becomes of
each record depends on its own name. -/
theorem batch_is_isolated (hnamed : Pass.Named w.nodes)
    (hproper : ∀ n, Pass.Proper n (w.record? n)) (hnodup : names.Nodup)
    (hcourse : Course (beset fault) ⟨w, d.handleNodeBatch names⟩ events s) :
    Inevitable (Moves (beset fault)) (fun t ↦ ∃ v, t.rest.Ended v) s ∧
      ∀ v, s.rest.Ended v → ∃ nodes,
        ⟨.findNodes names, (.ok nodes : Result (List Node))⟩ ∈ exchanges events ∧
        nodes.Perm (names.filterMap w.nodes.get?) ∧ Handled fault d names w nodes s.world v := by
  refine ⟨inevitable_ended_of_acc (acc_of_course (acc_handleNodeBatch w) hcourse),
    fun v hended ↦ ?_⟩
  obtain ⟨past, future, start, nodes, rfl, hfound, hnodes, hpast, hfuture⟩ :=
    exists_found_of_course onlyDrops_beset rfl hcourse hended
  have hstore : start.store = w.store :=
    store_eq_of_course nobody_beset (by simp [hfound, Request.isWrite]) hpast
  have hrecords : ∀ n, start.record? n = w.record? n := fun n ↦ by
    rw [World.record?, World.record?, hstore]
  have hlive : (nodes.map Node.name).Perm (names.filter fun n ↦ (w.nodes.get? n).isSome) := by
    rw [← Pass.Listed.map_name_filterMap_get? hnamed.name]
    exact hnodes.map _
  have hget : ∀ node ∈ nodes, w.nodes.get? node.name = some node := fun node hnode ↦ by
    obtain ⟨n, -, hn⟩ := List.mem_filterMap.mp (hnodes.mem_iff.mp hnode)
    rw [hnamed.name n node hn, hn]
  obtain ⟨results, later, between, last, hrefreshed, hothers, hlater, hworld, hlast⟩ :=
    refreshed_of_course hproper hget (hlive.nodup_iff.mpr (hnodup.filter _))
      (cluster_eq_of_course onlyDrops_beset.drops hpast) hrecords hfuture hended
  rw [hnamed.missingNames_eq hnodes] at hlater
  obtain ⟨hrecord, hv⟩ := removal_of_course (hnodup.filter _) hlater hlast
  rw [hworld] at hrecord
  refine ⟨nodes, ?_, hnodes,
    handled_of_refreshed hget (fun node hnode ↦ ?_) hrefreshed hothers hrecord hv⟩
  · rw [exchanges_append, hfound]
    exact List.mem_append_left _ (List.mem_singleton_self _)
  · exact (List.mem_filter.mp (hlive.mem_iff.mp (List.mem_map_of_mem hnode))).1

/-- The nodes "a", "b" and "c" live. There are records of all nodes but "c", of two more that are
gone, and of one that nobody asks for. -/
def halfGone : World where
  store := ["a", "b", "d", "e", "x"].foldl (fun s n ↦ s.put (.ofSpec { nodeName := n })) Store.empty
  nodes := World.nodesOf (["a", "b", "c"].map fun n ↦
    { ownName := some n, labels := .ofList [(Node.hostnameLabel, n)] })

/-- The pods of "b" cannot be listed, and the record of "e" cannot be removed. -/
def twoFaults : Request → Option Failure
  | .listPods "b" => some (.plain "pods")
  | .deleteRecord "e" => some (.plain "timeout")
  | _ => none

/-- The failures for "b" and "e" stop nothing else. -/
theorem two_faults_stop_nothing_else :
    let d : Duties := ⟨"k", ⟨3, 100⟩, ["cpu"], 2, 10, 10, "queue", default⟩
    ∃ events s,
      Course (beset twoFaults) ⟨halfGone, d.handleNodeBatch ["e", "b", "a", "d", "c"]⟩ events s ∧
      (∃ v, s.rest.Ended v) ∧ s.world.store.records.keys = ["a", "b", "c", "e", "x"] ∧
      Inevitable (Moves (beset twoFaults)) (fun t ↦ ∃ v, t.rest.Ended v) s ∧
      ∀ v, s.rest.Ended v → ∃ nodes,
        ⟨.findNodes ["e", "b", "a", "d", "c"], (.ok nodes : Result (List Node))⟩ ∈
          exchanges events ∧
        nodes.Perm (["e", "b", "a", "d", "c"].filterMap halfGone.nodes.get?) ∧
        Handled twoFaults d ["e", "b", "a", "d", "c"] halfGone nodes s.world v := by
  intro d
  have hnamed : Pass.Named halfGone.nodes := .of_forall_mem (by decide +kernel)
  have hproper : ∀ n, Pass.Proper n (halfGone.record? n) := by
    have hall : ∀ e ∈ halfGone.store.records.toList, e.2.name = e.1 ∧ e.2.spec.nodeName = e.1 ∧
        e.2.metadata.resourceVersion.isSome := by
      decide +kernel
    intro n x hx
    obtain ⟨hname, hnode, hversion⟩ := hall _ (Dict.mem_toList_iff.mpr hx)
    exact ⟨hname, hnode, Option.isSome_iff_exists.mp hversion⟩
  let fleet : Fleet.Call → Result Fleet.Response := fun _ ↦ .error (.plain "unreachable")
  have hfleet : ∀ call, (beset twoFaults).fleet call (fleet call) := fun _ ↦ trivial
  have hcourse := course_advance hfleet 40
    ⟨halfGone, d.handleNodeBatch ["e", "b", "a", "d", "c"]⟩
  exact ⟨_, _, hcourse, exists_ended_of_isLeft (by decide +kernel), by decide +kernel,
    batch_is_isolated hnamed hproper (by decide) hcourse⟩

end Tour

end NodeInventory
