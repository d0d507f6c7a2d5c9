import NodeInventory.Proofs.Tour.Naming
import NodeInventory.Proofs.Tour.Removal

/-!
# A sweep beside somebody else who removes records

Records without a node are removed by a sweep, and while it is under way by somebody else too. Some
removals of the sweep fail and change nothing. Then each record without a node is tried once, and it
is known in the end what was removed, what the registry was told, and what failed
(`sweep_is_exact`): it takes the names that were listed, those of them that failed, and those that
somebody else removed.

Whoever else removes a record does so after the sweep has listed it. A record that is gone before is
none of those that the sweep deals with.
-/

namespace NodeInventory.Tour

open Simulation Exchange

variable {fault : String → Option Failure} {w w' : World} {s start : Scene (Result Unit)}
  {events past future : List Event} {clusterId n : String} {pageSize : ℕ} {parallelism : Int}
  {v : Result Unit}

/-- The names of the records without a node. -/
def orphans (w : World) : List String :=
  w.store.records.keys.filter fun n ↦ (w.nodes.get? n).isNone

theorem mem_orphans_iff :
    n ∈ orphans w ↔ (∃ x, w.record? n = some x) ∧ w.nodes.get? n = none := by
  rw [orphans, List.mem_filter, Dict.mem_keys_iff, Option.isNone_iff_eq_none, World.record?]

/-- Others remove records without a node, and nothing fails but removing records under some names.
-/
def sweeping (fault : String → Option Failure) : Conditions where
  others w c := ∃ n, c = .drop n ∧ n ∈ orphans w
  fault
    | .deleteRecord n => fault n
    | _ => none
  fleet _ _ := True
  answers := exists_any_answer

theorem onlyDrops_sweeping : (sweeping fault).OnlyDrops := by
  rintro w c ⟨n, rfl, hn⟩
  obtain ⟨⟨x, hx⟩, -⟩ := mem_orphans_iff.mp hn
  exact ⟨n, x, rfl, hx⟩

theorem nodeless_of_mem_losses (hcourse : Course (sweeping fault) start events s)
    (hn : n ∈ losses events) : start.world.nodes.get? n = none := by
  obtain ⟨e, he, hloss⟩ := List.mem_filterMap.mp hn
  obtain ⟨before, after, rfl⟩ := List.append_of_mem he
  obtain ⟨t, t', hbefore, hstep, -⟩ := hcourse.exists_step
  cases hstep with
  | asked => cases hloss
  | other hc =>
    obtain ⟨m, rfl, hm⟩ := hc
    cases hloss
    rw [← (cluster_eq_of_course onlyDrops_sweeping.drops hbefore).1]
    exact (mem_orphans_iff.mp hm).2

/-- The failure of the removal of a record. -/
def removalFailure (fault : String → Option Failure) (n : String) : Option Failure :=
  (fault n).map (Failure.context ("error deleting NodeResourceInfo " ++ n))

theorem spoil?_sweeping (hfault : ∀ n f, fault n = some f → f.isNotFound = false) :
    (sweeping fault).spoil? n = removalFailure fault n := by
  rw [Conditions.spoil?, removalFailure]
  cases h : fault n with
  | none => simp [sweeping, h]
  | some f => simp [sweeping, h, hfault n f h]

/-- What a sweep has come to. -/
structure Swept (fault : String → Option Failure) (clusterId : String) (w : World)
    (events : List Event) (w' : World) (v : Result Unit) : Prop where
  /-- The records that are left are those with a node and those that failed to be removed and that
  nobody else removed. All of them are as they were. -/
  record? : ∀ n, w'.record? n =
    if w.nodes.get? n = none ∧ (fault n = none ∨ n ∈ losses events) then none else w.record? n
  /-- To remove a record was tried once for every record without a node, and for no other. -/
  attempts : (removals (exchanges events)).Perm (orphans w)
  /-- What was removed did not fail, and somebody else had not removed it. -/
  erased : (erased (exchanges events)).Perm
    ((orphans w).filter fun n ↦ fault n = none ∧ n ∉ losses events)
  counted : counted .recordsDeleted (exchanges events) =
    (Exchange.erased (exchanges events)).length
  /-- The registry was told of every record that was removed or gone, and of nothing else. -/
  calls : (calls (exchanges events)).Perm
    (((orphans w).filter fun n ↦ (fault n).isNone).map fun n ↦ .delete ⟨n, clusterId⟩)
  /-- The failures are told in the order of the listing. -/
  result : v = Failure.summary ((orphans w).filterMap (removalFailure fault))
  succeeds_iff : v = .ok () ↔ ∀ n ∈ orphans w, fault n = none
  /-- Nodes are asked for once, if there are any records. -/
  lookups : lookups (exchanges events) =
    if w.store.records.keys = [] then [] else [w.store.records.keys]

theorem acc_sweep (w : World) : Acc (fun t s ↦ Moves (sweeping fault) s t)
    (⟨w, Record.sweep clusterId pageSize parallelism⟩ : Scene (Result Unit)) := by
  refine acc_listing onlyDrops_sweeping (fun _ ↦ rfl) (fun answer w' ↦ ?_) w none []
  refine acc_of_acc (fun w ↦ w.store.records.size) (fun w c hc ↦ ?_)
    (Program.Loopless.acc ?_) w'
  · obtain ⟨n, x, rfl, hx⟩ := onlyDrops_sweeping w c hc
    exact Dict.size_erase_lt hx
  · obtain f | _ | names := answer
    · exact .done _
    · exact .done _
    · refine .ask fun (found : Result (List Node)) ↦ ?_
      cases found with
      | error f => exact .done _
      | ok live => exact .batch fun _ ↦ .done _

/-- What a sweep reads before it removes anything. -/
abbrev surveyKinds : List Request.Kind := [.listRecords, .findNodes]

theorem record?_of_survey (hcourse : Course (sweeping fault) start events s)
    (hreads : ∀ e ∈ exchanges events, e.request.kind ∈ surveyKinds) (n : String) :
    s.world.record? n = if n ∈ losses events then none else start.world.record? n :=
  record?_of_course onlyDrops_sweeping (writes_none surveyKinds (by decide) hreads) hcourse n

theorem filterMap_removalFailure_eq_nil_iff {names : List String} :
    names.filterMap (removalFailure fault) = [] ↔ ∀ n ∈ names, fault n = none := by
  rw [List.filterMap_eq_nil_iff]
  refine forall₂_congr fun n _ ↦ ?_
  rw [removalFailure, Option.map_eq_none_iff]

/-- What a sweep has come to follows from what it read first and from what it removed then. -/
theorem swept_of_removed {t : Scene (Result Unit)}
    (h : Removed (sweeping fault) clusterId (orphans start.world) t.world future s.world)
    (hfault : ∀ n f, fault n = some f → f.isNotFound = false)
    (hpast : Course (sweeping fault) start past t)
    (hfuture : Course (sweeping fault) t future s)
    (hreads : ∀ e ∈ exchanges past, e.request.kind ∈ surveyKinds)
    (hlookups : lookups (exchanges past) =
      if start.world.store.records.keys = [] then [] else [start.world.store.records.keys])
    (hresult : v = Failure.summary ((orphans start.world).filterMap (removalFailure fault))) :
    Swept fault clusterId start.world (past ++ future) s.world v := by
  have hnever : ∀ kind ∉ surveyKinds, ∀ e ∈ exchanges past, e.request.kind ≠ kind :=
    fun kind hkind e he heq ↦ hkind (heq ▸ hreads e he)
  have hremovals : removals (exchanges past) = [] := removals_eq_nil (hnever _ (by decide))
  have herased : erased (exchanges past) = [] := erased_eq_nil hremovals
  have hsurvey := record?_of_survey hpast hreads
  have hnodeless : ∀ n ∈ losses (past ++ future), start.world.nodes.get? n = none := fun n hn ↦
    nodeless_of_mem_losses (hpast.append hfuture) hn
  refine ⟨fun n ↦ ?_, ?_, ?_, ?_, ?_, hresult, ?_, ?_⟩
  · rw [h.record? n, hsurvey n]
    by_cases hloss : n ∈ losses (past ++ future)
    · rw [if_pos (c := _ ∧ _) ⟨hnodeless n hloss, .inr hloss⟩]
      rw [losses_append, List.mem_append] at hloss
      obtain hloss | hloss := hloss
      · simp [hloss]
      · simp [hloss]
    · rw [losses_append, List.mem_append, not_or] at hloss
      cases hx : start.world.record? n with
      | none => simp
      | some x => simp [hloss, mem_orphans_iff, hx, sweeping]
  · rw [exchanges_append, removals_append, hremovals, List.nil_append]
    exact h.attempts
  · rw [exchanges_append, erased_append, herased, List.nil_append]
    refine h.erased.trans (.of_eq (List.filter_congr fun n hn ↦ ?_))
    obtain ⟨⟨x, hx⟩, -⟩ := mem_orphans_iff.mp hn
    have hthere : t.world.record? n ≠ none ↔ n ∉ losses past := by
      rw [hsurvey n, hx]
      by_cases hloss : n ∈ losses past
      · simp [hloss]
      · simp [hloss]
    simp [Conditions.yields, hthere, sweeping]
  · rw [exchanges_append, counted_append, counted_eq_zero (hnever _ (by decide)), Nat.zero_add,
      erased_append, herased, List.nil_append]
    exact h.counted
  · rw [exchanges_append, calls_append, calls_eq_nil (hnever _ (by decide)), List.nil_append]
    refine h.calls.trans (.of_eq ?_)
    congr 1
    refine List.filter_congr fun n _ ↦ ?_
    rw [spoil?_sweeping hfault, removalFailure, Option.isNone_map]
  · rw [hresult, Failure.summary_eq_ok_iff, filterMap_removalFailure_eq_nil_iff]
  · have hremovalsOnly : ∀ e ∈ exchanges future, e.request.kind ≠ .findNodes := fun e he heq ↦ by
      have hkind := h.kinds e he
      simp [heq] at hkind
    rw [exchanges_append, lookups_append, hlookups, lookups_eq_nil hremovalsOnly, List.append_nil]

/-- Whatever fails, and whatever records without a node somebody else removes once they are listed,
a sweep comes to its end, and tries each record without a node once. -/
theorem sweep_is_exact (hkeyed : Keyed w) (hnamed : Pass.Named w.nodes)
    (hfault : ∀ n f, fault n = some f → f.isNotFound = false) (hlate : Late events)
    (hcourse : Course (sweeping fault) ⟨w, Record.sweep clusterId pageSize parallelism⟩ events s) :
    Inevitable (Moves (sweeping fault)) (fun t ↦ ∃ v, t.rest.Ended v) s ∧
      ∀ v, s.rest.Ended v → Swept fault clusterId w events s.world v := by
  refine ⟨inevitable_ended_of_acc (acc_of_course (acc_sweep w) hcourse), fun v hended ↦ ?_⟩
  obtain ⟨past, future, w', rfl, hasked, hpast, hfuture⟩ := exists_named_of_course
    onlyDrops_sweeping.drops (fun _ ↦ rfl) hkeyed hlate hcourse hended
  have hreads : ∀ e ∈ exchanges past, e.request.kind ∈ surveyKinds := fun e he ↦ by
    simp [hasked e he]
  have hlisted : lookups (exchanges past) = [] := lookups_eq_nil fun e he ↦ by simp [hasked e he]
  cases hkeys : w.store.records.keys with
  | nil =>
    have horphans : orphans w = [] := by rw [orphans, hkeys, List.filter_nil]
    rw [hkeys] at hpast hfuture
    obtain ⟨hrest, hnothing⟩ := hfuture.of_done
    rw [hrest] at hended
    cases hended
    have hremoved : Removed (sweeping fault) clusterId (orphans w) w' future s.world := by
      rw [horphans]
      refine ⟨fun n ↦ ?_, ?_, ?_, ?_, ?_, ?_⟩
      · rw [record?_of_course onlyDrops_sweeping (by simp [hnothing]) hfuture n]
        simp
      all_goals simp [hnothing]
    refine swept_of_removed hremoved hfault hpast hfuture hreads ?_ ?_
    · rw [hlisted, if_pos hkeys]
    · rw [horphans]
      rfl
  | cons name names =>
    rw [hkeys] at hpast hfuture
    obtain ⟨past', future', between, nodes, rfl, hfound, hnodes, hpast', hfuture'⟩ :=
      exists_found_of_course onlyDrops_sweeping rfl hfuture hended
    rw [(cluster_eq_of_course onlyDrops_sweeping.drops hpast).1] at hnodes
    have horphans : Node.missingNames (name :: names) nodes = orphans w := by
      rw [hnamed.missingNames_eq hnodes, orphans, hkeys]
    have hbatch : Course (sweeping fault)
        ⟨between, Record.deleteOrphans clusterId parallelism (orphans w)⟩ future' s := by
      rw [← horphans]
      exact hfuture'
    obtain ⟨results, hremoved, htold, hv⟩ := exists_removed_of_course onlyDrops_sweeping
      (w.store.records.nodup_keys.filter _) hbatch hended
    rw [← List.append_assoc]
    refine swept_of_removed hremoved hfault (hpast.append hpast') hfuture' ?_ ?_ ?_
    · rw [exchanges_append, hfound, List.forall_mem_append]
      exact ⟨hreads, by simp [Request.kind]⟩
    · rw [exchanges_append, hfound, lookups_append, hlisted, hkeys, if_neg (List.cons_ne_nil _ _)]
      rfl
    · rw [hv, Failure.join_eq_summary, List.filterMap_map]
      congr 1
      exact List.filterMap_congr fun n hn ↦ (htold n hn).trans (spoil?_sweeping hfault)

/-- The records of four nodes, of which only "a" still lives. -/
def fourRecords : World where
  store := ["a", "b", "c", "d"].foldl (fun s n ↦ s.put (.ofSpec { nodeName := n })) Store.empty
  nodes := World.nodesOf [{
    ownName := some "a"
    labels := .ofList [(Node.hostnameLabel, "a")] }]

/-- The record of "b" cannot be removed. -/
def stuck : String → Option Failure
  | "b" => some (.plain "timeout")
  | _ => none

/-- Somebody else removes the record of "c" while the nodes are looked up. -/
theorem stuck_record_outlives_sweep :
    ∃ events s, Course (sweeping stuck) ⟨fourRecords, Record.sweep "k" 3 0⟩ events s ∧
      (∃ v, s.rest.Ended v) ∧ losses events = ["c"] ∧
      s.world.store.records.keys = ["a", "b"] ∧
      calls (exchanges events) = [.delete ⟨"c", "k"⟩, .delete ⟨"d", "k"⟩] ∧
      Inevitable (Moves (sweeping stuck)) (fun t ↦ ∃ v, t.rest.Ended v) s ∧
      ∀ v, s.rest.Ended v → Swept stuck "k" fourRecords events s.world v := by
  have hkeyed : Keyed fourRecords := .of_forall_mem (by decide +kernel)
  have hnamed : Pass.Named fourRecords.nodes := .of_forall_mem (by decide +kernel)
  have hfault : ∀ n f, stuck n = some f → f.isNotFound = false := by
    intro n f hf
    unfold stuck at hf
    split at hf
    · cases hf
      rfl
    · cases hf
  let fleet : Fleet.Call → Result Fleet.Response := fun _ ↦ .error (.plain "unreachable")
  have hfleet : ∀ call, (sweeping stuck).fleet call (fleet call) := fun _ ↦ trivial
  let listed := advance (sweeping stuck) fleet 2 ⟨fourRecords, Record.sweep "k" 3 0⟩
  let left : Scene (Result Unit) := ⟨Change.apply listed.2.world (.drop "c"), listed.2.rest⟩
  let done := advance (sweeping stuck) fleet 20 left
  have hdrop : Step (sweeping stuck) listed.2 (.other (.drop "c")) left :=
    .other ⟨"c", rfl, by decide +kernel⟩
  have hcourse : Course (sweeping stuck) ⟨fourRecords, Record.sweep "k" 3 0⟩
      (listed.1 ++ ([.other (.drop "c")] ++ done.1)) done.2 :=
    (course_advance hfleet 2 _).append
      ((Run.nil.snoc hdrop).append (course_advance hfleet 20 _))
  have hlate : Late (listed.1 ++ ([.other (.drop "c")] ++ done.1)) := by
    have hnone : Late ([] ++ listed.1) := .append (by rintro (_ | _) _ _ ⟨⟩) (by decide +kernel)
    exact hnone.append (by decide +kernel)
  exact ⟨_, _, hcourse, exists_ended_of_isLeft (by decide +kernel), by decide +kernel,
    by decide +kernel, by decide +kernel, sweep_is_exact hkeyed hnamed hfault hlate hcourse⟩

end NodeInventory.Tour
