import NodeInventory.Proofs.Metrics.Balance
import NodeInventory.Proofs.Tour.System

/-!
# What is counted of the store

Some answers of the store are *due* to be counted: that a record was created, updated or removed,
and that an update met a conflict (`Exchange.due?`). Nothing else is counted under the same names:
that a record was there already when it was to be created, or was gone already when it was to be
removed, is not.

An exchange is entered against a counter with minus one if it is due there, and with one if it
counts (`Exchange.entry`). All that the operator does settles from nothing, for each of these
counters (`Errand.settles`): it counts each answer that is due, once, right after it has come.
-/

namespace NodeInventory

open NodeInventory.Action

/-- Whether an update was refused with a conflict. -/
def Exchange.isConflict : Exchange → Bool
  | ⟨.updateRecord _ _, answer⟩ =>
    match (answer : Result Unit) with
    | .ok () => false
    | .error f => f.isConflict
  | _ => false

/-- The counter of the store that is due after an exchange. -/
def Exchange.due? : Exchange → Option Counter
  | ⟨.createRecord _, answer⟩ =>
    match (answer : Result Unit) with
    | .ok () => some .recordsCreated
    | .error _ => none
  | ⟨.updateRecord _ _, answer⟩ =>
    match (answer : Result Unit) with
    | .ok () => some .recordsUpdated
    | .error f => if f.isConflict then some .updateConflicts else none
  | ⟨.deleteRecord _, answer⟩ =>
    match (answer : Result Unit) with
    | .ok () => some .recordsDeleted
    | .error _ => none
  | _ => none

/-- The counters of the store. -/
def Counter.ofStore : List Counter :=
  [.recordsCreated, .recordsUpdated, .recordsDeleted, .updateConflicts]

namespace Metrics

variable {α : Type} {c c' : Counter} {r : Request} {n : ℤ} {clusterId : String}

/-- What an exchange adds to a counter, less what is due there. -/
def entry (c : Counter) (e : Exchange) : ℤ :=
  (if e.request.counts c then 1 else 0) - if e.due? = some c then 1 else 0

theorem entry_of_kind {a : r.Answer}
    (hr : r.kind ∉ [.createRecord, .updateRecord, .deleteRecord, .count]) : entry c ⟨r, a⟩ = 0 := by
  cases r with
  | createRecord | updateRecord | deleteRecord | count => simp [Request.kind] at hr
  | _ => simp [entry, Request.counts, Exchange.due?]

theorem entry_count_of_notMem {a : (Request.count c').Answer} (hc : c ∈ Counter.ofStore)
    (hc' : c' ∉ Counter.ofStore) : entry c ⟨.count c', a⟩ = 0 := by
  have hne : c' ≠ c := (ne_of_mem_of_not_mem hc hc').symm
  simp [entry, Request.counts, Exchange.due?, hne]

theorem entry_of_due_eq_none {a : r.Answer} (hr : r.isWrite) (hdue : Exchange.due? ⟨r, a⟩ = none) :
    entry c ⟨r, a⟩ = 0 := by
  cases r with
  | createRecord | updateRecord | deleteRecord => simp [entry, Request.counts, hdue]
  | _ => cases hr

theorem entry_add_entry_count {a : r.Answer} {a' : (Request.count c').Answer} (hr : r.isWrite)
    (hdue : Exchange.due? ⟨r, a⟩ = some c') : entry c ⟨r, a⟩ + entry c ⟨.count c', a'⟩ = 0 := by
  have hcount : Exchange.due? ⟨.count c', a'⟩ = none := rfl
  cases r with
  | createRecord | updateRecord | deleteRecord =>
    by_cases hc : c' = c <;> simp [entry, Request.counts, hdue, hcount, hc]
  | _ => cases hr

/-! ## Actions -/

theorem settles_count {a : r.Answer} {f : Unit → Action α} (hr : r.isWrite)
    (hdue : Exchange.due? ⟨r, a⟩ = some c') (hf : (f ()).Settles (entry c) 0) :
    (count c' >>= f).Settles (entry c) (0 + entry c ⟨r, a⟩) := by
  intro a'
  rw [add_assoc, entry_add_entry_count hr hdue]
  exact hf

theorem settles_of_within {kinds : List Request.Kind} {x : Action α} (hx : x.Within kinds)
    (hkinds : ∀ k ∈ kinds, k ∉ [.createRecord, .updateRecord, .deleteRecord, Request.Kind.count]) :
    x.Settles (entry c) 0 :=
  settles_of_asks (hx.imp fun _ hr _ ↦ entry_of_kind (hkinds _ hr))

variable (hc : c ∈ Counter.ofStore)
include hc

theorem settles_tell (source : Report.Source) (subject : String) (call : Fleet.Call) :
    (Fleet.tell source subject call).Settles (entry c) 0 := by
  refine settles_bind (settles_ask_bind (fun a ↦ entry_of_kind (by simp [Request.kind])) fun a ↦ ?_)
    fun result ↦ settles_of_within (within_reportFailure _ _ _) (by decide)
  split
  · rfl
  · exact settles_ask_bind (fun a ↦ entry_count_of_notMem hc (by decide)) fun _ ↦ rfl

theorem settles_register (name : String) (spec : Spec) (outcome : Reconciliation) :
    (Record.register clusterId name spec outcome).Settles (entry c) 0 :=
  settles_bind (settles_tell hc _ _ _) fun _ ↦ rfl

theorem settles_create (spec : Spec) : (Record.create clusterId spec).Settles (entry c) 0 := by
  refine settles_bind (settles_of_within (Record.within_fetch _) (by decide)) fun found ↦ ?_
  obtain f | _ | x := found
  · rfl
  · intro (answer : Result Unit)
    obtain f | _ := answer
    · refine Settles.add ?_ (entry_of_due_eq_none rfl rfl)
      change (ite _ _ _ : Action _).Settles _ _
      split
      · exact settles_register hc _ _ _
      · rfl
    · exact settles_count rfl rfl (settles_register hc _ _ _)
  · exact settles_register hc _ _ _

theorem settles_attempt (spec : Spec) {onConflict : Failure → Action (Result Reconciliation)}
    (hconflict : ∀ f, (onConflict f).Settles (entry c) 0) :
    (Record.attempt clusterId spec onConflict).Settles (entry c) 0 := by
  refine settles_bind (settles_of_within (Record.within_fetch _) (by decide)) fun found ↦ ?_
  obtain f | _ | x := found
  · rfl
  · exact settles_create hc _
  · change (ite _ _ _ : Action _).Settles _ _
    split
    · rfl
    · split
      · rfl
      · intro (answer : Result Unit)
        obtain f | _ := answer
        · change (ite _ _ _ : Action _).Settles _ _
          split
          · next hf => exact settles_count rfl (if_pos hf) (hconflict f)
          · next hf =>
            exact Settles.add rfl (entry_of_due_eq_none rfl (if_neg hf))
        · exact settles_count rfl rfl (settles_bind (settles_tell hc _ _ _) fun _ ↦ rfl)

theorem settles_reconcile (retry : RetryPolicy) (spec : Spec) :
    (Record.reconcile clusterId retry spec).Settles (entry c) 0 := by
  suffices ∀ left made,
      (Record.reconcileAfter clusterId retry.delay spec left made).Settles (entry c) 0 from
    this _ _
  intro left
  induction left with
  | zero => exact fun made ↦ settles_attempt hc spec fun _ ↦ rfl
  | succ left ih =>
    exact fun made ↦ settles_attempt hc spec fun _ ↦
      settles_ask_bind (fun _ ↦ entry_of_kind (by simp [Request.kind])) fun _ ↦ ih _

theorem settles_deleteOrphan (name : String) :
    (Record.deleteOrphan clusterId name).Settles (entry c) 0 := by
  have htell : (Fleet.tell .collector name (.delete ⟨name, clusterId⟩)).Settles (entry c) 0 :=
    settles_tell hc _ _ _
  intro (answer : Result Unit)
  obtain f | _ := answer
  · refine Settles.add ?_ (entry_of_due_eq_none rfl rfl)
    change (ite _ _ _ : Action _).Settles _ _
    split
    · exact settles_bind htell fun _ ↦ rfl
    · rfl
  · exact settles_count rfl rfl (settles_bind htell fun _ ↦ rfl)

theorem settles_heartbeat (name : String) :
    (Record.heartbeat clusterId name).Settles (entry c) 0 := by
  have hask : (Record.askFleet clusterId name).Settles (entry c) 0 := by
    refine settles_bind (settles_ask_bind (fun a ↦ entry_of_kind (by simp [Request.kind]))
      fun a ↦ ?_) fun _ ↦ rfl
    split
    · rfl
    · exact settles_ask_bind (fun a ↦ entry_count_of_notMem hc (by decide)) fun _ ↦ rfl
  refine settles_bind hask fun code ↦ ?_
  cases code with
  | error f => rfl
  | ok code =>
    change (ite _ _ _ : Action _).Settles _ _
    split
    · rfl
    · refine settles_bind (settles_of_within (Record.within_fetch _) (by decide)) fun found ↦ ?_
      obtain f | _ | x := found
      · rfl
      · rfl
      · exact settles_ask_bind (fun a ↦ entry_count_of_notMem hc (by decide)) fun _ ↦
          settles_bind (settles_create hc _) fun _ ↦ rfl

theorem settles_refresh (d : Duties) (node : Node) : (d.refresh node).Settles (entry c) 0 := by
  have hsnapshot : (d.snapshot node).Settles (entry c) 0 := by
    refine settles_ask_bind (fun a ↦ entry_of_kind (by simp [Request.kind])) fun answer ↦ ?_
    split <;> rfl
  refine settles_bind hsnapshot fun built ↦ ?_
  obtain (f | spec) | _ := built
  · rfl
  · exact settles_bind (settles_reconcile hc _ _) fun _ ↦ rfl
  · rfl

/-! ## Programs -/

omit hc in
theorem settles_listNames_bind {pageSize : ℕ} {f : Result (List String) → Program α}
    (hf : ∀ answer, (f answer).Settles (entry c) 0) :
    (Record.listNames pageSize >>= f).Settles (entry c) 0 := by
  refine Program.Settles.bind ⟨rfl, fun s (answer : Result (Page Record)) ↦ ?_, fun _ ↦ rfl⟩ hf
  have hlist : entry c ⟨.listRecords s.1 pageSize, answer⟩ = 0 :=
    entry_of_kind (by simp [Request.kind])
  cases answer with
  | error f => exact hlist
  | ok page =>
    rw [Record.collectNames]
    split <;> exact hlist

theorem settles_deleteOrphans (parallelism : Int) (names : List String) :
    (Record.deleteOrphans clusterId parallelism names).Settles (entry c) 0 := by
  refine Program.settles_joined fun x hx ↦ ?_
  obtain ⟨name, -, rfl⟩ := List.mem_map.mp hx
  exact settles_deleteOrphan hc name

theorem settles_sweep (pageSize : ℕ) (parallelism : Int) :
    (Record.sweep clusterId pageSize parallelism).Settles (entry c) 0 := by
  refine settles_listNames_bind fun answer ↦ ?_
  obtain f | _ | ⟨name, names⟩ := answer
  · rfl
  · rfl
  · refine Program.settles_ask (fun a ↦ entry_of_kind (by simp [Request.kind])) fun
      (answer : Result (List Node)) ↦ ?_
    cases answer with
    | error f => rfl
    | ok live => exact settles_deleteOrphans hc _ _

theorem settles_beat (pageSize : ℕ) (parallelism : Int) :
    (Record.beat clusterId pageSize parallelism).Settles (entry c) 0 := by
  refine settles_listNames_bind fun answer ↦ ?_
  cases answer with
  | error f => rfl
  | ok names =>
    refine Program.settles_joined fun x hx ↦ ?_
    obtain ⟨name, -, rfl⟩ := List.mem_map.mp hx
    exact settles_heartbeat hc name

theorem settles_handleNodeBatch (d : Duties) (names : List String) :
    (d.handleNodeBatch names).Settles (entry c) 0 := by
  refine Program.settles_ask (fun a ↦ entry_of_kind (by simp [Request.kind])) fun
    (answer : Result (List Node)) ↦ ?_
  cases answer with
  | error f => rfl
  | ok nodes =>
    refine ⟨allSettle_of_forall fun x hx ↦ ?_, fun results ↦ ?_⟩
    · obtain ⟨node, -, rfl⟩ := List.mem_map.mp hx
      exact settles_refresh hc d node
    · split
      · rfl
      · exact (settles_deleteOrphans hc _ _).bind fun _ ↦ rfl

theorem settles_dispatch (d : Duties) (raw : String) :
    (Task.dispatch d.handlers raw).Settles (entry c) 0 := by
  unfold Task.dispatch
  split
  · rfl
  · next task _ =>
    obtain ⟨names⟩ := task
    exact (settles_handleNodeBatch hc d names).bind fun _ ↦ rfl

omit hc

/-! ## Errands -/

/-- What the operator does to records. -/
inductive Errand
  | reconcile (clusterId : String) (retry : RetryPolicy) (spec : Spec)
  | create (clusterId : String) (spec : Spec)
  | deleteOrphans (clusterId : String) (parallelism : Int) (names : List String)
  | sweep (clusterId : String) (pageSize : ℕ) (parallelism : Int)
  /-- To work off a queued task. -/
  | task (d : Duties) (raw : String)
  | heartbeat (clusterId : String) (pageSize : ℕ) (parallelism : Int)

/-- How it is done. -/
def Errand.program : Errand → Program (Result Unit)
  | reconcile clusterId retry spec => .ofAction do
    let outcome ← Record.reconcile clusterId retry spec
    pure (outcome.map fun _ ↦ ())
  | create clusterId spec => .ofAction do
    let outcome ← Record.create clusterId spec
    pure (outcome.map fun _ ↦ ())
  | deleteOrphans clusterId parallelism names => Record.deleteOrphans clusterId parallelism names
  | sweep clusterId pageSize parallelism => Record.sweep clusterId pageSize parallelism
  | task d raw => Task.dispatch d.handlers raw
  | heartbeat clusterId pageSize parallelism => Record.beat clusterId pageSize parallelism

/-- Whatever the operator does, it counts what is due of the store. -/
theorem Errand.settles (hc : c ∈ Counter.ofStore) (errand : Errand) :
    errand.program.Settles (entry c) 0 := by
  cases errand with
  | reconcile clusterId retry spec =>
    exact Program.settles_ofAction (settles_bind (settles_reconcile hc _ _) fun _ ↦ rfl)
  | create clusterId spec =>
    exact Program.settles_ofAction (settles_bind (settles_create hc _) fun _ ↦ rfl)
  | deleteOrphans clusterId parallelism names => exact settles_deleteOrphans hc _ _
  | sweep clusterId pageSize parallelism => exact settles_sweep hc _ _
  | task d raw => exact settles_dispatch hc d raw
  | heartbeat clusterId pageSize parallelism => exact settles_beat hc _ _

end Metrics

end NodeInventory
