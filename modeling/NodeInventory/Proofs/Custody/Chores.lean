import NodeInventory.Proofs.Snapshot
import NodeInventory.Proofs.Writers.Hall

/-!
# What the operator writes

A record is in order if it is stored under the name of its node, bears that name itself, and
accounts for tracked resources only. The operator writes records in three places. It creates one
from a snapshot, it creates one again from the spec of a record that it has read, and it writes a
record that it has read back with a snapshot for a spec. In each of them what it writes is in order
if what it has read is (`MayWrite`).

All chores of the operator write in this way and in no other (`Chore.heeds`).
-/

namespace NodeInventory

/-- The record is stored under the name that it bears and that its node has, and accounts for
tracked resources only. -/
structure Record.InOrder (tracked : List String) (name : String) (x : Record) : Prop where
  named : x.metadata.name = some name
  node : x.spec.nodeName = name
  accounts : x.spec.resources.keys ⊆ tracked

namespace Custody

open NodeInventory.Action Writers

variable {tracked : List String} {seen seen' : List Exchange} {spec : Spec} {r : Request}

/-! ## What may be written -/

/-- The records that were read are in order. -/
def Reliable (tracked : List String) (seen : List Exchange) : Prop :=
  ∀ name x, ⟨.fetchRecord name, .ok (some x)⟩ ∈ seen → x.InOrder tracked name

theorem Reliable.mono (h : Reliable tracked seen') (hsub : seen ⊆ seen') : Reliable tracked seen :=
  fun name x hread ↦ h name x (hsub hread)

/-- What may be written after what was seen: a new record that accounts for tracked resources only,
if what was read can be relied on; and a record that was read, with another spec, under the version
that was read. -/
def MayWrite (tracked : List String) (seen : List Exchange) : Request → Prop
  | .createRecord r => Reliable tracked seen →
    ∃ spec : Spec, spec.resources.keys ⊆ tracked ∧ r = .ofSpec spec
  | .updateRecord r version => ∃ (x : Record) (spec : Spec),
    ⟨.fetchRecord spec.nodeName, .ok (some x)⟩ ∈ seen ∧
      x.metadata.resourceVersion = some version ∧ spec.resources.keys ⊆ tracked ∧
        r = { x with spec }
  | _ => True

theorem lasting_mayWrite : Lasting (MayWrite tracked) := by
  intro seen seen' r hsub h
  cases r with
  | createRecord r => exact fun hreliable ↦ h (hreliable.mono hsub.subset)
  | updateRecord r version =>
    obtain ⟨x, spec, hread, hrest⟩ := h
    exact ⟨x, spec, hsub.subset hread, hrest⟩
  | _ => trivial

theorem mayWrite_of_kind (hr : r.kind ∉ [.createRecord, .updateRecord]) :
    MayWrite tracked seen r := by
  cases r with
  | createRecord | updateRecord => simp [Request.kind] at hr
  | _ => trivial

/-- To write nothing but what may be written. -/
abbrev Writes {α : Type} (tracked : List String) (x : Action α) (seen : List Exchange) : Prop :=
  x.Meets (testifying (MayWrite tracked)) (fun _ _ ↦ True) seen

theorem writes_of_within {α : Type} {kinds : List Request.Kind} {x : Action α}
    (h : x.Within kinds) (hkinds : ∀ k ∈ kinds, k ∉ [Request.Kind.createRecord, .updateRecord]) :
    Writes tracked x seen :=
  h.meets (fun _ _ hr ↦ mayWrite_of_kind (hkinds _ hr)) _

/-! ## Actions -/

variable {clusterId : String}

theorem writes_register (name : String) (spec : Spec) (outcome : Reconciliation) :
    Writes tracked (Record.register clusterId name spec outcome) seen :=
  writes_of_within (Record.within_register _ _ _ _) (by decide)

/-- Creating a record of a spec writes what may be written, if the spec accounts for tracked
resources only or was read. -/
theorem writes_create (hspec : Reliable tracked seen → spec.resources.keys ⊆ tracked) :
    Writes tracked (Record.create clusterId spec) seen := by
  refine .bind (meets_ask_seen trivial fun (answer : Result (Option Record)) ↦ ?_)
  obtain f | _ | x := answer
  · trivial
  · refine meets_ask_seen (fun hreliable ↦ ⟨spec, hspec (hreliable.mono (by simp)), rfl⟩) fun
      (answer : Result Unit) ↦ ?_
    obtain f | _ := answer
    · change (ite _ _ _ : Action _).Meets _ _ _
      split
      · exact writes_register _ _ _
      · trivial
    · exact meets_ask_seen trivial fun _ ↦ writes_register _ _ _
  · exact writes_register _ _ _

theorem writes_attempt (hspec : spec.resources.keys ⊆ tracked)
    {onConflict : Failure → Action (Result Reconciliation)}
    (hconflict : ∀ f seen, Writes tracked (onConflict f) seen) :
    Writes tracked (Record.attempt clusterId spec onConflict) seen := by
  refine .bind (meets_ask_seen trivial fun (answer : Result (Option Record)) ↦ ?_)
  obtain f | _ | x := answer
  · trivial
  · exact writes_create fun _ ↦ hspec
  · change (ite _ _ _ : Action _).Meets _ _ _
    split
    · trivial
    · split
      · trivial
      · next version hversion =>
        refine meets_ask_seen ⟨x, spec, by simp, hversion, hspec, rfl⟩ fun
          (answer : Result Unit) ↦ ?_
        obtain f | _ := answer
        · change (ite _ _ _ : Action _).Meets _ _ _
          split
          · exact meets_ask_seen trivial fun _ ↦ hconflict _ _
          · trivial
        · refine meets_ask_seen trivial fun _ ↦ .bind ?_
          exact (writes_of_within (Fleet.within_tell _ _ _) (by decide)).imp fun _ _ _ ↦ trivial

theorem writes_reconcile (retry : RetryPolicy) (hspec : spec.resources.keys ⊆ tracked) :
    Writes tracked (Record.reconcile clusterId retry spec) seen := by
  suffices ∀ left made seen,
      Writes tracked (Record.reconcileAfter clusterId retry.delay spec left made) seen from
    this _ _ _
  intro left
  induction left with
  | zero => exact fun made seen ↦ writes_attempt hspec fun _ _ ↦ trivial
  | succ left ih =>
    exact fun made seen ↦ writes_attempt hspec fun _ _ ↦ meets_ask_seen trivial fun _ ↦ ih _ _

theorem writes_heartbeat (name : String) :
    Writes tracked (Record.heartbeat clusterId name) seen := by
  refine .bind ((writes_of_within (Record.within_askFleet clusterId name) (by decide)).imp
    fun seen answer _ ↦ ?_)
  cases answer with
  | error f => trivial
  | ok code =>
    change (ite _ _ _ : Action _).Meets _ _ _
    split
    · trivial
    · refine .bind (meets_ask_seen trivial fun (answer : Result (Option Record)) ↦ ?_)
      obtain f | _ | x := answer
      · trivial
      · trivial
      · refine meets_ask_seen trivial fun _ ↦ .bind ?_
        refine (writes_create fun hreliable ↦ ?_).imp fun _ _ _ ↦ trivial
        exact (hreliable name x (by simp)).accounts

theorem meets_snapshot (d : Duties) (node : Node) :
    (d.snapshot node).Meets (testifying (MayWrite d.tracked))
      (fun _ result ↦ ∀ spec, result = .exact (.ok spec) → spec.resources.keys ⊆ d.tracked)
      seen := by
  refine meets_ask_seen trivial fun (answer : Result (List Pod)) ↦ ?_
  cases answer with
  | error f => exact fun spec hspec ↦ by cases hspec
  | ok pods => exact fun spec hspec ↦ Snapshot.keys_subset_of_build hspec

theorem writes_refresh (d : Duties) (node : Node) : Writes d.tracked (d.refresh node) seen := by
  refine .bind ((meets_snapshot d node).imp fun seen result hresult ↦ ?_)
  obtain (f | spec) | _ := result
  · trivial
  · exact .bind ((writes_reconcile _ (hresult spec rfl)).imp fun _ _ _ ↦ trivial)
  · trivial

/-! ## Programs -/

theorem heeds_deleteOrphans (parallelism : Int) (names : List String) :
    (Record.deleteOrphans clusterId parallelism names).Heeds (MayWrite tracked) seen := by
  refine Program.heeds_joined fun x hx ↦ ?_
  obtain ⟨name, -, rfl⟩ := List.mem_map.mp hx
  exact writes_of_within (Record.within_deleteOrphan _ _) (by decide)

theorem heeds_sweep (pageSize : ℕ) (parallelism : Int) :
    (Record.sweep clusterId pageSize parallelism).Heeds (MayWrite tracked) seen := by
  refine Record.heeds_listNames_bind (fun _ _ ↦ trivial) fun answer seen ↦ ?_
  obtain f | _ | ⟨name, names⟩ := answer
  · trivial
  · trivial
  · refine ⟨trivial, fun (answer : Result (List Node)) ↦ ?_⟩
    cases answer with
    | error f => trivial
    | ok live => exact heeds_deleteOrphans _ _

theorem heeds_beat (pageSize : ℕ) (parallelism : Int) :
    (Record.beat clusterId pageSize parallelism).Heeds (MayWrite tracked) seen := by
  refine Record.heeds_listNames_bind (fun _ _ ↦ trivial) fun answer seen ↦ ?_
  cases answer with
  | error f => trivial
  | ok names =>
    refine Program.heeds_joined fun x hx ↦ ?_
    obtain ⟨name, -, rfl⟩ := List.mem_map.mp hx
    exact writes_heartbeat name

theorem heeds_handleNodeBatch (d : Duties) (names : List String) :
    (d.handleNodeBatch names).Heeds (MayWrite d.tracked) seen := by
  refine ⟨trivial, fun (answer : Result (List Node)) ↦ ?_⟩
  cases answer with
  | error f => trivial
  | ok nodes =>
    refine ⟨fun x hx ↦ ?_, fun results seen ↦ ?_⟩
    · obtain ⟨node, -, rfl⟩ := List.mem_map.mp hx
      exact writes_refresh d node
    · split
      · trivial
      · exact ⟨(heeds_deleteOrphans d.parallelism _).1, fun _ _ ↦ trivial⟩

/-! ## Chores -/

/-- A snapshot, with the node and the pods of which it is one. -/
structure Shot (tracked : List String) where
  spec : Spec
  node : Node
  pods : List Pod
  built : Snapshot.build node pods tracked = .exact (.ok spec)

/-- What the operator does to records. -/
inductive Chore (d : Duties)
  | nodeBatch (names : List String)
  | reconcile (shot : Shot d.tracked)
  | create (shot : Shot d.tracked)
  | sweep
  | heartbeat

/-- How it is done. -/
def Chore.program {d : Duties} : Chore d → Program (Result Unit)
  | nodeBatch names => d.handleNodeBatch names
  | reconcile shot => .ofAction do
    let outcome ← Record.reconcile d.clusterId d.retry shot.spec
    pure (outcome.map fun _ ↦ ())
  | create shot => .ofAction do
    let outcome ← Record.create d.clusterId shot.spec
    pure (outcome.map fun _ ↦ ())
  | sweep => Record.sweep d.clusterId d.recordPageSize d.parallelism
  | heartbeat => Record.beat d.clusterId d.recordPageSize d.parallelism

/-- Every chore writes nothing but what may be written. -/
theorem Chore.heeds {d : Duties} (chore : Chore d) :
    chore.program.Heeds (MayWrite d.tracked) [] := by
  cases chore with
  | nodeBatch names => exact heeds_handleNodeBatch d names
  | reconcile shot =>
    refine Program.heeds_ofAction (.bind ((writes_reconcile _ ?_).imp fun _ _ _ ↦ trivial))
    exact Snapshot.keys_subset_of_build shot.built
  | create shot =>
    refine Program.heeds_ofAction (.bind ((writes_create fun _ ↦ ?_).imp fun _ _ _ ↦ trivial))
    exact Snapshot.keys_subset_of_build shot.built
  | sweep => exact heeds_sweep _ _
  | heartbeat => exact heeds_beat _ _

end Custody

end NodeInventory
