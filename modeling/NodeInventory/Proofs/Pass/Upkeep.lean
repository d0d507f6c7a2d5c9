import NodeInventory.Proofs.Pass.Care

/-!
# Bringing records up to date, and removing them

What those do who take care of a record. A node is refreshed by an action that ends with a record
which tells what the snapshot of the node tells (`meets_refresh`): it creates the record if there is
none, writes it if it differs, and else leaves it. It writes at most once, because a write of
somebody who is alone with a record meets no conflict.

In a quiet pass the record is up to date from the beginning, and the action asks for no change.
-/

namespace NodeInventory

open Simulation NodeInventory.Action

theorem Action.meets_of_ignores {σ α : Type} {c : Contract σ} {s : σ} {x : Action α}
    (hx : x.Asks (c.Ignores s)) : x.Meets c (fun t _ ↦ t = s) s := by
  induction x with
  | done a => rfl
  | ask r next ih =>
    refine ⟨hx.1.1, fun a t hat ↦ ?_⟩
    rw [hx.1.2 a t hat]
    exact ih a (hx.2 a)

namespace Pass

variable {quiet : Prop} {name : String} {pods : List Pod} {s : Option Record} {spec : Spec}

/-- The record is there and tells what a snapshot tells. -/
def Current (spec : Spec) (s : Option Record) : Prop :=
  ∃ x, s = some x ∧ x.spec.status = spec.status ∧ x.spec.resources = spec.resources

theorem ignores_note {r : Request} (hr : r.kind ∈ [.count, .report, .pause]) :
    (care quiet pods name).Ignores s r := by
  refine ⟨.note s hr, fun a t hat ↦ ?_⟩
  cases hat with
  | other => rfl
  | _ => simp [Request.kind] at hr

theorem meets_tell (hquiet : ¬quiet) (source : Report.Source) (subject : String)
    (call : Fleet.Call) :
    (Fleet.tell source subject call).Meets (care quiet pods name) (fun t _ ↦ t = s) s := by
  refine meets_of_ignores ((Fleet.within_tell source subject call).imp fun r hr ↦ ?_)
  cases r with
  | callFleet call =>
    refine ⟨.tell s call hquiet, fun a t hat ↦ ?_⟩
    cases hat
    rfl
  | count | report => exact ignores_note (by simp [Request.kind])
  | _ => simp [Request.kind] at hr

theorem meets_fetch {α : Type} {post : Option Record → α → Prop}
    {f : Result (Option Record) → Action α}
    (hf : (f (.ok s)).Meets (care quiet pods name) post s) :
    (Record.fetch name >>= f).Meets (care quiet pods name) post s := by
  refine Meets.bind (meets_ask_bind (.fetch s) fun a t hat ↦ ?_)
  cases hat with
  | fetched => exact hf
  | other _ hr => simp [Request.kind] at hr

theorem meets_register (hquiet : ¬quiet) (clusterId subject : String) (snapshot : Spec)
    (outcome : Reconciliation) :
    (Record.register clusterId subject snapshot outcome).Meets (care quiet pods name)
      (fun t _ ↦ t = s) s := by
  refine Meets.bind ((meets_tell hquiet _ _ _).imp fun t _ ht ↦ ?_)
  exact ht

theorem meets_create (hquiet : ¬quiet) (clusterId : String) (hname : spec.nodeName = name) :
    (Record.create clusterId spec).Meets (care quiet pods name)
      (fun t _ ↦ Current spec t) none := by
  subst hname
  refine meets_fetch ?_
  refine meets_ask_bind (.create hquiet rfl rfl) fun a t hat ↦ ?_
  cases hat with
  | other _ hr => simp [Request.kind] at hr
  | created _ version =>
    refine meets_ask_bind (.note _ (by simp [Request.kind])) fun a t hat ↦ ?_
    cases hat with
    | other =>
      refine (meets_register hquiet _ _ _ _).imp fun t _ ht ↦ ?_
      rw [ht]
      exact ⟨_, rfl, rfl, rfl⟩

theorem meets_attempt (clusterId : String) (hname : spec.nodeName = name) (hs : Proper name s)
    (hquiet : quiet → Current spec s) (onConflict : Failure → Action (Result Reconciliation)) :
    (Record.attempt clusterId spec onConflict).Meets (care quiet pods name)
      (fun t _ ↦ Current spec t) s := by
  subst hname
  refine meets_fetch ?_
  cases s with
  | none =>
    have hchange : ¬quiet := fun hq ↦ by
      obtain ⟨x, hx, -⟩ := hquiet hq
      cases hx
    exact meets_create hchange clusterId rfl
  | some x =>
    obtain ⟨hxname, hxnode, version, hversion⟩ := hs x rfl
    cases hneeds : Record.needsUpdate x.spec spec with
    | false =>
      simp only [hneeds, Bool.not_false, if_true]
      exact ⟨x, rfl, Record.needsUpdate_eq_false_iff.mp hneeds⟩
    | true =>
      have hchange : ¬quiet := fun hq ↦ by
        obtain ⟨y, hy, hcurrent⟩ := hquiet hq
        cases hy
        rw [Record.needsUpdate_eq_false_iff.mpr hcurrent] at hneeds
        cases hneeds
      simp only [hneeds, Bool.not_true, Bool.false_eq_true,
        if_false, hversion]
      refine meets_ask_bind (.update hchange hxname rfl hversion) fun a t hat ↦ ?_
      cases hat with
      | other _ hr => simp [Request.kind] at hr
      | updated _ _ _ version' =>
        refine meets_ask_bind (.note _ (by simp [Request.kind])) fun a t hat ↦ ?_
        cases hat with
        | other =>
          refine Meets.bind ((meets_tell hchange _ _ _).imp fun t _ ht ↦ ?_)
          rw [ht]
          exact ⟨_, rfl, rfl, rfl⟩

theorem meets_reconcile (clusterId : String) (retry : RetryPolicy) (hname : spec.nodeName = name)
    (hs : Proper name s) (hquiet : quiet → Current spec s) :
    (Record.reconcile clusterId retry spec).Meets (care quiet pods name)
      (fun t _ ↦ Current spec t) s := by
  unfold Record.reconcile
  cases retry.attempts - 1 with
  | zero => exact meets_attempt clusterId hname hs hquiet _
  | succ left => exact meets_attempt clusterId hname hs hquiet _

theorem meets_snapshot (d : Duties) {node : Node} :
    (d.snapshot node).Meets (care quiet pods node.name)
      (fun t answer ↦ t = s ∧ answer = Snapshot.build node pods d.tracked) s := by
  refine meets_ask_bind (.pods s) fun a t hat ↦ ?_
  cases hat with
  | other _ hr => simp [Request.kind] at hr
  | pods => exact ⟨rfl, rfl⟩

/-- Who refreshes a node brings its record up to date. -/
theorem meets_refresh (d : Duties) {node : Node}
    (hbuild : Snapshot.build node pods d.tracked = .exact (.ok spec)) (hs : Proper node.name s)
    (hquiet : quiet → Current spec s) :
    (d.refresh node).Meets (care quiet pods node.name) (fun t _ ↦ Current spec t) s := by
  refine Meets.bind ((meets_snapshot d).imp fun t answer hsnapshot ↦ ?_)
  obtain ⟨rfl, rfl⟩ := hsnapshot
  have hname : spec.nodeName = node.name := Snapshot.nodeName_of_build hbuild
  rw [hbuild]
  exact Meets.bind (meets_reconcile d.clusterId d.retry hname hs hquiet)

theorem meets_deleteOrphan (hquiet : ¬quiet) (clusterId name : String) (x : Record) :
    (Record.deleteOrphan clusterId name).Meets (care quiet pods name) (fun t _ ↦ t = none)
      (some x) := by
  refine meets_ask_bind (.delete x hquiet) fun a t hat ↦ ?_
  cases hat with
  | other _ hr => simp [Request.kind] at hr
  | deleted =>
    refine meets_ask_bind (.note _ (by simp [Request.kind])) fun a t hat ↦ ?_
    cases hat with
    | other => exact Meets.bind ((meets_tell hquiet _ _ _).imp fun t _ ht ↦ ht)

end Pass

end NodeInventory
