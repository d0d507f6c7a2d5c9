import Mathlib.Data.Nat.Notation
import NodeInventory.Proofs.Play

/-!
# The rounds of a reconciliation

Bringing a record in line with a snapshot goes in rounds. Each begins with a reading of the record.
A round is *lost* if the record is to be replaced and has changed since it was read (`Lost`), and
otherwise it *settles* what the reconciliation comes to (`Settled`). After a lost round comes a
pause and another round, if there is one left (`Rounds`).

These say all that can be exchanged, and in which order: whatever is answered, a reconciliation
leaves the log of such rounds behind (`rounds_of_plays`).
-/

namespace NodeInventory.Record

open NodeInventory.Action

variable {clusterId : String} {snapshot : Spec} {log rest : List Exchange}
  {result : Result Reconciliation}

/-! ## What is exchanged -/

/-- What is exchanged to tell the registry of a node. -/
abbrev Told (name : String) (call : Fleet.Call) (log : List Exchange) : Prop :=
  (Fleet.tell .reconciler name call).Plays log ()

/-- What is exchanged to see to it that there is a record, and what comes of it. -/
inductive Created (clusterId : String) (snapshot : Spec) :
    List Exchange → Result Reconciliation → Prop
  | unread (f : Failure) : Created clusterId snapshot [⟨.fetchRecord snapshot.nodeName, .error f⟩]
      (.error (.context "error fetching NodeResourceInfo" f))
  /-- There is a record already, and the node is registered as the record has it. -/
  | present (x : Record) {log : List Exchange}
    (h : Told snapshot.nodeName (.add (.ofSpec clusterId x.spec)) log) :
    Created clusterId snapshot (⟨.fetchRecord snapshot.nodeName, .ok (some x)⟩ :: log)
      (.ok .alreadyPresent)
  | created {log : List Exchange}
    (h : Told snapshot.nodeName (.add (.ofSpec clusterId snapshot)) log) :
    Created clusterId snapshot
      (⟨.fetchRecord snapshot.nodeName, .ok none⟩ :: ⟨.createRecord (ofSpec snapshot), .ok ()⟩ ::
        ⟨.count .recordsCreated, ()⟩ :: log)
      (.ok .created)
  /-- Somebody else stores the record after it was looked for. -/
  | forestalled {f : Failure} (hf : f.isAlreadyExists) {log : List Exchange}
    (h : Told snapshot.nodeName (.add (.ofSpec clusterId snapshot)) log) :
    Created clusterId snapshot
      (⟨.fetchRecord snapshot.nodeName, .ok none⟩ ::
        ⟨.createRecord (ofSpec snapshot), .error f⟩ :: log)
      (.ok .alreadyPresent)
  | refused {f : Failure} (hf : ¬ f.isAlreadyExists) :
    Created clusterId snapshot
      [⟨.fetchRecord snapshot.nodeName, .ok none⟩, ⟨.createRecord (ofSpec snapshot), .error f⟩]
      (.error (.context ("error creating NodeResourceInfo " ++ snapshot.nodeName) f))

theorem plays_fetch_bind {α : Type} {name : String} {f : Result (Option Record) → Action α}
    {a : α} : (fetch name >>= f).Plays log a ↔
      ∃ (answer : Result (Option Record)) (rest : List Exchange),
        log = ⟨.fetchRecord name, answer⟩ :: rest ∧
          (f (answer.within "error fetching NodeResourceInfo")).Plays rest a :=
  plays_ask_bind

theorem plays_register {name : String} {spec : Spec} {outcome : Reconciliation} :
    (register clusterId name spec outcome).Plays log result ↔
      Told name (.add (.ofSpec clusterId spec)) log ∧ result = .ok outcome := by
  rw [register, plays_bind]
  simp only [pure_eq, plays_done]
  constructor
  · rintro ⟨first, ⟨⟩, rest, rfl, h, rfl, rfl⟩
    rw [List.append_nil]
    exact ⟨h, rfl⟩
  · rintro ⟨h, rfl⟩
    exact ⟨log, (), [], (List.append_nil log).symm, h, rfl, rfl⟩

theorem created_of_plays (hplays : (create clusterId snapshot).Plays log result) :
    Created clusterId snapshot log result := by
  obtain ⟨found, rest, rfl, h⟩ := plays_fetch_bind.mp hplays
  obtain f | _ | x := found
  · obtain ⟨rfl, rfl⟩ := plays_done.mp h
    exact .unread f
  · obtain ⟨answer, rest, rfl, hstored⟩ := plays_ask_bind.mp h
    obtain f | ⟨⟩ := (answer : Result Unit)
    · dsimp only at hstored
      split at hstored
      · next hf =>
        obtain ⟨htold, rfl⟩ := plays_register.mp hstored
        exact .forestalled hf htold
      · next hf =>
        obtain ⟨rfl, rfl⟩ := plays_done.mp hstored
        exact .refused hf
    · obtain ⟨⟨⟩, rest, rfl, hcounted⟩ := plays_ask_bind.mp hstored
      obtain ⟨htold, rfl⟩ := plays_register.mp hcounted
      exact .created htold
  · obtain ⟨htold, rfl⟩ := plays_register.mp h
    exact .present x htold

/-! ## Rounds -/

/-- What is exchanged in a round that is lost, and the failure of its write. -/
inductive Lost (snapshot : Spec) : List Exchange → Failure → Prop
  | conflict {x : Record} {version : String} {f : Failure} (hx : needsUpdate x.spec snapshot)
    (hversion : x.metadata.resourceVersion = some version) (hf : f.isConflict) :
    Lost snapshot
      [⟨.fetchRecord snapshot.nodeName, .ok (some x)⟩,
        ⟨.updateRecord { x with spec := snapshot } version, .error f⟩,
        ⟨.count .updateConflicts, ()⟩]
      f

/-- What is exchanged in a round that settles what the reconciliation comes to. -/
inductive Settled (clusterId : String) (snapshot : Spec) :
    List Exchange → Result Reconciliation → Prop
  | unread (f : Failure) : Settled clusterId snapshot [⟨.fetchRecord snapshot.nodeName, .error f⟩]
      (.error (.context "error fetching NodeResourceInfo" f))
  | missing {log : List Exchange} {result : Result Reconciliation}
    (h : Created clusterId snapshot log result) :
    Settled clusterId snapshot (⟨.fetchRecord snapshot.nodeName, .ok none⟩ :: log) result
  | unchanged {x : Record} (hx : ¬ needsUpdate x.spec snapshot) :
    Settled clusterId snapshot [⟨.fetchRecord snapshot.nodeName, .ok (some x)⟩] (.ok .unchanged)
  | unversioned {x : Record} (hx : needsUpdate x.spec snapshot)
    (hversion : x.metadata.resourceVersion = none) :
    Settled clusterId snapshot [⟨.fetchRecord snapshot.nodeName, .ok (some x)⟩]
      (.error (.plain
        ("stored NodeResourceInfo " ++ snapshot.nodeName ++ " has no resource version")))
  | updated {x : Record} {version : String} {log : List Exchange}
    (hx : needsUpdate x.spec snapshot) (hversion : x.metadata.resourceVersion = some version)
    (h : Told snapshot.nodeName (.update (.ofSpec clusterId snapshot)) log) :
    Settled clusterId snapshot
      (⟨.fetchRecord snapshot.nodeName, .ok (some x)⟩ ::
        ⟨.updateRecord { x with spec := snapshot } version, .ok ()⟩ ::
        ⟨.count .recordsUpdated, ()⟩ :: log)
      (.ok .updated)
  | refused {x : Record} {version : String} {f : Failure} (hx : needsUpdate x.spec snapshot)
    (hversion : x.metadata.resourceVersion = some version) (hf : ¬ f.isConflict) :
    Settled clusterId snapshot
      [⟨.fetchRecord snapshot.nodeName, .ok (some x)⟩,
        ⟨.updateRecord { x with spec := snapshot } version, .error f⟩]
      (.error (.context ("error updating NodeResourceInfo " ++ snapshot.nodeName) f))

/-- However it is answered, an attempt settles the matter, or it is lost and goes on. -/
theorem settled_or_lost_of_plays {onConflict : Failure → Action (Result Reconciliation)}
    (hplays : (attempt clusterId snapshot onConflict).Plays log result) :
    Settled clusterId snapshot log result ∨
      ∃ first f rest, log = first ++ rest ∧ Lost snapshot first f ∧
        (onConflict f).Plays rest result := by
  obtain ⟨found, rest, rfl, h⟩ := plays_fetch_bind.mp hplays
  obtain f | _ | x := found
  · obtain ⟨rfl, rfl⟩ := plays_done.mp h
    exact .inl (.unread f)
  · exact .inl (.missing (created_of_plays h))
  · simp only [Result.within_ok] at h
    split at h
    · next hx =>
      obtain ⟨rfl, rfl⟩ := plays_done.mp h
      exact .inl (.unchanged (by simpa using hx))
    · next hx =>
      replace hx : needsUpdate x.spec snapshot := by simpa using hx
      split at h
      · next hversion =>
        obtain ⟨rfl, rfl⟩ := plays_done.mp h
        exact .inl (.unversioned hx hversion)
      · next version hversion =>
        obtain ⟨answer, rest, rfl, hwritten⟩ := plays_ask_bind.mp h
        obtain f | ⟨⟩ := (answer : Result Unit)
        · dsimp only at hwritten
          split at hwritten
          · next hf =>
            obtain ⟨⟨⟩, rest, rfl, hcounted⟩ := plays_ask_bind.mp hwritten
            exact .inr ⟨_, f, rest, rfl, .conflict hx hversion hf, hcounted⟩
          · next hf =>
            obtain ⟨rfl, rfl⟩ := plays_done.mp hwritten
            exact .inl (.refused hx hversion hf)
        · obtain ⟨⟨⟩, rest, rfl, hcounted⟩ := plays_ask_bind.mp hwritten
          obtain ⟨told, ⟨⟩, rest, rfl, htold, hdone⟩ := plays_bind.mp hcounted
          obtain ⟨rfl, rfl⟩ := plays_done.mp hdone
          rw [List.append_nil]
          exact .inl (.updated hx hversion htold)

/-- What a reconciliation comes to that gives up after so many attempts. -/
def surrender (snapshot : Spec) (attempts : ℕ) (f : Failure) : Result Reconciliation :=
  .error (.context ("giving up updating NodeResourceInfo " ++ snapshot.nodeName ++ " after " ++
    toString attempts ++ " attempts") f)

/-- What is exchanged in a round, if so many more may follow, and in those that do. -/
inductive Rounds (clusterId : String) (retry : RetryPolicy) (snapshot : Spec) :
    ℕ → List Exchange → Result Reconciliation → Prop
  | settled {left : ℕ} {log : List Exchange} {result : Result Reconciliation}
    (h : Settled clusterId snapshot log result) : Rounds clusterId retry snapshot left log result
  | surrendered {log : List Exchange} {f : Failure} (h : Lost snapshot log f) :
    Rounds clusterId retry snapshot 0 log (surrender snapshot retry.attempts f)
  | again {left : ℕ} {first rest : List Exchange} {f : Failure} {result : Result Reconciliation}
    (h : Lost snapshot first f) (hrest : Rounds clusterId retry snapshot left rest result) :
    Rounds clusterId retry snapshot (left + 1) (first ++ ⟨.pause retry.delay, ()⟩ :: rest) result

variable {retry : RetryPolicy}

theorem rounds_of_plays_reconcileAfter {left made : ℕ}
    (hattempts : made + left + 1 = retry.attempts)
    (hplays : (reconcileAfter clusterId retry.delay snapshot left made).Plays log result) :
    Rounds clusterId retry snapshot left log result := by
  induction left generalizing made log with
  | zero =>
    obtain hsettled | ⟨first, f, rest, rfl, hlost, hgone⟩ := settled_or_lost_of_plays hplays
    · exact .settled hsettled
    · obtain ⟨rfl, rfl⟩ := plays_done.mp hgone
      rw [List.append_nil, show made + 1 = retry.attempts from hattempts]
      exact .surrendered hlost
  | succ left ih =>
    obtain hsettled | ⟨first, f, rest, rfl, hlost, hgone⟩ := settled_or_lost_of_plays hplays
    · exact .settled hsettled
    · obtain ⟨⟨⟩, rest, rfl, hrest⟩ := plays_ask_bind.mp hgone
      exact .again hlost (ih (by omega) hrest)

/-- However it is answered, a reconciliation goes in rounds, no more than there are attempts. -/
theorem rounds_of_plays (hattempts : 1 ≤ retry.attempts)
    (hplays : (reconcile clusterId retry snapshot).Plays log result) :
    Rounds clusterId retry snapshot (retry.attempts - 1) log result :=
  rounds_of_plays_reconcileAfter (by omega) hplays

end NodeInventory.Record
