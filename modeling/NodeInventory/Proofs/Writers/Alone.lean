import Mathlib.Data.List.Basic
import NodeInventory.Proofs.Retry.Bound
import NodeInventory.Proofs.Snapshot
import NodeInventory.Proofs.Writers.Shelf

/-!
# Bringing a record in line while nobody else writes

A caller who is alone with a shelf, and whom the shelf refuses nothing that it can do, finds out in
one round what is to be done: the record of the node is created if there is none, is left if its
status and its resources are those of the snapshot, and is written over otherwise
(`reconcile_writes_the_difference`). A record is written for nothing else, so what was written is
found to be in line with the same snapshot the next time.

Which records are in line is decided by comparing as many entries as there are in both dictionaries,
and is said here of what they map (`Spec.Agrees`).
-/

namespace NodeInventory

open Simulation (World)
open NodeInventory.Action

/-- A spec tells the same status as another, and accounts for the same resources in the same way. -/
structure Spec.Agrees (spec snapshot : Spec) : Prop where
  status : spec.status = snapshot.status
  resources : ∀ resource, spec.resources.get? resource = snapshot.resources.get? resource

theorem Spec.Agrees.refl (spec : Spec) : spec.Agrees spec := ⟨rfl, fun _ ↦ rfl⟩

theorem Record.needsUpdate_iff {stored snapshot : Spec} :
    needsUpdate stored snapshot ↔ ¬stored.Agrees snapshot := by
  rw [← Bool.not_eq_false, not_iff_not, needsUpdate_eq_false_iff]
  constructor
  · rintro ⟨hstatus, hresources⟩
    exact ⟨hstatus, fun resource ↦ by rw [hresources]⟩
  · exact fun h ↦ ⟨h.status, Dict.ext_get? h.resources⟩

/-! ## A caller who is alone -/

/-- Whether a shelf can do what it is asked about a single record. -/
def Shelf.Can (s : Shelf) : Request → Prop
  | .fetchRecord _ => True
  | .createRecord r => s.record? r.name = none
  | .updateRecord r version =>
    ∃ x, s.record? r.name = some x ∧ x.metadata.resourceVersion = some version
  | .deleteRecord name => ∃ x, s.record? name = some x
  | _ => False

/-- A shelf answers one exchange after another and refuses nothing that it can do, and nothing else
happens to it. -/
inductive Shelf.Follows : Shelf → List Exchange → Shelf → Prop
  | nil (s : Shelf) : Follows s [] s
  | cons {s t u : Shelf} {e : Exchange} {log : List Exchange}
    (hanswer : s.Answers e.request e.answer t)
    (hgranted : s.Can e.request → ∀ f, World.refuse f e.request ≠ some e.answer)
    (h : Follows t log u) : Follows s (e :: log) u

/-- An action is carried out on a shelf on which nobody else writes and nothing fails for no reason:
all that is exchanged, the value, and what becomes of the shelf. -/
structure Action.Undisturbed {α : Type} (x : Action α) (s : Shelf) (log : List Exchange) (a : α)
    (t : Shelf) : Prop where
  plays : x.Plays log a
  follows : s.Follows log t

/-- Every record is stored under its own name, and has a version. -/
def Shelf.Kept (s : Shelf) : Prop :=
  ∀ name x, s.record? name = some x → x.name = name ∧ ∃ v, x.metadata.resourceVersion = some v

namespace Shelf

variable {s t u : Shelf} {log : List Exchange} {name : String}

theorem Follows.of_cons {e : Exchange} (h : s.Follows (e :: log) u) :
    ∃ t, s.Answers e.request e.answer t ∧
      (s.Can e.request → ∀ f, World.refuse f e.request ≠ some e.answer) ∧ t.Follows log u := by
  cases h with
  | cons hanswer hgranted h => exact ⟨_, hanswer, hgranted, h⟩

theorem Follows.of_fetched {answer : Option Record}
    (h : s.Follows (⟨.fetchRecord name, .ok answer⟩ :: log) u) :
    s.record? name = answer ∧ s.Follows log u := by
  obtain ⟨t, hanswer, -, hrest⟩ := h.of_cons
  obtain ⟨hx, rfl⟩ := hanswer.of_fetched
  exact ⟨hx, hrest⟩

theorem Follows.not_refused {r : Request} {f : Failure} {a : r.Answer} (hr : s.Can r)
    (ha : World.refuse f r = some a) : ¬s.Follows (⟨r, a⟩ :: log) u := by
  intro h
  obtain ⟨t, -, hgranted, -⟩ := h.of_cons
  exact hgranted hr f ha

theorem Answers.eq_of_not_concerns {r : Request} {a : r.Answer} (h : s.Answers r a t)
    (hr : concerns r = false) : t = s := by
  cases h with
  | fetched | failed | other => rfl
  | created | updated | deleted => cases hr

theorem Follows.eq_of_forall (h : s.Follows log t)
    (hlog : ∀ e ∈ log, concerns e.request = false) : t = s := by
  induction h with
  | nil => rfl
  | cons hanswer hgranted h ih =>
    rw [List.forall_mem_cons] at hlog
    rw [ih hlog.2]
    exact hanswer.eq_of_not_concerns hlog.1

theorem concerns_of_isWrite {r : Request} (h : r.isWrite) : concerns r = true := by
  cases r with
  | createRecord | updateRecord | deleteRecord => rfl
  | _ => cases h

theorem Can.concerns {r : Request} (h : s.Can r) : concerns r = true := by
  cases r with
  | fetchRecord | createRecord | updateRecord | deleteRecord => rfl
  | _ => cases h

theorem follows_of_forall (s : Shelf) (hlog : ∀ e ∈ log, concerns e.request = false) :
    s.Follows log s := by
  induction log with
  | nil => exact .nil s
  | cons e log ih =>
    rw [List.forall_mem_cons] at hlog
    exact .cons (.other hlog.1 _) (fun hr ↦ absurd hr.concerns (by simp [hlog.1])) (ih hlog.2)

end Shelf

namespace Record

variable {clusterId name : String} {retry : RetryPolicy} {snapshot : Spec} {s t u : Shelf}
  {log : List Exchange} {result : Result Reconciliation} {x : Record} {call : Fleet.Call}
  {answer : Option Record}

/-! ## Calls of the registry -/

/-- The writes among what was exchanged. -/
def writes (log : List Exchange) : ℕ := log.countP (·.request.isWrite)

/-- The calls of the registry among what was exchanged. -/
def calls (log : List Exchange) : ℕ := log.countP (·.request.kind = .callFleet)

theorem concerns_eq_false_of_told (h : Told name call log) :
    ∀ e ∈ log, Shelf.concerns e.request = false := by
  intro ⟨r, a⟩ he
  obtain rfl | rfl | ⟨report, rfl⟩ := (Fleet.asks_tell _ _ _).of_plays h _ he
  · rfl
  · rfl
  · rfl

theorem concerns_eq_false_of_counted (c : Counter) (h : Told name call log) :
    ∀ e ∈ (⟨.count c, ()⟩ :: log : List Exchange), Shelf.concerns e.request = false :=
  List.forall_mem_cons.mpr ⟨rfl, concerns_eq_false_of_told h⟩

theorem writes_calls_of_told (h : Told name call log) : writes log = 0 ∧ calls log = 1 := by
  constructor
  · refine List.countP_eq_zero.mpr fun e he hwrite ↦ ?_
    have hconcerns := concerns_eq_false_of_told h e he
    rw [Shelf.concerns_of_isWrite hwrite] at hconcerns
    cases hconcerns
  · obtain ⟨a, rest, rfl, hrest⟩ := Fleet.exists_of_plays_tell h
    have hnone : calls rest = 0 := List.countP_eq_zero.mpr fun e he ↦ by
      obtain hr | ⟨report, hr⟩ := hrest e he
      · simp [hr, Request.kind]
      · simp [hr, Request.kind]
    rw [calls, List.countP_cons]
    exact congrArg (· + 1) hnone

/-! ## What becomes of the record -/

/-- What a caller who is alone brings about: what is exchanged, what it says, and the shelf after
it. -/
inductive Brought (snapshot : Spec) (s : Shelf) :
    List Exchange → Result Reconciliation → Shelf → Prop
  | created {log : List Exchange} {v : String} (hnone : s.record? snapshot.nodeName = none)
    (hwrites : writes log = 1) (hcalls : calls log = 1) :
    Brought snapshot s log (.ok .created) (s.write (ofSpec snapshot) v)
  | unchanged {log : List Exchange} {x : Record} (hx : s.record? snapshot.nodeName = some x)
    (hagrees : x.spec.Agrees snapshot) (hwrites : writes log = 0) (hcalls : calls log = 0) :
    Brought snapshot s log (.ok .unchanged) s
  | updated {log : List Exchange} {x : Record} {v : String}
    (hx : s.record? snapshot.nodeName = some x) (hdiffers : ¬x.spec.Agrees snapshot)
    (hwrites : writes log = 1) (hcalls : calls log = 1) :
    Brought snapshot s log (.ok .updated) (s.write { x with spec := snapshot } v)

theorem Created.brought (h : Created clusterId snapshot log result) (hfollows : s.Follows log t)
    (hnone : s.record? snapshot.nodeName = none) :
    Brought snapshot s (⟨.fetchRecord snapshot.nodeName, .ok none⟩ :: log) result t := by
  cases h with
  | unread f => exact absurd hfollows (Shelf.Follows.not_refused (f := f) trivial rfl)
  | present x h =>
    obtain ⟨hx, -⟩ := hfollows.of_fetched
    rw [hnone] at hx
    cases hx
  | forestalled hf h =>
    exact absurd hfollows.of_fetched.2 (Shelf.Follows.not_refused hnone rfl)
  | refused hf => exact absurd hfollows.of_fetched.2 (Shelf.Follows.not_refused hnone rfl)
  | @created log h =>
    obtain ⟨u, hcreated, -, hrest⟩ := hfollows.of_fetched.2.of_cons
    obtain ⟨v, -, rfl⟩ := hcreated.of_created
    obtain rfl := hrest.eq_of_forall (concerns_eq_false_of_counted _ h)
    obtain ⟨hwrites, hcalls⟩ := writes_calls_of_told h
    exact .created hnone (by simpa [writes, Request.isWrite] using hwrites)
      (by simpa [calls, Request.kind] using hcalls)

/-- What was just read can be written over. -/
theorem not_refused_of_fetched {version : String} {f : Failure} (hs : s.Kept)
    (hversion : x.metadata.resourceVersion = some version) :
    ¬s.Follows (⟨.fetchRecord snapshot.nodeName, .ok (some x)⟩ ::
      ⟨.updateRecord { x with spec := snapshot } version, .error f⟩ :: log) t := by
  intro h
  obtain ⟨hx, hrest⟩ := h.of_fetched
  have hname : ({ x with spec := snapshot } : Record).name = snapshot.nodeName := (hs _ _ hx).1
  have hcan : s.Can (.updateRecord { x with spec := snapshot } version) :=
    ⟨x, hname ▸ hx, hversion⟩
  exact Shelf.Follows.not_refused hcan rfl hrest

theorem Settled.brought (h : Settled clusterId snapshot log result) (hfollows : s.Follows log t)
    (hs : s.Kept) : Brought snapshot s log result t := by
  cases h with
  | unread f => exact absurd hfollows (Shelf.Follows.not_refused (f := f) trivial rfl)
  | missing h =>
    obtain ⟨hnone, hrest⟩ := hfollows.of_fetched
    exact h.brought hrest hnone
  | unchanged hx =>
    obtain ⟨hread, hrest⟩ := hfollows.of_fetched
    cases hrest
    exact .unchanged hread (by_contra fun hdiffers ↦ hx (needsUpdate_iff.mpr hdiffers)) rfl rfl
  | unversioned hx hversion =>
    obtain ⟨-, v, hv⟩ := hs _ _ hfollows.of_fetched.1
    rw [hversion] at hv
    cases hv
  | refused hx hversion hf => exact absurd hfollows (not_refused_of_fetched hs hversion)
  | @updated x version log hx hversion h =>
    obtain ⟨hread, hrest⟩ := hfollows.of_fetched
    obtain ⟨u, hupdated, -, hrest⟩ := hrest.of_cons
    obtain ⟨-, v, -, rfl⟩ := hupdated.of_updated
    obtain rfl := hrest.eq_of_forall (concerns_eq_false_of_counted _ h)
    obtain ⟨hwrites, hcalls⟩ := writes_calls_of_told h
    exact .updated hread (needsUpdate_iff.mp hx) (by simpa [writes, Request.isWrite] using hwrites)
      (by simpa [calls, Request.kind] using hcalls)

theorem reconcile_eq_attempt (clusterId : String) (retry : RetryPolicy) (snapshot : Spec) :
    ∃ onConflict, reconcile clusterId retry snapshot = attempt clusterId snapshot onConflict := by
  rw [reconcile]
  cases retry.attempts - 1 with
  | zero => exact ⟨_, rfl⟩
  | succ left => exact ⟨_, rfl⟩

theorem brought_of_undisturbed (hs : s.Kept)
    (h : (reconcile clusterId retry snapshot).Undisturbed s log result t) :
    Brought snapshot s log result t := by
  obtain ⟨onConflict, heq⟩ := reconcile_eq_attempt clusterId retry snapshot
  obtain hsettled | ⟨first, f, rest, rfl, hlost, -⟩ := settled_or_lost_of_plays (heq ▸ h.plays)
  · exact hsettled.brought h.follows hs
  · cases hlost with
    | conflict hx hversion hf => exact absurd h.follows (not_refused_of_fetched hs hversion)

/-! ## That there is an end -/

theorem exists_told (name : String) (call : Fleet.Call) : ∃ log, Told name call log :=
  ⟨[⟨.callFleet call, .ok { code := 200 }⟩], .ask _ (.done ())⟩

theorem undisturbed_of_attempt
    (hplays : ∀ onConflict, (attempt clusterId snapshot onConflict).Plays log result)
    (hfollows : s.Follows log t) :
    (reconcile clusterId retry snapshot).Undisturbed s log result t := by
  obtain ⟨onConflict, heq⟩ := reconcile_eq_attempt clusterId retry snapshot
  exact ⟨heq ▸ hplays onConflict, hfollows⟩

theorem follows_fetch (hx : s.record? name = answer) (h : s.Follows log t) :
    s.Follows (⟨.fetchRecord name, .ok answer⟩ :: log) t :=
  .cons (hx ▸ .fetched name) (fun _ f hf ↦ by cases hf) h

theorem exists_undisturbed_of_none {v : String} (hnone : s.record? snapshot.nodeName = none)
    (hnew : v ∉ s.issued) : ∃ log result t,
      (reconcile clusterId retry snapshot).Undisturbed s log result t := by
  obtain ⟨log, htold⟩ := exists_told snapshot.nodeName (.add (.ofSpec clusterId snapshot))
  have hcreate : (create clusterId snapshot).Plays _ (.ok .created) :=
    plays_fetch_bind.mpr ⟨.ok none, _, rfl, plays_ask_bind.mpr ⟨Except.ok (), _, rfl,
      plays_ask_bind.mpr ⟨(), _, rfl, plays_register.mpr ⟨htold, rfl⟩⟩⟩⟩
  have hcreated : s.Follows (⟨.createRecord (ofSpec snapshot), .ok ()⟩ ::
      ⟨.count .recordsCreated, ()⟩ :: log) (s.write (ofSpec snapshot) v) :=
    .cons (.created hnone hnew) (fun _ f hf ↦ by cases hf)
      (Shelf.follows_of_forall _ (concerns_eq_false_of_counted _ htold))
  refine ⟨_, .ok .created, _, undisturbed_of_attempt (fun _ ↦ ?_)
    (follows_fetch hnone (follows_fetch hnone hcreated))⟩
  exact plays_fetch_bind.mpr ⟨.ok none, _, rfl, hcreate⟩

theorem exists_undisturbed_of_agrees (hx : s.record? snapshot.nodeName = some x)
    (hagrees : x.spec.Agrees snapshot) : ∃ log result,
      (reconcile clusterId retry snapshot).Undisturbed s log result s := by
  have hneeds : needsUpdate x.spec snapshot = false :=
    Bool.eq_false_iff.mpr fun h ↦ needsUpdate_iff.mp h hagrees
  refine ⟨_, .ok .unchanged, undisturbed_of_attempt (fun _ ↦ ?_) (follows_fetch hx (.nil s))⟩
  refine plays_fetch_bind.mpr ⟨.ok (some x), [], rfl, ?_⟩
  simp only [Result.within_ok, hneeds, Bool.not_false, if_true]
  exact .done _

/-- A record that has a version and differs from the snapshot can be written over. -/
theorem exists_undisturbed_of_differs {v version : String}
    (hx : s.record? snapshot.nodeName = some x) (hname : x.name = snapshot.nodeName)
    (hversion : x.metadata.resourceVersion = some version) (hdiffers : ¬x.spec.Agrees snapshot)
    (hnew : v ∉ s.issued) : ∃ log result t,
      (reconcile clusterId retry snapshot).Undisturbed s log result t := by
  obtain ⟨log, htold⟩ := exists_told snapshot.nodeName (.update (.ofSpec clusterId snapshot))
  have hneeds : needsUpdate x.spec snapshot := needsUpdate_iff.mpr hdiffers
  have hstored : s.record? ({ x with spec := snapshot } : Record).name = some x :=
    (congrArg s.record? hname).trans hx
  have hupdated : s.Follows (⟨.updateRecord { x with spec := snapshot } version, .ok ()⟩ ::
      ⟨.count .recordsUpdated, ()⟩ :: log) (s.write { x with spec := snapshot } v) :=
    .cons (.updated hstored hversion hnew) (fun _ f hf ↦ by cases hf)
      (Shelf.follows_of_forall _ (concerns_eq_false_of_counted _ htold))
  refine ⟨_, .ok .updated, _, undisturbed_of_attempt (fun _ ↦ ?_) (follows_fetch hx hupdated)⟩
  refine plays_fetch_bind.mpr ⟨.ok (some x), _, rfl, ?_⟩
  simp only [Result.within_ok, hneeds, hversion, Bool.not_true, Bool.false_eq_true, if_false]
  refine plays_ask_bind.mpr ⟨Except.ok (), _, rfl, plays_ask_bind.mpr ⟨(), log, rfl, ?_⟩⟩
  exact plays_bind.mpr ⟨log, (), [], (List.append_nil log).symm, htold, .done _⟩

theorem exists_undisturbed (hs : s.Kept) (hnew : ∃ v, v ∉ s.issued) : ∃ log result t,
    (reconcile clusterId retry snapshot).Undisturbed s log result t := by
  obtain ⟨v, hv⟩ := hnew
  cases hx : s.record? snapshot.nodeName with
  | none => exact exists_undisturbed_of_none hx hv
  | some x =>
    obtain ⟨hname, version, hversion⟩ := hs _ _ hx
    by_cases hagrees : x.spec.Agrees snapshot
    · obtain ⟨log, result, h⟩ := exists_undisturbed_of_agrees hx hagrees
      exact ⟨log, result, s, h⟩
    · exact exists_undisturbed_of_differs hx hname hversion hagrees hv

/-! ## The difference is written, and nothing else -/

/-- What holds of a reconciliation that nothing disturbs, by what was stored before and after it. -/
structure WritesDifference (snapshot : Spec) (s : Shelf) (log : List Exchange)
    (result : Result Reconciliation) (t : Shelf) : Prop where
  created_iff : result = .ok .created ↔ s.record? snapshot.nodeName = none
  unchanged_iff : result = .ok .unchanged ↔
    ∃ x, s.record? snapshot.nodeName = some x ∧ x.spec.Agrees snapshot
  updated_iff : result = .ok .updated ↔
    ∃ x, s.record? snapshot.nodeName = some x ∧ ¬x.spec.Agrees snapshot
  /-- To leave a record takes no write and no call. -/
  idle : result = .ok .unchanged → writes log = 0 ∧ calls log = 0 ∧ t = s
  /-- Anything else takes one of each. -/
  busy : result ≠ .ok .unchanged → writes log = 1 ∧ calls log = 1
  agrees : ∃ y, t.record? snapshot.nodeName = some y ∧ y.spec.Agrees snapshot
  others : ∀ name ≠ snapshot.nodeName, t.record? name = s.record? name

theorem Brought.writesDifference (h : Brought snapshot s log result t) (hs : s.Kept) :
    WritesDifference snapshot s log result t := by
  cases h with
  | created hnone hwrites hcalls =>
    constructor
    · exact iff_of_true rfl hnone
    · exact iff_of_false (by rintro ⟨⟩) (by simp [hnone])
    · exact iff_of_false (by rintro ⟨⟩) (by simp [hnone])
    · rintro ⟨⟩
    · exact fun _ ↦ ⟨hwrites, hcalls⟩
    · exact ⟨_, if_pos rfl, .refl snapshot⟩
    · exact fun name hne ↦ if_neg hne
  | unchanged hx hagrees hwrites hcalls =>
    constructor
    · exact iff_of_false (by rintro ⟨⟩) (by simp [hx])
    · exact iff_of_true rfl ⟨_, hx, hagrees⟩
    · exact iff_of_false (by rintro ⟨⟩) (by simp [hx, hagrees])
    · exact fun _ ↦ ⟨hwrites, hcalls, rfl⟩
    · exact fun hne ↦ absurd rfl hne
    · exact ⟨_, hx, hagrees⟩
    · exact fun _ _ ↦ rfl
  | @updated x v hx hdiffers hwrites hcalls =>
    have hname : ({ x with spec := snapshot } : Record).name = snapshot.nodeName := (hs _ _ hx).1
    constructor
    · exact iff_of_false (by rintro ⟨⟩) (by simp [hx])
    · exact iff_of_false (by rintro ⟨⟩) (by simp [hx, hdiffers])
    · exact iff_of_true rfl ⟨_, hx, hdiffers⟩
    · rintro ⟨⟩
    · exact fun _ ↦ ⟨hwrites, hcalls⟩
    · exact ⟨_, if_pos hname.symm, .refl snapshot⟩
    · exact fun name hne ↦ if_neg (hname ▸ hne)

theorem Brought.kept (h : Brought snapshot s log result t) (hs : s.Kept) : t.Kept := by
  have hkept {r : Record} {v : String} : (s.write r v).Kept := by
    intro name x hx
    rw [Shelf.record?_write] at hx
    split at hx
    · next hname =>
      cases hx
      exact ⟨hname.symm, v, rfl⟩
    · exact hs name x hx
  cases h with
  | unchanged => exact hs
  | created | updated => exact hkept

/-- Whoever reconciles a snapshot with a shelf on which every record is kept, disturbed by nobody,
comes to an end; writes the difference and nothing else, whatever the registry answers; and finds
nothing to be done when it does so again. -/
theorem reconcile_writes_the_difference (clusterId : String) (retry : RetryPolicy)
    (snapshot : Spec) (hs : s.Kept) :
    ((∃ v, v ∉ s.issued) →
      ∃ log result t, (reconcile clusterId retry snapshot).Undisturbed s log result t) ∧
    ∀ log result t, (reconcile clusterId retry snapshot).Undisturbed s log result t →
      WritesDifference snapshot s log result t ∧
      (∃ log result u, (reconcile clusterId retry snapshot).Undisturbed t log result u) ∧
      ∀ log result u, (reconcile clusterId retry snapshot).Undisturbed t log result u →
        result = .ok .unchanged := by
  refine ⟨exists_undisturbed hs, fun log result t h ↦ ?_⟩
  have hbrought := brought_of_undisturbed hs h
  have hwritten := hbrought.writesDifference hs
  have hkept : t.Kept := hbrought.kept hs
  obtain ⟨y, hy, hagrees⟩ := hwritten.agrees
  refine ⟨hwritten, ?_, fun log result u hagain ↦ ?_⟩
  · obtain ⟨log, result, hagain⟩ := exists_undisturbed_of_agrees hy hagrees
    exact ⟨log, result, t, hagain⟩
  · have hnothing := (brought_of_undisturbed hkept hagain).writesDifference hkept
    exact hnothing.unchanged_iff.mpr ⟨y, hy, hagrees⟩

/-- A record that tells of another status is written over, and the record next to it is not. -/
theorem status_is_written_over :
    let snapshot : Spec := { nodeName := "a", status := "Ready" }
    let neighbour : Record := ofSpec { nodeName := "b" }
    let s := (Shelf.empty.write (ofSpec { nodeName := "a", status := "NotReady" }) "1").write
      neighbour "2"
    ∃ log t, (reconcile "c" ⟨3, 0⟩ snapshot).Undisturbed s log (.ok .updated) t ∧
      writes log = 1 ∧ calls log = 1 ∧ t.record? "b" = some (neighbour.at "2") ∧
      ∃ y, t.record? "a" = some y ∧ y.spec.Agrees snapshot := by
  intro snapshot neighbour s
  have hs : s.Kept := by
    intro name x hx
    simp only [s, Shelf.record?_write] at hx
    split at hx
    · next hname => exact (Option.some.inj hx) ▸ ⟨hname.symm, "2", rfl⟩
    · split at hx
      · next hname => exact (Option.some.inj hx) ▸ ⟨hname.symm, "1", rfl⟩
      · cases hx
  have hnew : ∃ v, v ∉ s.issued := ⟨"3", by simp [s, Shelf.empty]⟩
  obtain ⟨hend, hall⟩ := reconcile_writes_the_difference "c" ⟨3, 0⟩ snapshot hs
  obtain ⟨log, result, t, h⟩ := hend hnew
  obtain ⟨hwritten, -⟩ := hall log result t h
  obtain rfl := hwritten.updated_iff.mpr ⟨_, rfl, fun hagrees ↦ absurd hagrees.status (by decide)⟩
  obtain ⟨hwrites, hcalls⟩ := hwritten.busy (by rintro ⟨⟩)
  exact ⟨log, t, h, hwrites, hcalls, hwritten.others "b" (by decide), hwritten.agrees⟩

end Record

end NodeInventory
