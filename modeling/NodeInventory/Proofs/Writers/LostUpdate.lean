import Mathlib.Data.List.Induction
import NodeInventory.Proofs.Footprint
import NodeInventory.Proofs.Writers.Room

/-!
# No lost update

A record is brought in line with a snapshot by reading it and writing it back with another spec. A
write that lands between the two would be lost, were the write not refused for a version that is no
longer stored.

The argument has two halves. A call remembers: what it writes is the record that it read last, with
the snapshot for a spec, under the version that it read (`meets_reconcile`). And the shelf forgets
nothing: while the version of a record is stored, so is the record, and once it is gone it does not
come back (`kept_or_outdated`). So an update that is accepted finds the record that was read, and
found it at every moment since.
-/

namespace NodeInventory.Writers

open NodeInventory.Action

/-- A call of the operator about the record of one node. -/
inductive Call
  | reconcile (clusterId : String) (retry : RetryPolicy) (snapshot : Spec)
  | create (clusterId : String) (snapshot : Spec)
  | deleteOrphan (clusterId name : String)

/-- What a call does, and what it tells of a record in the end. -/
def Call.action : Call → Action (Result (Option Reconciliation))
  | reconcile clusterId retry snapshot => do
    let outcome ← Record.reconcile clusterId retry snapshot
    pure (outcome.map some)
  | create clusterId snapshot => do
    let outcome ← Record.create clusterId snapshot
    pure (outcome.map some)
  | deleteOrphan clusterId name => do
    let outcome ← Record.deleteOrphan clusterId name
    pure (outcome.map fun _ ↦ none)

/-- A shelf and calls none of which has begun. -/
def Room.opened (shelf : Shelf) (calls : ℕ → Call) : Room (Result (Option Reconciliation)) :=
  ⟨shelf, fun i ↦ (calls i).action⟩

variable {call : Call} {last : Option (String × Record)} {clusterId : String} {retry : RetryPolicy}
  {snapshot : Spec} {i : ℕ} {m : Moment} {moments : List Moment}

/-! ## What a call remembers -/

/-- The record that was read last, and the name under which it was read. -/
def remember (last : Option (String × Record)) : (r : Request) → r.Answer → Option (String × Record)
  | .fetchRecord name, (answer : Result (Option Record)) =>
    match answer with
    | .ok (some x) => some (name, x)
    | _ => none
  | _, _ => last

/-- What a call may write when it read `last`. -/
def Call.MayUpdate (call : Call) (last : Option (String × Record)) (r : Record) (version : String) :
    Prop :=
  ∃ clusterId retry snapshot x, call = .reconcile clusterId retry snapshot ∧
    last = some (snapshot.nodeName, x) ∧ r = { x with spec := snapshot } ∧
    x.metadata.resourceVersion = some version

/-- To replace only the record that was read last, by itself with another spec. -/
def rereading (call : Call) : Contract (Option (String × Record)) where
  allows
    | last, .updateRecord record version => call.MayUpdate last record version
    | _, _ => True
  answers last r a next := next = remember last r a

theorem meets_of_within {α : Type} {kinds : List Request.Kind} {x : Action α} (h : x.Within kinds)
    (hkinds : .updateRecord ∉ kinds) : x.Meets (rereading call) (fun _ _ ↦ True) last := by
  refine h.meets (fun _ r hr ↦ ?_) _
  cases r with
  | updateRecord => exact absurd hr hkinds
  | _ => trivial

theorem meets_attempt {onConflict : Failure → Action (Result Reconciliation)}
    (hconflict : ∀ f last, (onConflict f).Meets (rereading (.reconcile clusterId retry snapshot))
      (fun _ _ ↦ True) last) :
    (Record.attempt clusterId snapshot onConflict).Meets
      (rereading (.reconcile clusterId retry snapshot)) (fun _ _ ↦ True) last := by
  refine .bind (meets_ask_bind trivial fun (answer : Result (Option Record)) read hread ↦ ?_)
  obtain f | _ | x := answer
  · trivial
  · exact meets_of_within (Record.within_create clusterId snapshot) (by decide)
  · change (ite _ _ _ : Action _).Meets _ _ _
    split
    · trivial
    · split
      · trivial
      · next version hversion =>
        refine meets_ask_bind ⟨clusterId, retry, snapshot, x, rfl, hread, rfl, hversion⟩
          fun (answer : Result Unit) _ _ ↦ ?_
        cases answer with
        | ok _ =>
          exact meets_ask_bind trivial fun _ _ _ ↦ .bind <|
            (meets_of_within (Fleet.within_tell _ _ _) (by decide)).imp fun _ _ _ ↦ trivial
        | error f =>
          change (ite _ _ _ : Action _).Meets _ _ _
          split
          · exact meets_ask_bind trivial fun _ _ _ ↦ hconflict _ _
          · trivial

theorem meets_reconcile : (Record.reconcile clusterId retry snapshot).Meets
    (rereading (.reconcile clusterId retry snapshot)) (fun _ _ ↦ True) last := by
  suffices ∀ left made last, (Record.reconcileAfter clusterId retry.delay snapshot left made).Meets
      (rereading (.reconcile clusterId retry snapshot)) (fun _ _ ↦ True) last from this _ _ _
  intro left
  induction left with
  | zero => exact fun made last ↦ meets_attempt fun _ _ ↦ trivial
  | succ left ih =>
    exact fun made last ↦ meets_attempt fun f last ↦ meets_ask_bind trivial fun _ _ _ ↦ ih _ _

theorem Call.meets (call : Call) : call.action.Meets (rereading call) (fun _ _ ↦ True) last := by
  cases call with
  | reconcile clusterId retry snapshot =>
    exact .bind <| meets_reconcile.imp fun _ _ _ ↦ trivial
  | create clusterId snapshot =>
    exact .bind <| (meets_of_within (Record.within_create _ _) (by decide)).imp fun _ _ _ ↦ trivial
  | deleteOrphan clusterId name =>
    refine .bind ((meets_of_within (Record.within_deleteOrphan _ _) (by decide)).imp ?_)
    exact fun _ _ _ ↦ trivial

/-! ## What a call has read -/

/-- What a caller remembers after a moment. -/
def Moment.remind (m : Moment) (i : ℕ) (last : Option (String × Record)) :
    Option (String × Record) :=
  match m.event with
  | .asked j e => if j = i then remember last e.request e.answer else last
  | _ => last

/-- What a caller remembers after the moments of a run. -/
def lastRead (i : ℕ) (moments : List Moment) : Option (String × Record) :=
  moments.foldl (fun last m ↦ m.remind i last) none

theorem lastRead_snoc : lastRead i (moments ++ [m]) = m.remind i (lastRead i moments) := by
  rw [lastRead, List.foldl_append]
  rfl

/-- The caller reads no record at the moment. -/
def Moment.NotRead (m : Moment) (i : ℕ) : Prop :=
  ∀ name answer, m.event ≠ .asked i ⟨.fetchRecord name, answer⟩

theorem Moment.eq_of_remind {name : String} {x : Record} (h : m.remind i last = some (name, x)) :
    m.event = .asked i ⟨.fetchRecord name, .ok (some x)⟩ ∨
      last = some (name, x) ∧ m.NotRead i := by
  obtain ⟨before, event, after⟩ := m
  cases event with
  | stored | removed => exact .inr ⟨h, fun name answer hevent ↦ by cases hevent⟩
  | asked j e =>
    rw [remind] at h
    dsimp only at h
    split at h
    · next hij =>
      subst hij
      obtain ⟨r, a⟩ := e
      cases r with
      | fetchRecord other =>
        obtain f | _ | y := a
        · cases h
        · cases h
        · cases h
          exact .inl rfl
      | _ => exact .inr ⟨h, fun name answer hevent ↦ by cases hevent⟩
    · next hij =>
      refine .inr ⟨h, fun name answer hevent ↦ ?_⟩
      cases hevent
      exact hij rfl

theorem exists_read_of_lastRead {name : String} {x : Record}
    (h : lastRead i moments = some (name, x)) :
    ∃ earlier read between, moments = earlier ++ read :: between ∧
      read.event = .asked i ⟨.fetchRecord name, .ok (some x)⟩ ∧ ∀ m ∈ between, m.NotRead i := by
  induction moments using List.reverseRecOn with
  | nil => cases h
  | append_singleton moments m ih =>
    rw [lastRead_snoc] at h
    obtain hevent | ⟨hlast, hnot⟩ := m.eq_of_remind h
    · exact ⟨moments, m, [], rfl, hevent, fun _ hm ↦ by cases hm⟩
    · obtain ⟨earlier, read, between, rfl, hread, hbetween⟩ := ih hlast
      refine ⟨earlier, read, between ++ [m], by simp, hread, fun m' hm' ↦ ?_⟩
      rcases List.mem_append.mp hm' with hm' | hm'
      · exact hbetween m' hm'
      · rwa [List.mem_singleton.mp hm']

variable {shelf : Shelf} {calls : ℕ → Call} {room : Room (Result (Option Reconciliation))}

theorem meets_of_run (hrun : Run Step (Room.opened shelf calls) moments room) (i : ℕ) :
    (room.calls i).Meets (rereading (calls i)) (fun _ _ ↦ True) (lastRead i moments) := by
  induction hrun with
  | nil => exact (calls i).meets
  | @snoc moments m room room' hrun hstep ih =>
    rw [lastRead_snoc]
    -- nothing that others do changes what the caller remembers
    cases hstep with
    | @asked j r next a t hcall hanswer =>
      by_cases hij : j = i
      · subst j
        rw [hcall] at ih
        simpa [Moment.remind] using ih.2 a _ rfl
      · simpa [Moment.remind, hij, Function.update_of_ne (Ne.symm hij)] using ih
    | stored | removed => exact ih

/-! ## Accepted updates -/

/-- A record that was read is still there, or has lost its version for good. -/
theorem kept_since_read {α : Type} {start room : Room α} {earlier between : List Moment}
    {read : Moment} {name version : String} {x : Record}
    (hrun : Run Step start (earlier ++ read :: between) room) (hstart : start.shelf.Sound)
    (hread : read.event = .asked i ⟨.fetchRecord name, .ok (some x)⟩)
    (hversion : x.metadata.resourceVersion = some version) :
    x.name = name ∧
      ((room.shelf.record? name = some x ∧ ∀ m ∈ between, m.after.record? name = some x) ∨
        room.shelf.Outdated name version) := by
  obtain ⟨now, later, hearlier, hstep, hbetween⟩ := hrun.exists_step
  have hnow := sound_of_run hearlier hstart
  have hlater := hstep.change.sound hnow
  cases hstep with
  | stored | removed => cases hread
  | asked hcall hanswer =>
    cases hread
    obtain ⟨hx, rfl⟩ := hanswer.of_fetched
    exact ⟨(hnow _ _ hx).1, kept_or_outdated hbetween hlater hx hversion⟩

/-- What is so when an update by a caller is accepted at a moment after others, if the caller brings
the record `x` in line with a snapshot. -/
structure RestsOnRead (past : List Moment) (m : Moment) (i : ℕ) (snapshot : Spec) (x : Record) :
    Prop where
  /-- The last that the caller read was the record, which was there at every moment since. -/
  read : ∃ earlier read between, past = earlier ++ read :: between ∧
    read.event = .asked i ⟨.fetchRecord snapshot.nodeName, .ok (some x)⟩ ∧
    ∀ m' ∈ between, m'.NotRead i ∧ m'.after.record? snapshot.nodeName = some x
  before : m.before.record? snapshot.nodeName = some x
  /-- Of the record nothing but its spec is replaced, and its version. -/
  after : ∃ v ∉ m.before.issued, m.after.record? snapshot.nodeName =
    some ⟨{ x.metadata with resourceVersion := some v }, snapshot⟩
  others : ∀ name ≠ snapshot.nodeName, m.after.record? name = m.before.record? name

theorem restsOnRead_of_run {past future : List Moment} {r : Record} {version : String}
    (hrun : Run Step (Room.opened shelf calls) (past ++ m :: future) room) (hshelf : shelf.Sound)
    (hm : m.event = .asked i ⟨.updateRecord r version, .ok ()⟩) :
    ∃ clusterId retry snapshot x, calls i = .reconcile clusterId retry snapshot ∧
      RestsOnRead past m i snapshot x := by
  obtain ⟨now, later, hpast, hstep, -⟩ := hrun.exists_step
  have hmeets := meets_of_run hpast i
  have hbefore := hstep.before_eq
  have hafter := hstep.after_eq
  cases hstep with
  | stored | removed => cases hm
  | asked hcall hanswer =>
    cases hm
    rw [hcall] at hmeets
    obtain ⟨clusterId, retry, snapshot, x, hcalls, hlast, rfl, hversion⟩ := hmeets.1
    obtain ⟨⟨y, hstored, hy⟩, v, hnew, rfl⟩ := hanswer.of_updated
    obtain ⟨earlier, read, between, rfl, hread, hbetween⟩ := exists_read_of_lastRead hlast
    obtain ⟨hname, hkept⟩ := kept_since_read hpast hshelf hread hversion
    have hrecord : ({ x with spec := snapshot } : Record).name = snapshot.nodeName := hname
    rw [hrecord] at hstored
    -- the version that was read is stored, so the record is the one that was read
    rcases hkept with ⟨hstill, hsince⟩ | hout
    · refine ⟨clusterId, retry, snapshot, x, hcalls, ?_⟩
      constructor
      · exact ⟨earlier, read, between, rfl, hread, fun m' hm' ↦ ⟨hbetween m' hm', hsince m' hm'⟩⟩
      · exact hstill
      · exact ⟨v, hnew, by rw [Shelf.record?_write, if_pos hrecord.symm]; rfl⟩
      · intro name hne
        rw [Shelf.record?_write, if_neg (hrecord.symm ▸ hne)]
    · exact absurd hy (hout.2 y hstored)

/-- No update is lost: one that is accepted rests on a reading that still held, and no caller
creates a record in the place of another. -/
theorem no_update_is_lost (hshelf : shelf.Sound)
    (hrun : Run Step (Room.opened shelf calls) moments room) :
    (∀ past m future i r version, moments = past ++ m :: future →
      m.event = .asked i ⟨.updateRecord r version, .ok ()⟩ →
        ∃ clusterId retry snapshot x, calls i = .reconcile clusterId retry snapshot ∧
          RestsOnRead past m i snapshot x) ∧
    ∀ m ∈ moments, ∀ i r answer, m.event = .asked i ⟨.createRecord r, answer⟩ →
      ∀ name x, m.before.record? name = some x → m.after.record? name = some x := by
  refine ⟨fun past m future i r version hmoments hm ↦ ?_, fun m hm i r answer hevent name x hx ↦ ?_⟩
  · subst hmoments
    exact restsOnRead_of_run hrun hshelf hm
  · obtain ⟨past, future, rfl⟩ := List.append_of_mem hm
    obtain ⟨now, later, -, hstep, -⟩ := hrun.exists_step
    cases hstep with
    | stored | removed => cases hevent
    | asked hcall hanswer =>
      cases hevent
      exact hanswer.record?_of_create hx

/-- The record of another node may come between a reading and the update that rests on it. -/
theorem update_past_stranger_is_not_lost :
    let stored : Record := .ofSpec { nodeName := "a", status := "NotReady" }
    let snapshot : Spec := { nodeName := "a", status := "Ready" }
    let shelf := Shelf.empty.write stored "1"
    let calls : ℕ → Call := fun _ ↦ .reconcile "c" ⟨1, 0⟩ snapshot
    ∃ past m room, Run Step (Room.opened shelf calls) (past ++ [m]) room ∧
      m.event = .asked 0 ⟨.updateRecord { stored.at "1" with spec := snapshot } "1", .ok ()⟩ ∧
      RestsOnRead past m 0 snapshot (stored.at "1") := by
  intro stored snapshot shelf calls
  have hshelf : shelf.Sound := (Shelf.Change.write stored (by simp [Shelf.empty])).sound
    Shelf.sound_empty
  have hread : shelf.Answers (.fetchRecord "a") (.ok (some (stored.at "1"))) shelf := .fetched "a"
  have hbegun := (@Run.nil _ _ Step (Room.opened shelf calls)).snoc (.asked (i := 0) rfl hread)
  have hmeanwhile := hbegun.snoc (.stored (v := "2") (.ofSpec { nodeName := "b" })
    (by simp [shelf, Shelf.empty]))
  have hrun := hmeanwhile.snoc (.asked (i := 0) rfl (.updated (v := "3") rfl rfl
    (by simp [shelf, Shelf.empty])))
  obtain ⟨clusterId, retry, snapshot', x, hcalls, hrests⟩ :=
    (no_update_is_lost hshelf hrun).1 _ _ [] 0 _ _ rfl rfl
  obtain rfl : snapshot = snapshot' := (Call.reconcile.inj hcalls).2.2
  obtain rfl : stored.at "1" = x := Option.some.inj hrests.before
  exact ⟨_, _, _, hrun, rfl, hrests⟩

end NodeInventory.Writers
