import NodeInventory.Proofs.Writers.Testimony

/-!
# What the registry is told of records

Who brings the record of a node in line with a snapshot tells the registry of it. What is told was
stored under the name of the node at some moment of the call: it is the record that was read, or the
snapshot right after it was stored (`report_was_stored_or_forestalled`).

One case is left out. When somebody else creates the record between the reading that found none and
the request to create it, the registry is told the snapshot, although it was the record of the other
that was stored, and the snapshot may never have been.
-/

namespace NodeInventory.Writers

open NodeInventory.Action

variable {shelf : Shelf} {calls : ℕ → Call} {room : Room (Result (Option Reconciliation))}
  {past future : List Moment} {m : Moment} {i : ℕ} {clusterId : String} {snapshot : Spec}

/-- The call brings the record of a node in line with a snapshot, or sees to it that there is one.
-/
def Call.Brings (call : Call) (clusterId : String) (snapshot : Spec) : Prop :=
  call = .create clusterId snapshot ∨ ∃ retry, call = .reconcile clusterId retry snapshot

theorem Call.Brings.meets {call : Call} (h : call.Brings clusterId snapshot) :
    call.action.Meets (testifying (MayTell clusterId snapshot)) (fun _ _ ↦ True) [] := by
  obtain rfl | ⟨retry, rfl⟩ := h
  · exact .bind (meets_create.imp fun _ _ _ ↦ trivial)
  · exact .bind ((reconcile_testifies retry).imp fun _ _ _ ↦ trivial)

/-- What the registry is told was stored under the name of the node when the caller had asked for
something before, unless the caller was told that somebody else had created the record first. Then
the registry is told the snapshot, whatever it was that the other had stored. -/
theorem report_was_stored_or_forestalled {call : Fleet.Call} {report : Fleet.NodeReport}
    {answer : Result Fleet.Response} (hshelf : shelf.Sound)
    (hrun : Run Step (Room.opened shelf calls) (past ++ m :: future) room)
    (hcall : (calls i).Brings clusterId snapshot)
    (hm : m.event = .asked i ⟨.callFleet call, answer⟩) (hreport : call.report? = some report) :
    (∃ m' ∈ past, m'.By i ∧ ∃ x, m'.after.record? snapshot.nodeName = some x ∧
      report = .ofSpec clusterId x.spec) ∨
    (report = .ofSpec clusterId snapshot ∧ ∃ m' ∈ past, ∃ f : Failure, f.isAlreadyExists ∧
      m'.event = .asked i ⟨.createRecord (.ofSpec snapshot), .error f⟩ ∧
        ∃ x, m'.after.record? snapshot.nodeName = some x) := by
  obtain ⟨now, later, hpast, -, -⟩ := hrun.exists_step
  have hadmitted := admits_of_run hrun hcall.meets hm
  obtain ⟨spec, hstored, rfl⟩ | ⟨⟨f, hexists, hseen⟩, rfl⟩ := hadmitted call report rfl hreport
  · obtain ⟨m', hm', hby, x, hx, rfl⟩ := hstored.exists_moment hpast hshelf
    exact .inl ⟨m', hm', hby, x, hx, rfl⟩
  · obtain ⟨m', hm', hevent⟩ := exists_moment_of_mem hseen
    obtain ⟨-, hanswer⟩ := answers_of_mem hpast hshelf hm' hevent
    obtain ⟨hsome, hsame⟩ := hanswer.of_alreadyExists hexists
    refine .inr ⟨rfl, m', hm', f, hexists, hevent, ?_⟩
    rw [hsame]
    exact hsome

/-- Who is to create a record and finds one tells the registry what it finds. -/
theorem report_of_record_found_at_creation :
    let stored : Record := .ofSpec { nodeName := "a", status := "NotReady" }
    let shelf := Shelf.empty.write stored "1"
    let calls : ℕ → Call := fun _ ↦ .create "c" { nodeName := "a", status := "Ready" }
    ∃ past m room, Run Step (Room.opened shelf calls) (past ++ [m]) room ∧
      m.event = .asked 0 ⟨.callFleet (.add ⟨"a", "c", "NotReady", []⟩), .ok { code := 200 }⟩ ∧
      ∃ m' ∈ past, m'.By 0 ∧ ∃ x, m'.after.record? "a" = some x ∧
        ⟨"a", "c", "NotReady", []⟩ = Fleet.NodeReport.ofSpec "c" x.spec := by
  intro stored shelf calls
  have hshelf : shelf.Sound := (Shelf.Change.write stored (by simp [Shelf.empty])).sound
    Shelf.sound_empty
  have hread : shelf.Answers (.fetchRecord "a") (.ok (some (stored.at "1"))) shelf := .fetched "a"
  have hbegun := (@Run.nil _ _ Step (Room.opened shelf calls)).snoc (.asked (i := 0) rfl hread)
  have htold : shelf.Answers (.callFleet (.add (.ofSpec "c" (stored.at "1").spec)))
      (.ok { code := 200 }) shelf := .other rfl _
  have hrun := hbegun.snoc (.asked (i := 0) rfl htold)
  refine ⟨_, _, _, hrun, rfl, ?_⟩
  obtain hstored | ⟨hsnapshot, -⟩ := report_was_stored_or_forestalled (i := 0) hshelf
    hrun (.inl rfl) rfl rfl
  · exact hstored
  · exact absurd (congrArg Fleet.NodeReport.status hsnapshot) (by decide)

/-- Two create the record of a node at once, with different snapshots. The one that comes second
tells the registry a snapshot that is stored at no moment. -/
theorem report_of_snapshot_never_stored :
    let calls : ℕ → Call := fun i ↦
      .create "c" { nodeName := "a", status := if i = 0 then "Ready" else "NotReady" }
    ∃ past m room, Run Step (Room.opened Shelf.empty calls) (past ++ [m]) room ∧
      m.event = .asked 0 ⟨.callFleet (.add ⟨"a", "c", "Ready", []⟩), .ok { code := 200 }⟩ ∧
      ∀ m' ∈ past ++ [m], ∀ name x,
        m'.before.record? name = some x ∨ m'.after.record? name = some x →
          Fleet.NodeReport.ofSpec "c" x.spec ≠ ⟨"a", "c", "Ready", []⟩ := by
  intro calls
  let other : Record := .ofSpec { nodeName := "a", status := "NotReady" }
  let shelf := Shelf.empty.write other "1"
  have hmissing : Shelf.empty.Answers (.fetchRecord "a") (.ok none) Shelf.empty := .fetched "a"
  have hfirst := (@Run.nil _ _ Step (Room.opened Shelf.empty calls)).snoc
    (.asked (i := 0) rfl hmissing)
  have hsecond := hfirst.snoc (.asked (i := 1) rfl hmissing)
  have hcreated : Shelf.empty.Answers (.createRecord other) (.ok ()) shelf :=
    .created rfl (by simp [Shelf.empty])
  have hthird := hsecond.snoc (.asked (i := 1) rfl hcreated)
  have hlate : shelf.Answers (.createRecord (.ofSpec { nodeName := "a", status := "Ready" }))
      (.error (.alreadyExists "a")) shelf := .failed rfl rfl fun _ ↦ ⟨other.at "1", rfl⟩
  have hfourth := hthird.snoc (.asked (i := 0) rfl hlate)
  have htold : shelf.Answers
      (.callFleet (.add (.ofSpec "c" { nodeName := "a", status := "Ready" })))
      (.ok { code := 200 }) shelf := .other rfl _
  have hrun := hfourth.snoc (.asked (i := 0) rfl htold)
  have hempty : ∀ name x, Shelf.empty.record? name = some x →
      Fleet.NodeReport.ofSpec "c" x.spec ≠ ⟨"a", "c", "Ready", []⟩ := by
    rintro name x ⟨⟩
  have hother : ∀ name x, shelf.record? name = some x →
      Fleet.NodeReport.ofSpec "c" x.spec ≠ ⟨"a", "c", "Ready", []⟩ := by
    intro name x hx
    rw [Shelf.record?_write] at hx
    split at hx
    · cases hx
      exact fun h ↦ absurd (congrArg Fleet.NodeReport.status h) (by decide)
    · exact hempty name x hx
  refine ⟨_, _, _, hrun, rfl, fun m' hm' name x hx ↦ ?_⟩
  simp only [List.nil_append, List.cons_append, List.mem_cons, List.not_mem_nil, or_false] at hm'
  rcases hm' with rfl | rfl | rfl | rfl | rfl <;> rcases hx with hx | hx <;>
    first | exact hempty name x hx | exact hother name x hx

end NodeInventory.Writers
