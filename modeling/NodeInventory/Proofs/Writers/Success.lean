import NodeInventory.Proofs.Pass.Upkeep
import NodeInventory.Proofs.Writers.Testimony

/-!
# What it means that a record was reconciled

When a call that brings a record in line with a snapshot succeeds, the record was in line with the
snapshot at some moment of the call: when it was found to be so, or right after it was created or
written. It need not be so any more when the call returns, and somebody else may have made it so.

There is one success that says less. A record that is missing when it is read first and is there
when it is to be created is left to whoever created it, whatever that one wrote. Of such a call is
known that it changed nothing, and that it found the record after it had not
(`reconciled_at_a_moment_of_the_call`).
-/

namespace NodeInventory.Writers

open NodeInventory.Action
open Pass (Current)

variable {shelf : Shelf} {calls : ℕ → Call} {room : Room (Result (Option Reconciliation))}
  {moments : List Moment} {i : ℕ} {clusterId : String} {retry : RetryPolicy} {snapshot : Spec}
  {outcome : Reconciliation}

/-- What a call has seen that has come to its end bears out what it says. -/
theorem testifies_of_run (hrun : Run Step (Room.opened shelf calls) moments room)
    (hcall : calls i = .reconcile clusterId retry snapshot)
    (hend : room.calls i = .done (.ok (some outcome))) :
    Testifies snapshot (testimony i moments) (.ok outcome) := by
  have hstart : ((Room.opened shelf calls).calls i).Meets (testifying (MayTell clusterId snapshot))
      (fun seen result ↦ ∀ outcome, result = .ok (some outcome) →
        Testifies snapshot seen (.ok outcome)) [] := by
    simp only [Room.opened, hcall]
    refine .bind ((reconcile_testifies retry).imp fun seen result hresult ↦ ?_)
    cases result with
    | error f => exact fun _ h ↦ by cases h
    | ok outcome =>
      rintro _ ⟨⟩
      exact hresult
  have hmeets := meets_testimony hrun hstart
  rw [hend] at hmeets
  exact hmeets outcome rfl

/-- A record that was missing, and was there later. -/
theorem Preceded.exists_moments (h : Preceded snapshot (testimony i moments))
    {start : Room (Result (Option Reconciliation))} (hrun : Run Step start moments room)
    (hstart : start.shelf.Sound) :
    ∃ earlier absent between present later,
      moments = earlier ++ absent :: between ++ present :: later ∧ absent.By i ∧ present.By i ∧
        absent.after.record? snapshot.nodeName = none ∧
          ∃ x, present.after.record? snapshot.nodeName = some x := by
  obtain ⟨e, hseen, he⟩ := h.found
  obtain ⟨earlier, absent, between, present, later, rfl, habsent, hpresent⟩ :=
    exists_moments_of_sublist hseen
  refine ⟨earlier, absent, between, present, later, rfl, ⟨_, habsent⟩, ⟨_, hpresent⟩, ?_, ?_⟩
  · obtain ⟨-, hanswer⟩ := answers_of_mem hrun hstart (by simp) habsent
    obtain ⟨hnone, hsame⟩ := hanswer.of_fetched
    rw [hsame, hnone]
  · obtain ⟨x, rfl⟩ | ⟨f, hexists, rfl⟩ := he
    · obtain ⟨-, hanswer⟩ := answers_of_mem hrun hstart (by simp) hpresent
      obtain ⟨hsome, hsame⟩ := hanswer.of_fetched
      exact ⟨x, hsame ▸ hsome⟩
    · obtain ⟨-, hanswer⟩ := answers_of_mem hrun hstart (by simp) hpresent
      obtain ⟨hsome, hsame⟩ := hanswer.of_alreadyExists hexists
      rw [hsame]
      exact hsome

/-- A call that succeeds by creating a record, writing it or finding it unchanged has met it at some
moment as the snapshot has it. One that says that the record was there already has found it missing
and then found it, and has changed nothing. -/
theorem reconciled_at_a_moment_of_the_call (hshelf : shelf.Sound)
    (hrun : Run Step (Room.opened shelf calls) moments room)
    (hcall : calls i = .reconcile clusterId retry snapshot)
    (hend : room.calls i = .done (.ok (some outcome))) :
    (outcome ≠ .alreadyPresent →
      ∃ m ∈ moments, m.By i ∧ Current snapshot (m.after.record? snapshot.nodeName)) ∧
    (outcome = .alreadyPresent →
      (∃ earlier absent between present later,
        moments = earlier ++ absent :: between ++ present :: later ∧ absent.By i ∧ present.By i ∧
          absent.after.record? snapshot.nodeName = none ∧
            ∃ x, present.after.record? snapshot.nodeName = some x) ∧
      ∀ m ∈ moments, m.By i → m.after = m.before) := by
  obtain ⟨hmet, hfound⟩ := testifies_of_run hrun hcall hend outcome rfl
  refine ⟨fun houtcome ↦ ?_, fun houtcome ↦ ?_⟩
  · obtain ⟨spec, hstored, hstatus, hresources⟩ := hmet houtcome
    obtain ⟨m, hm, hby, x, hx, rfl⟩ := hstored.exists_moment hrun hshelf
    exact ⟨m, hm, hby, x, hx, hstatus, hresources⟩
  · have hpreceded := hfound houtcome
    refine ⟨hpreceded.exists_moments hrun hshelf, fun m hm ⟨e, hevent⟩ ↦ ?_⟩
    have hseen : e ∈ testimony i moments :=
      List.mem_filterMap.mpr ⟨m, hm, Moment.exchange?_eq_some.mpr hevent⟩
    exact (answers_of_mem hrun hshelf hm hevent).2.eq_of_idle (hpreceded.idle e hseen)

/-- A record may be written by somebody else right after it was found unchanged, and the call
succeeds nevertheless. -/
theorem found_unchanged_before_it_was_overwritten :
    let snapshot : Spec := { nodeName := "a", status := "Ready" }
    let stored : Record := .ofSpec snapshot
    let shelf := Shelf.empty.write stored "1"
    let calls : ℕ → Call := fun _ ↦ .reconcile "c" ⟨1, 0⟩ snapshot
    ∃ moments room, Run Step (Room.opened shelf calls) moments room ∧
      room.calls 0 = .done (.ok (some .unchanged)) ∧ ¬Current snapshot (room.shelf.record? "a") ∧
      ∃ m ∈ moments, m.By 0 ∧ Current snapshot (m.after.record? "a") := by
  intro snapshot stored shelf calls
  have hshelf : shelf.Sound := (Shelf.Change.write stored (by simp [Shelf.empty])).sound
    Shelf.sound_empty
  have hread : shelf.Answers (.fetchRecord "a") (.ok (some (stored.at "1"))) shelf := .fetched "a"
  have hbegun := (@Run.nil _ _ Step (Room.opened shelf calls)).snoc (.asked (i := 0) rfl hread)
  have hrun := hbegun.snoc (.stored (v := "2") (.ofSpec { nodeName := "a", status := "NotReady" })
    (by simp [shelf, Shelf.empty]))
  refine ⟨_, _, hrun, rfl, ?_, ?_⟩
  · rintro ⟨x, ⟨⟩, hstatus, -⟩
    exact absurd hstatus (by decide)
  · exact (reconciled_at_a_moment_of_the_call (i := 0) hshelf hrun rfl rfl).1 (by decide)

/-- Somebody else creates the record with another status after it was found missing. The call
succeeds, and the record was at no moment as the snapshot has it. -/
theorem success_with_a_record_never_in_line :
    let snapshot : Spec := { nodeName := "a", status := "Ready" }
    let calls : ℕ → Call := fun _ ↦ .reconcile "c" ⟨1, 0⟩ snapshot
    ∃ moments room, Run Step (Room.opened Shelf.empty calls) moments room ∧
      room.calls 0 = .done (.ok (some .alreadyPresent)) ∧
      ∀ m ∈ moments, ¬Current snapshot (m.before.record? "a") ∧
        ¬Current snapshot (m.after.record? "a") := by
  intro snapshot calls
  let other : Record := .ofSpec { nodeName := "a", status := "NotReady" }
  have hmissing : Shelf.empty.Answers (.fetchRecord "a") (.ok none) Shelf.empty := .fetched "a"
  have hbegun := (@Run.nil _ _ Step (Room.opened Shelf.empty calls)).snoc
    (.asked (i := 0) rfl hmissing)
  have hmeanwhile := hbegun.snoc (.stored (v := "1") other (by simp [Shelf.empty]))
  have hfound : (Shelf.empty.write other "1").Answers (.fetchRecord "a")
      (.ok (some (other.at "1"))) (Shelf.empty.write other "1") := .fetched "a"
  have htold : (Shelf.empty.write other "1").Answers
      (.callFleet (.add (.ofSpec "c" (other.at "1").spec))) (.ok { code := 200 })
      (Shelf.empty.write other "1") := .other rfl _
  have hrun := (hmeanwhile.snoc (.asked (i := 0) rfl hfound)).snoc (.asked (i := 0) rfl htold)
  have hempty : ¬Current snapshot (Shelf.empty.record? "a") := by
    rintro ⟨x, ⟨⟩, -⟩
  have hother : ¬Current snapshot ((Shelf.empty.write other "1").record? "a") := by
    rintro ⟨x, ⟨⟩, hstatus, -⟩
    exact absurd hstatus (by decide)
  refine ⟨_, _, hrun, rfl, fun m hm ↦ ?_⟩
  simp only [List.nil_append, List.cons_append, List.mem_cons, List.not_mem_nil, or_false] at hm
  rcases hm with rfl | rfl | rfl | rfl
  · exact ⟨hempty, hempty⟩
  · exact ⟨hempty, hother⟩
  · exact ⟨hother, hother⟩
  · exact ⟨hother, hother⟩

end NodeInventory.Writers
