import NodeInventory.Proofs.Queue.Office

/-!
# Nothing in the queue is lost

Whatever was pushed is in the list, with a clerk, or worked off, and nowhere twice. Every text that
is taken off the list is handed over once, to the clerk who took it, and stays with that clerk until
the program that it stands for has ended (`Dispatching`). Failures of the list and the signal to
shut down come between two texts and never between taking a text and being done with it.

What is kept by every step is told in two parts: how the texts are distributed (`Ledger`), and what
each clerk is about (`Busy`).
-/

namespace NodeInventory.Office

open Event
open Pass (Clerk)

variable {queue : String} {handlers : Task.Handlers} {s t : Office}
  {labels : List Event} {l : Event} {i j : ℕ} {raw : String} {clerk clerk' : Clerk}

/-- The clerk was last told of the text, and since then has come with the program for it to what is
left of the program. -/
def Dispatching (handlers : Task.Handlers) (i : ℕ) (labels : List Event)
    (raw : String) (p : Program (Result Unit)) : Prop :=
  ∃ past between, labels = past ++ .told i .waiting (.popped raw) [] :: between ∧
    (∀ e ∈ between, e.tells i = false) ∧
    Run (fun x (e : Exchange) y ↦ Program.Step x e.request e.answer y)
      (Task.dispatch handlers raw) (between.filterMap (asked? i)) p

/-! ## Where the texts are -/

/-- The texts that were pushed were taken in their order or are in the list, and those that were
taken are with a clerk or worked off. -/
structure Ledger (queue : String) (labels : List Event) (s : Office) : Prop where
  order : labels.filterMap pushed? = labels.filterMap popped? ++ s.coordination.list queue
  taken : (labels.filterMap popped?).Perm
    (s.clerks.filterMap (·.worker.held?) ++ labels.filterMap handled?)

theorem perm_held_set {clerks : List Clerk} (hclerk : clerks[i]? = some clerk) (clerk' : Clerk) :
    (clerk.worker.held?.toList ++ (clerks.set i clerk').filterMap (·.worker.held?)).Perm
      (clerk'.worker.held?.toList ++ clerks.filterMap (·.worker.held?)) := by
  obtain ⟨hi, hget⟩ := List.getElem?_eq_some_iff.mp hclerk
  have hmiddle : ∀ c : Clerk,
      ((clerks.take i ++ c :: clerks.drop (i + 1)).filterMap (·.worker.held?)).Perm
        (c.worker.held?.toList ++
          (clerks.take i ++ clerks.drop (i + 1)).filterMap (·.worker.held?)) := fun c ↦
    (List.perm_middle.filterMap _).trans (.of_eq (by
      rw [List.filterMap_cons]
      cases c.worker.held? <;> rfl))
  have hold := hmiddle clerk
  rw [← hget, List.getElem_cons_drop, List.take_append_drop, hget] at hold
  rw [List.set_eq_take_cons_drop _ hi]
  exact ((hmiddle clerk').append_left _).trans <|
    (List.perm_append_comm_assoc ..).trans (hold.symm.append_left _)

/-- What was taken is with the clerks or worked off still, if a clerk who takes a text has it then,
and one who has worked one off has it no more. -/
theorem Ledger.taken_set (h : Ledger queue labels s) (hclerk : s.clerks[i]? = some clerk)
    (hmove : (l.popped?.toList ++ clerk.worker.held?.toList).Perm
      (clerk'.worker.held?.toList ++ l.handled?.toList)) :
    ((labels ++ [l]).filterMap popped?).Perm
      ((s.clerks.set i clerk').filterMap (·.worker.held?) ++
        (labels ++ [l]).filterMap handled?) := by
  have hset := perm_held_set hclerk clerk'
  have htaken := h.taken
  rw [filterMap_snoc, filterMap_snoc]
  simp only [List.perm_iff_count, List.count_append] at hset htaken hmove ⊢
  intro raw
  have := hset raw
  have := htaken raw
  have := hmove raw
  omega

theorem Ledger.step (h : Ledger queue labels s) (hstep : Step queue handlers s l t) :
    Ledger queue (labels ++ [l]) t := by
  cases hstep with
  | pushed raw =>
    constructor
    · rw [filterMap_snoc, filterMap_snoc, h.order, KeyStore.list_push]
      simp [pushed?, popped?]
    · rw [filterMap_snoc_none rfl, filterMap_snoc_none rfl]
      exact h.taken
  | signalled =>
    constructor
    · rw [filterMap_snoc_none rfl, filterMap_snoc_none rfl]
      exact h.order
    · rw [filterMap_snoc_none rfl, filterMap_snoc_none rfl]
      exact h.taken
  | popped hclerk hpop hworker =>
    obtain ⟨hwaiting, rfl, rfl⟩ := Worker.step_popped hworker
    constructor
    · rw [filterMap_snoc, filterMap_snoc, h.order, KeyStore.list_of_pop? hpop]
      simp [pushed?, popped?]
    · refine h.taken_set hclerk ?_
      rw [hwaiting]
      exact .refl _
  | asked hclerk hstep =>
    constructor
    · rw [filterMap_snoc_none rfl, filterMap_snoc_none rfl]
      exact h.order
    · exact h.taken_set hclerk (by simp [popped?, handled?])
  | handled hclerk hwork hended hworker =>
    obtain ⟨raw, hhandling, rfl, rfl⟩ := Worker.step_handled hworker
    constructor
    · rw [filterMap_snoc_none rfl, filterMap_snoc_none rfl]
      exact h.order
    · refine h.taken_set hclerk ?_
      rw [hhandling]
      exact .refl _
  | other hclerk hinput hshut hworker =>
    obtain ⟨hbefore, hafter, -⟩ := Worker.step_other hinput hworker
    obtain ⟨hpopped, hhandled⟩ := popped?_of_isOther hinput
    constructor
    · rw [filterMap_snoc_none rfl, filterMap_snoc_none hpopped]
      exact h.order
    · refine h.taken_set hclerk ?_
      rw [hbefore, hafter, hpopped, hhandled]

/-! ## What a clerk is about -/

/-- What a clerk took it has worked off or holds, and it has something left to do just if it holds a
text, of which it came to what is left. -/
structure Busy (handlers : Task.Handlers) (i : ℕ) (labels : List Event)
    (clerk : Clerk) : Prop where
  own : labels.filterMap (poppedBy? i) =
    labels.filterMap (handledBy? i) ++ clerk.worker.held?.toList
  idle : clerk.work = none → clerk.worker.held? = none
  dispatching : ∀ p, clerk.work = some p →
    ∃ raw, clerk.worker = .handling raw ∧ Dispatching handlers i labels raw p

theorem Busy.snoc (h : Busy handlers i labels clerk) (htells : l.tells i = false)
    (hasked : l.asked? i = none) : Busy handlers i (labels ++ [l]) clerk := by
  refine ⟨?_, h.idle, fun p hp ↦ ?_⟩
  · rw [filterMap_snoc_none (by simp [poppedBy?, htells]),
      filterMap_snoc_none (by simp [handledBy?, htells])]
    exact h.own
  · obtain ⟨raw, hworker, past, between, rfl, hbetween, hrun⟩ := h.dispatching p hp
    refine ⟨raw, hworker, past, between ++ [l], by simp, fun e he ↦ ?_, ?_⟩
    · obtain he | he := List.mem_append.mp he
      · exact hbetween e he
      · exact List.mem_singleton.mp he ▸ htells
    · rwa [filterMap_snoc_none hasked]

theorem Busy.work_eq_none (h : Busy handlers i labels clerk) (hheld : clerk.worker.held? = none) :
    clerk.work = none := by
  cases hwork : clerk.work with
  | none => rfl
  | some p =>
    obtain ⟨raw, hworker, -⟩ := h.dispatching p hwork
    rw [hworker] at hheld
    cases hheld

/-- If one clerk goes on, the others are about what they were about. -/
theorem Busy.set (h : ∀ j clerk, s.clerks[j]? = some clerk → Busy handlers j labels clerk)
    (hl : ∀ j, j ≠ i → l.tells j = false ∧ l.asked? j = none)
    (hclerk' : Busy handlers i (labels ++ [l]) clerk') (j : ℕ) (c : Clerk)
    (hc : (s.clerks.set i clerk')[j]? = some c) : Busy handlers j (labels ++ [l]) c := by
  by_cases hj : j = i
  · subst hj
    obtain ⟨_, rfl⟩ : j < s.clerks.length ∧ clerk' = c := by
      simpa [List.getElem?_set] using hc
    exact hclerk'
  · rw [List.getElem?_set_ne (Ne.symm hj)] at hc
    exact (h j c hc).snoc (hl j hj).1 (hl j hj).2

theorem Busy.step (h : ∀ j clerk, s.clerks[j]? = some clerk → Busy handlers j labels clerk)
    (hstep : Step queue handlers s l t) :
    ∀ j clerk, t.clerks[j]? = some clerk → Busy handlers j (labels ++ [l]) clerk := by
  cases hstep with
  | pushed raw => exact fun j clerk hclerk ↦ (h j clerk hclerk).snoc rfl rfl
  | signalled => exact fun j clerk hclerk ↦ (h j clerk hclerk).snoc rfl rfl
  | @popped i clerk worker raw coordination notes hclerk hpop hworker =>
    obtain ⟨hwaiting, rfl, rfl⟩ := Worker.step_popped hworker
    refine .set h (fun j hj ↦ ⟨by simp [tells, Ne.symm hj], rfl⟩) ⟨?_, nofun, fun p hp ↦ ?_⟩
    · have hown := (h i clerk hclerk).own
      rw [hwaiting] at hown ⊢
      rw [filterMap_snoc, filterMap_snoc, hown]
      simp [poppedBy?, handledBy?, tells, popped?, handled?, Worker.held?]
    · cases hp
      exact ⟨raw, rfl, labels, [], by rw [hwaiting], by simp, .nil⟩
  | @asked i worker p q e hclerk hstep =>
    have hbusy := h i _ hclerk
    obtain ⟨raw, hworker, past, between, rfl, hbetween, hrun⟩ := hbusy.dispatching p rfl
    refine .set h (fun j hj ↦ ⟨rfl, by simp [asked?, Ne.symm hj]⟩) ⟨?_, nofun, fun p hp ↦ ?_⟩
    · rw [filterMap_snoc_none rfl, filterMap_snoc_none rfl]
      exact hbusy.own
    · cases hp
      refine ⟨raw, hworker, past, between ++ [.asked i e], by simp, fun e he ↦ ?_, ?_⟩
      · obtain he | he := List.mem_append.mp he
        · exact hbetween e he
        · exact List.mem_singleton.mp he ▸ rfl
      · rw [filterMap_snoc]
        simpa [asked?] using hrun.snoc hstep
  | @handled i clerk worker p result notes hclerk hwork hended hworker =>
    obtain ⟨raw, hhandling, rfl, rfl⟩ := Worker.step_handled hworker
    refine .set h (fun j hj ↦ ⟨by simp [tells, Ne.symm hj], rfl⟩) ⟨?_, fun _ ↦ rfl, nofun⟩
    have hown := (h i clerk hclerk).own
    rw [hhandling] at hown ⊢
    rw [filterMap_snoc, filterMap_snoc, hown]
    simp [poppedBy?, handledBy?, tells, popped?, handled?, Worker.held?]
  | @other i clerk worker input notes hclerk hinput hshut hworker =>
    obtain ⟨hbefore, hafter, -⟩ := Worker.step_other hinput hworker
    obtain ⟨hpopped, hhandled⟩ : (told i clerk.worker input notes).popped? = none ∧
        (told i clerk.worker input notes).handled? = none := popped?_of_isOther hinput
    have hbusy := h i clerk hclerk
    refine .set h (fun j hj ↦ ⟨by simp [tells, Ne.symm hj], rfl⟩) ⟨?_, fun _ ↦ hafter, ?_⟩
    · rw [filterMap_snoc_none (by simp [poppedBy?, hpopped]),
        filterMap_snoc_none (by simp [handledBy?, hhandled]), hafter, hbusy.own, hbefore]
    · intro p hp
      exact absurd (hbusy.work_eq_none hbefore ▸ hp : none = some p) nofun

/-! ## What is noted -/

theorem Step.length_processed? (hstep : Step queue handlers s l t) :
    (l.notes.filterMap Worker.processed?).length = l.handled?.toList.length := by
  cases hstep with
  | pushed | signalled | asked => rfl
  | popped hclerk hpop hworker =>
    obtain ⟨-, -, rfl⟩ := Worker.step_popped hworker
    rfl
  | handled hclerk hwork hended hworker =>
    obtain ⟨raw, hhandling, -, rfl⟩ := Worker.step_handled hworker
    rw [hhandling]
    exact Worker.length_processed?_remarks raw _
  | other hclerk hinput hshut hworker =>
    obtain ⟨-, -, hnotes⟩ := Worker.step_other hinput hworker
    rw [notes, hnotes, (popped?_of_isOther hinput).2]
    rfl

/-- In an office that opened with an empty list nothing is lost, whatever happens in it. -/
structure Conserved (queue : String) (handlers : Task.Handlers)
    (labels : List Event) (s : Office) : Prop where
  /-- What was pushed is in the list, or held by a clerk who holds nothing else, or worked off. -/
  pushed : (labels.filterMap pushed?).Perm (s.coordination.list queue ++
    s.clerks.filterMap (·.worker.held?) ++ labels.filterMap handled?)
  /-- The texts are taken off the list in the order in which they were pushed. -/
  order : labels.filterMap pushed? = labels.filterMap popped? ++ s.coordination.list queue
  /-- A clerk works off every text that it takes, one after another. -/
  own : ∀ i clerk, s.clerks[i]? = some clerk → labels.filterMap (poppedBy? i) =
    labels.filterMap (handledBy? i) ++ clerk.worker.held?.toList
  /-- What a clerk has left to do is what is left of the one program for the text that it holds. -/
  dispatching : ∀ i clerk p, s.clerks[i]? = some clerk → clerk.work = some p →
    ∃ raw, clerk.worker = .handling raw ∧ Dispatching handlers i labels raw p
  /-- A text is worked off when the one program for it has ended, with what it ended with. A report
  is made of a failure only, and it has the text for its subject. -/
  handled : ∀ past future i worker result notes,
    labels = past ++ .told i worker (.handled result) notes :: future →
    ∃ raw p, worker = .handling raw ∧ Dispatching handlers i past raw p ∧ p.Ended result ∧
      notes.filterMap Request.report? =
        match result with
        | .ok () => []
        | .error f => [⟨.worker, raw, f⟩]
  /-- As many texts are counted, as those that did not fail and those that did, as are worked off.
  -/
  processed : ((labels.flatMap notes).filterMap Worker.processed?).count true +
    ((labels.flatMap notes).filterMap Worker.processed?).count false =
      (labels.filterMap handled?).length
  /-- When all clerks have left, none has anything left to do, and all that was taken is worked off.
  -/
  stopped : (∀ clerk ∈ s.clerks, clerk.worker = .stopped) →
    (∀ clerk ∈ s.clerks, clerk.work = none) ∧
      (labels.filterMap popped?).Perm (labels.filterMap handled?)

variable {coordination : KeyStore} {count : ℕ}

theorem ledger_of_run (hempty : coordination.list queue = [])
    (hrun : Run (Step queue handlers) (opened coordination count) labels s) :
    Ledger queue labels s := by
  induction hrun with
  | nil =>
    have hheld : (opened coordination count).clerks.filterMap (·.worker.held?) = [] := by
      simp [opened, Worker.held?]
    exact ⟨hempty.symm, by rw [hheld]; exact .nil⟩
  | snoc _ hstep ih => exact ih.step hstep

theorem busy_of_run (hrun : Run (Step queue handlers) (opened coordination count) labels s) :
    ∀ i clerk, s.clerks[i]? = some clerk → Busy handlers i labels clerk := by
  induction hrun with
  | nil =>
    intro i clerk hclerk
    obtain rfl : clerk = {} := List.eq_of_mem_replicate (List.mem_of_getElem? hclerk)
    exact ⟨rfl, fun _ ↦ rfl, nofun⟩
  | snoc _ hstep ih => exact Busy.step ih hstep

theorem processed_of_run (hrun : Run (Step queue handlers) (opened coordination count) labels s) :
    ((labels.flatMap notes).filterMap Worker.processed?).length =
      (labels.filterMap handled?).length := by
  induction hrun with
  | nil => rfl
  | snoc _ hstep ih =>
    rw [filterMap_snoc, List.flatMap_append, List.filterMap_append, List.length_append,
      List.length_append, ih, List.flatMap_singleton, hstep.length_processed?]

/-- Whatever is pushed, whenever clerks take texts off the list or fail to, whatever the texts stand
for and however that ends, and whenever the signal to shut down is given: nothing is lost, and
nothing is worked off twice. -/
theorem texts_are_conserved (hempty : coordination.list queue = [])
    (hrun : Run (Step queue handlers) (opened coordination count) labels s) :
    Conserved queue handlers labels s := by
  obtain ⟨horder, htaken⟩ := ledger_of_run hempty hrun
  have hbusy := busy_of_run hrun
  refine ⟨?_, horder, fun i clerk hclerk ↦ (hbusy i clerk hclerk).own,
    fun i clerk p hclerk ↦ (hbusy i clerk hclerk).dispatching p, ?_, ?_, fun hstopped ↦ ⟨?_, ?_⟩⟩
  · rw [horder]
    refine List.perm_append_comm.trans ?_
    rw [List.append_assoc]
    exact htaken.append_left _
  · rintro past future i worker result notes rfl
    obtain ⟨before, after, hpast, hstep, -⟩ := hrun.exists_step
    cases hstep with
    | handled hclerk hwork hended hworker =>
      obtain ⟨raw, hhandling, hdispatching⟩ := (busy_of_run hpast i _ hclerk).dispatching _ hwork
      obtain ⟨raw', hhandling', -, rfl⟩ := Worker.step_handled hworker
      obtain rfl : raw = raw' := by
        rw [hhandling] at hhandling'
        exact Worker.handling.inj hhandling'
      refine ⟨raw, _, hhandling, hdispatching, hended, ?_⟩
      cases result <;> rfl
    | other hclerk hinput => cases hinput
  · rw [List.count_true_add_count_false]
    exact processed_of_run hrun
  · intro clerk hclerk
    obtain ⟨i, hi⟩ := List.mem_iff_getElem?.mp hclerk
    exact (hbusy i clerk hi).work_eq_none (by rw [hstopped clerk hclerk]; rfl)
  · have hheld : s.clerks.filterMap (·.worker.held?) = [] :=
      List.filterMap_eq_nil_iff.mpr fun clerk hclerk ↦ by rw [hstopped clerk hclerk]; rfl
    rwa [hheld] at htaken

/-- Of two texts one is taken, cannot be read, and is reported, while the list fails the other clerk
and the signal to shut down is given; the other text stays in the list. -/
theorem unreadable_text_is_conserved :
    let handlers : Task.Handlers := ⟨default, fun _ ↦ none⟩
    ∃ labels s, KeyStore.empty.list "tasks" = [] ∧
      Run (Step "tasks" handlers) (opened .empty 2) labels s ∧
      s.coordination.list "tasks" = ["b"] ∧ labels.filterMap handled? = ["a"] ∧
      (∀ clerk ∈ s.clerks, clerk.worker = .stopped) ∧
      Conserved "tasks" handlers labels s := by
  intro handlers
  have hlist : ((KeyStore.empty.push "tasks" "a").push "tasks" "b").list "tasks" = ["a", "b"] := by
    rw [KeyStore.list_push, KeyStore.list_push]
    rfl
  obtain ⟨coordination, hpop⟩ := KeyStore.exists_pop? hlist
  have hrest : coordination.list "tasks" = ["b"] := by
    simpa [hlist] using (KeyStore.list_of_pop? hpop).symm
  let fault : Failure := Task.envelopeFault handlers.wording "a"
  have hread : Task.dispatch handlers "a" = .done (.error fault) := by
    have : Task.decode handlers.wording "a" = .error fault := by cbv
    rw [Task.dispatch, this]
    rfl
  have hended : (Task.dispatch handlers "a").Ended (.error fault) := by
    rw [hread]
    exact .done _
  have hopen : Run (Step "tasks" handlers) (opened .empty 2) [] _ := .nil
  have htwo := (hopen.snoc (.pushed _ "a")).snoc (.pushed _ "b")
  have htaken := (htwo.snoc (.other (i := 0) rfl
    (rfl : (Worker.Input.popFailed (.plain "gone")).isOther = true)
    (fun hinput ↦ by cases hinput) rfl)).snoc (.popped (i := 1) rfl hpop rfl)
  have hhandled := (htaken.snoc (.signalled _)).snoc (.handled (i := 1) rfl rfl hended rfl)
  have hrun := (hhandled.snoc (.other (i := 0) rfl
    (rfl : Worker.Input.shutdown.isOther = true) (fun _ ↦ rfl) rfl)).snoc
      (.other (i := 1) rfl (rfl : Worker.Input.shutdown.isOther = true) (fun _ ↦ rfl) rfl)
  refine ⟨_, _, rfl, hrun, hrest, rfl, ?_, texts_are_conserved rfl hrun⟩
  simp [opened]

end NodeInventory.Office
