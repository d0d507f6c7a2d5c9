import Mathlib.Data.List.Basic
import NodeInventory.Proofs.Retry.Rounds

/-!
# Conflicts are retried within bounds

Whatever the store answers, a reconciliation writes over a record at most as often as it has
attempts (`retries_are_bounded`). Each write goes with the reading right before it, and between two
writes there is one pause and one new reading. Nobody is kept waiting after a write that was refused
for another reason than a conflict, and only after a conflict in every attempt the reconciliation
gives up.

All of this is read off the rounds. A round is a reading, and perhaps a write right after it
(`Rounds`), so the writes of a reconciliation are as many as its rounds at most, and what is
exchanged between two of them is the end of one round and the beginning of the next.
-/

namespace NodeInventory

open NodeInventory.Action

/-! ## Writes -/

namespace Exchange

/-- The exchange is a write over a record that was read. -/
def isUpdate (e : Exchange) : Bool := e.request.kind = .updateRecord

/-- The exchange is the storing of a new record. -/
def isCreate (e : Exchange) : Bool := e.request.kind = .createRecord

/-- Why a write over a record was refused, if it was. -/
def refusal? : Exchange → Option Failure
  | ⟨.updateRecord _ _, .error f⟩ => some f
  | _ => none

/-- The exchange is a write that was refused because the record had changed. -/
def metConflict (e : Exchange) : Bool := e.refusal?.any (·.isConflict)

/-- The exchange is a write that was refused for another reason. -/
def refusedForGood (e : Exchange) : Bool := e.refusal?.any (!·.isConflict)

/-- The exchange counts a conflict. -/
def countsConflict : Exchange → Bool
  | ⟨.count .updateConflicts, _⟩ => true
  | _ => false

variable {e : Exchange}

theorem isUpdate_of_refusal? {f : Failure} (h : e.refusal? = some f) : e.isUpdate := by
  unfold refusal? at h
  split at h
  · rfl
  · cases h

theorem isUpdate_of_metConflict (h : e.metConflict) : e.isUpdate := by
  rw [metConflict, Option.any_eq_true] at h
  obtain ⟨f, hf, -⟩ := h
  exact isUpdate_of_refusal? hf

theorem refusedForGood_eq_false (h : e.isUpdate = false) : e.refusedForGood = false := by
  rw [refusedForGood, Bool.eq_false_iff, ne_eq, Option.any_eq_true]
  rintro ⟨f, hf, -⟩
  simpa [h] using isUpdate_of_refusal? hf

theorem refusedForGood_of_refusal? {f : Failure} (h : e.refusal? = some f) (hf : ¬ f.isConflict) :
    e.refusedForGood := by
  simp [refusedForGood, h, hf]

end Exchange

/-- The writes among what was exchanged. -/
def updates (log : List Exchange) : List Exchange := log.filter (·.isUpdate)

theorem Fleet.asks_tell (source : Report.Source) (subject : String) (call : Fleet.Call) :
    (tell source subject call).Asks fun r ↦
      r = .callFleet call ∨ r = .count .fleetCallErrors ∨ ∃ report, r = .report report := by
  refine asks_bind ?_ fun result ↦ ?_
  · refine asks_ask_bind (.inl rfl) fun answer ↦ ?_
    split
    · trivial
    · exact ⟨.inr (.inl rfl), fun _ ↦ trivial⟩
  · cases result with
    | ok _ => trivial
    | error f => exact ⟨.inr (.inr ⟨_, rfl⟩), fun _ ↦ trivial⟩

namespace Record

variable {clusterId : String} {snapshot : Spec} {retry : RetryPolicy}
  {log first rest : List Exchange} {result : Result Reconciliation} {f : Failure} {left : ℕ}

/-! ## Rounds one by one -/

/-- The exchange changes no record, and counts no conflict. -/
def Aside (e : Exchange) : Prop :=
  e.isUpdate = false ∧ e.isCreate = false ∧ e.countsConflict = false

theorem aside_of_told {name : String} {call : Fleet.Call} (h : Told name call log) :
    ∀ e ∈ log, Aside e := by
  intro ⟨r, a⟩ he
  obtain rfl | rfl | ⟨report, rfl⟩ : r = _ ∨ _ := (Fleet.asks_tell _ _ _).of_plays h _ he
  · exact ⟨rfl, rfl, rfl⟩
  · exact ⟨rfl, rfl, rfl⟩
  · exact ⟨rfl, rfl, rfl⟩

theorem countP_isCreate_of_told {name : String} {call : Fleet.Call} (h : Told name call log) :
    log.countP (·.isCreate) = 0 :=
  List.countP_eq_zero.mpr fun e he ↦ by simp [(aside_of_told h e he).2.1]

theorem quiet_of_told {name : String} {call : Fleet.Call} (h : Told name call log) :
    ∀ e ∈ log, e.isUpdate = false ∧ e.countsConflict = false :=
  fun e he ↦ ⟨(aside_of_told h e he).1, (aside_of_told h e he).2.2⟩

theorem Created.quiet (h : Created clusterId snapshot log result) :
    ∀ e ∈ log, e.isUpdate = false ∧ e.countsConflict = false := by
  cases h with
  | unread f => exact List.forall_mem_singleton.mpr ⟨rfl, rfl⟩
  | present x h => exact List.forall_mem_cons.mpr ⟨⟨rfl, rfl⟩, quiet_of_told h⟩
  | created h =>
    iterate 3 refine List.forall_mem_cons.mpr ⟨⟨rfl, rfl⟩, ?_⟩
    exact quiet_of_told h
  | forestalled hf h =>
    iterate 2 refine List.forall_mem_cons.mpr ⟨⟨rfl, rfl⟩, ?_⟩
    exact quiet_of_told h
  | refused hf =>
    exact List.forall_mem_cons.mpr ⟨⟨rfl, rfl⟩, List.forall_mem_singleton.mpr ⟨rfl, rfl⟩⟩

theorem Created.countP_isCreate_le (h : Created clusterId snapshot log result) :
    log.countP (·.isCreate) ≤ 1 := by
  cases h with
  | unread f => exact Nat.zero_le 1
  | present x h =>
    rw [List.countP_cons, countP_isCreate_of_told h]
    exact Nat.zero_le 1
  | created h =>
    iterate 3 rw [List.countP_cons]
    rw [countP_isCreate_of_told h]
    exact Nat.le_refl 1
  | forestalled hf h =>
    iterate 2 rw [List.countP_cons]
    rw [countP_isCreate_of_told h]
    exact Nat.le_refl 1
  | refused hf => exact Nat.le_refl 1

theorem Settled.quiet (h : Settled clusterId snapshot log result) :
    ∀ e ∈ log, e.metConflict = false ∧ e.countsConflict = false := by
  have hquiet {log : List Exchange}
      (h : ∀ e ∈ log, e.isUpdate = false ∧ e.countsConflict = false) :
      ∀ e ∈ log, e.metConflict = false ∧ e.countsConflict = false := fun e he ↦
    ⟨Bool.eq_false_iff.mpr fun hmet ↦ by
      simpa [(h e he).1] using Exchange.isUpdate_of_metConflict hmet, (h e he).2⟩
  cases h with
  | unread f => exact List.forall_mem_singleton.mpr ⟨rfl, rfl⟩
  | missing h => exact List.forall_mem_cons.mpr ⟨⟨rfl, rfl⟩, hquiet h.quiet⟩
  | unchanged hx => exact List.forall_mem_singleton.mpr ⟨rfl, rfl⟩
  | unversioned hx hversion => exact List.forall_mem_singleton.mpr ⟨rfl, rfl⟩
  | updated hx hversion h =>
    iterate 3 refine List.forall_mem_cons.mpr ⟨⟨rfl, rfl⟩, ?_⟩
    exact hquiet (quiet_of_told h)
  | @refused x version f hx hversion hf =>
    have hmet : Exchange.metConflict
        ⟨.updateRecord { x with spec := snapshot } version, .error f⟩ = false :=
      Bool.eq_false_iff.mpr hf
    exact List.forall_mem_cons.mpr ⟨⟨rfl, rfl⟩, List.forall_mem_singleton.mpr ⟨hmet, rfl⟩⟩

theorem Settled.countP_isCreate_le (h : Settled clusterId snapshot log result) :
    log.countP (·.isCreate) ≤ 1 := by
  cases h with
  | unread f => exact Nat.zero_le 1
  | missing h =>
    rw [List.countP_cons]
    exact h.countP_isCreate_le
  | unchanged hx => exact Nat.zero_le 1
  | unversioned hx hversion => exact Nat.zero_le 1
  | updated hx hversion h =>
    iterate 3 rw [List.countP_cons]
    rw [countP_isCreate_of_told h]
    exact Nat.zero_le 1
  | refused hx hversion hf => exact Nat.zero_le 1

theorem Lost.countP_isCreate (h : Lost snapshot log f) : log.countP (·.isCreate) = 0 := by
  cases h
  rfl

theorem Lost.countP_conflict (h : Lost snapshot log f) :
    log.countP (·.metConflict) = 1 ∧ log.countP (·.countsConflict) = 1 := by
  cases h with
  | @conflict x version f hx hversion hf =>
    have hmet : Exchange.metConflict
        ⟨.updateRecord { x with spec := snapshot } version, .error f⟩ = true := hf
    refine ⟨?_, rfl⟩
    iterate 3 rw [List.countP_cons]
    rw [hmet]
    rfl

/-- What is exchanged in a round, seen from the writes: a reading, and perhaps a write over the
record that was read. -/
inductive Round (snapshot : Spec) : List Exchange → Prop
  | reading (answer : Result (Option Record)) {rest : List Exchange}
    (hrest : ∀ e ∈ rest, e.isUpdate = false) :
    Round snapshot (⟨.fetchRecord snapshot.nodeName, answer⟩ :: rest)
  | writing {x : Record} {version : String} (hversion : x.metadata.resourceVersion = some version)
    (answer : Result Unit) {rest : List Exchange} (hrest : ∀ e ∈ rest, e.isUpdate = false) :
    Round snapshot (⟨.fetchRecord snapshot.nodeName, .ok (some x)⟩ ::
      ⟨.updateRecord { x with spec := snapshot } version, answer⟩ :: rest)

theorem Lost.round (h : Lost snapshot log f) : Round snapshot log := by
  cases h with
  | conflict hx hversion hf => exact .writing hversion _ (List.forall_mem_singleton.mpr rfl)

theorem Settled.round (h : Settled clusterId snapshot log result) : Round snapshot log := by
  have hnil : ∀ e ∈ ([] : List Exchange), e.isUpdate = false :=
    fun e he ↦ absurd he List.not_mem_nil
  cases h with
  | unread f => exact .reading _ hnil
  | missing h => exact .reading _ fun e he ↦ (h.quiet e he).1
  | unchanged hx => exact .reading _ hnil
  | unversioned hx hversion => exact .reading _ hnil
  | updated hx hversion h =>
    exact .writing hversion _
      (List.forall_mem_cons.mpr ⟨rfl, fun e he ↦ (aside_of_told h e he).1⟩)
  | refused hx hversion hf => exact .writing hversion _ hnil

theorem Round.length_updates_le (h : Round snapshot log) : (updates log).length ≤ 1 := by
  have hnone {log : List Exchange} (h : ∀ e ∈ log, e.isUpdate = false) : updates log = [] :=
    List.filter_eq_nil_iff.mpr fun e he ↦ by simp [h e he]
  cases h with
  | @reading answer rest hrest =>
    have hcons : updates (⟨.fetchRecord snapshot.nodeName, answer⟩ :: rest) = updates rest := rfl
    rw [hcons, hnone hrest]
    exact Nat.zero_le 1
  | @writing x version hversion answer rest hrest =>
    have hcons : updates (⟨.fetchRecord snapshot.nodeName, .ok (some x)⟩ ::
        ⟨.updateRecord { x with spec := snapshot } version, answer⟩ :: rest) =
          ⟨.updateRecord { x with spec := snapshot } version, answer⟩ :: updates rest := rfl
    rw [hcons, hnone hrest]
    exact Nat.le_refl 1

/-- Every write over a record goes with the reading right before it: it has the version that was
read, and all that was read but the spec. -/
def WritesWhatWasRead (snapshot : Spec) (log : List Exchange) : Prop :=
  ∀ before e after, log = before ++ e :: after → e.isUpdate →
    ∃ earlier x version, before = earlier ++ [⟨.fetchRecord snapshot.nodeName, .ok (some x)⟩] ∧
      x.metadata.resourceVersion = some version ∧
      e.request = .updateRecord { x with spec := snapshot } version

theorem writesWhatWasRead_of_forall (h : ∀ e ∈ log, e.isUpdate = false) :
    WritesWhatWasRead snapshot log := by
  rintro before e after rfl he
  simp [h e (by simp)] at he

theorem WritesWhatWasRead.cons {d : Exchange} (hd : d.isUpdate = false)
    (h : WritesWhatWasRead snapshot log) : WritesWhatWasRead snapshot (d :: log) := by
  rintro (_ | ⟨d, before⟩) e after hlog he
  · obtain ⟨rfl, -⟩ := List.cons.inj hlog
    simp [hd] at he
  · obtain ⟨rfl, hrest⟩ := List.cons.inj hlog
    obtain ⟨earlier, x, version, rfl, hversion, hrequest⟩ := h before e after hrest he
    exact ⟨_ :: earlier, x, version, rfl, hversion, hrequest⟩

/-- A reading may come with a write over what was read. -/
theorem WritesWhatWasRead.write {x : Record} {version : String}
    (hversion : x.metadata.resourceVersion = some version) (answer : Result Unit)
    (h : WritesWhatWasRead snapshot log) :
    WritesWhatWasRead snapshot (⟨.fetchRecord snapshot.nodeName, .ok (some x)⟩ ::
      ⟨.updateRecord { x with spec := snapshot } version, answer⟩ :: log) := by
  rintro (_ | ⟨read, _ | ⟨written, before⟩⟩) e after hlog he
  all_goals simp only [List.cons_append, List.nil_append, List.cons.injEq] at hlog
  · obtain ⟨rfl, -⟩ := hlog
    cases he
  · obtain ⟨rfl, rfl, -⟩ := hlog
    exact ⟨[], x, version, rfl, hversion, rfl⟩
  · obtain ⟨earlier, x, version, rfl, hread⟩ := h before e after hlog.2.2 he
    exact ⟨read :: written :: earlier, x, version, rfl, hread⟩

theorem Round.writesWhatWasRead (h : Round snapshot log) : WritesWhatWasRead snapshot log := by
  cases h with
  | reading answer hrest => exact (writesWhatWasRead_of_forall hrest).cons rfl
  | writing hversion answer hrest => exact (writesWhatWasRead_of_forall hrest).write hversion answer

/-! ## All rounds -/

theorem Rounds.length_updates_le (h : Rounds clusterId retry snapshot left log result) :
    (updates log).length ≤ left + 1 := by
  induction h with
  | settled h => exact Nat.le_trans h.round.length_updates_le (Nat.le_add_left ..)
  | surrendered h => exact h.round.length_updates_le
  | again h hrest ih =>
    rw [updates, List.filter_append, List.length_append]
    exact Nat.add_comm _ _ ▸ Nat.add_le_add ih h.round.length_updates_le

theorem Rounds.countP_isCreate_le (h : Rounds clusterId retry snapshot left log result) :
    log.countP (·.isCreate) ≤ 1 := by
  induction h with
  | settled h => exact h.countP_isCreate_le
  | surrendered h =>
    rw [h.countP_isCreate]
    exact Nat.zero_le 1
  | again h hrest ih =>
    rw [List.countP_append, h.countP_isCreate, Nat.zero_add]
    exact ih

theorem Rounds.countP_countsConflict (h : Rounds clusterId retry snapshot left log result) :
    log.countP (·.countsConflict) = log.countP (·.metConflict) := by
  induction h with
  | settled h => exact List.countP_congr fun e he ↦ by simp [h.quiet e he]
  | surrendered h => rw [h.countP_conflict.1, h.countP_conflict.2]
  | again h hrest ih =>
    rw [List.countP_append, List.countP_append, h.countP_conflict.1, h.countP_conflict.2]
    exact congrArg (1 + ·) ih

theorem Rounds.writesWhatWasRead (h : Rounds clusterId retry snapshot left log result) :
    WritesWhatWasRead snapshot log := by
  induction h with
  | settled h => exact h.round.writesWhatWasRead
  | surrendered h => exact h.round.writesWhatWasRead
  | again h hrest ih =>
    cases h with
    | conflict hx hversion hf => exact ((ih.cons rfl).cons rfl).write hversion _

/-- Rounds begin with a reading, and if anything is written, then first right after it. -/
theorem Rounds.opening (h : Rounds clusterId retry snapshot left log result) :
    (∀ e ∈ log, e.isUpdate = false) ∨
      ∃ (answer : Result (Option Record)) (e : Exchange) (rest : List Exchange),
        log = ⟨.fetchRecord snapshot.nodeName, answer⟩ :: e :: rest ∧ e.isUpdate := by
  cases h with
  | settled h =>
    cases h.round with
    | reading answer hrest => exact .inl (List.forall_mem_cons.mpr ⟨rfl, hrest⟩)
    | writing hversion answer hrest => exact .inr ⟨_, _, _, rfl, rfl⟩
  | surrendered h =>
    cases h
    exact .inr ⟨_, _, _, rfl, rfl⟩
  | again h hrest =>
    cases h
    exact .inr ⟨_, _, _, rfl, rfl⟩

/-- Between two writes, one after the other, the conflict is counted, there is one pause, and the
record is read once. -/
def PausesBetweenWrites (delay : ℕ) (snapshot : Spec) (log : List Exchange) : Prop :=
  ∀ before e between e' after, log = before ++ e :: (between ++ e' :: after) →
    e.isUpdate → e'.isUpdate → (∀ d ∈ between, d.isUpdate = false) →
      ∃ answer : Result (Option Record),
        between = [⟨.count .updateConflicts, ()⟩, ⟨.pause delay, ()⟩,
          ⟨.fetchRecord snapshot.nodeName, answer⟩]

theorem two_le_length_updates {before between after : List Exchange} {e e' : Exchange}
    (he : e.isUpdate) (he' : e'.isUpdate) :
    2 ≤ (updates (before ++ e :: (between ++ e' :: after))).length := by
  simp [updates, he, he']
  omega

theorem Round.pausesBetweenWrites {delay : ℕ} (h : Round snapshot log) :
    PausesBetweenWrites delay snapshot log := by
  rintro before e between e' after rfl he he' -
  exact absurd (Nat.le_trans (two_le_length_updates he he') h.length_updates_le) (by decide)

/-- Before the first write, if there is one, a conflict is counted, there is one pause, and the
record is read once. -/
def PausesBeforeWrite (delay : ℕ) (snapshot : Spec) (log : List Exchange) : Prop :=
  ∀ between e' after, log = between ++ e' :: after →
    e'.isUpdate → (∀ d ∈ between, d.isUpdate = false) →
      ∃ answer : Result (Option Record),
        between = [⟨.count .updateConflicts, ()⟩, ⟨.pause delay, ()⟩,
          ⟨.fetchRecord snapshot.nodeName, answer⟩]

theorem PausesBetweenWrites.cons {delay : ℕ} {d : Exchange}
    (hd : d.isUpdate → PausesBeforeWrite delay snapshot log)
    (h : PausesBetweenWrites delay snapshot log) :
    PausesBetweenWrites delay snapshot (d :: log) := by
  rintro (_ | ⟨_, before⟩) e between e' after hlog he he' hbetween
  · obtain ⟨rfl, hrest⟩ := List.cons.inj hlog
    exact hd he between e' after hrest he' hbetween
  · exact h before e between e' after (List.cons.inj hlog).2 he he' hbetween

theorem exists_eq_cons_of_not_isUpdate {d e' : Exchange} {between after : List Exchange}
    (hlog : d :: log = between ++ e' :: after) (hd : d.isUpdate = false) (he' : e'.isUpdate) :
    ∃ between', between = d :: between' ∧ log = between' ++ e' :: after := by
  cases between with
  | nil =>
    obtain ⟨rfl, -⟩ := List.cons.inj hlog
    simp [hd] at he'
  | cons b between =>
    obtain ⟨rfl, hrest⟩ := List.cons.inj hlog
    exact ⟨between, rfl, hrest⟩

theorem Rounds.pausesBeforeWrite (h : Rounds clusterId retry snapshot left log result) :
    PausesBeforeWrite retry.delay snapshot
      (⟨.count .updateConflicts, ()⟩ :: ⟨.pause retry.delay, ()⟩ :: log) := by
  intro between e' after hlog he' hbetween
  obtain ⟨between, rfl, hpause⟩ := exists_eq_cons_of_not_isUpdate hlog rfl he'
  obtain ⟨between, rfl, rfl⟩ := exists_eq_cons_of_not_isUpdate hpause rfl he'
  obtain hnone | ⟨answer, e, rest, hopening, he⟩ := h.opening
  · simp [hnone e' (by simp)] at he'
  · obtain ⟨between, rfl, hrest⟩ := exists_eq_cons_of_not_isUpdate hopening.symm rfl he'
    cases between with
    | nil => exact ⟨answer, rfl⟩
    | cons written between =>
      obtain ⟨rfl, -⟩ := List.cons.inj hrest
      simp [hbetween e (by simp)] at he

theorem Rounds.pausesBetweenWrites (h : Rounds clusterId retry snapshot left log result) :
    PausesBetweenWrites retry.delay snapshot log := by
  induction h with
  | settled h => exact h.round.pausesBetweenWrites
  | surrendered h => exact h.round.pausesBetweenWrites
  | again h hrest ih =>
    cases h with
    | conflict hx hversion hf =>
      -- the earlier of two writes is the one of this round, or lies in the rounds that follow
      refine .cons (fun he ↦ by cases he) (.cons (fun _ ↦ hrest.pausesBeforeWrite) ?_)
      exact (ih.cons fun he ↦ by cases he).cons fun he ↦ by cases he

/-! ## Giving up -/

theorem ne_surrender {text : String} (htext : text.toList.head? = some 'e') (attempts : ℕ)
    (f f' : Failure) : .error (.context text f) ≠ surrender snapshot attempts f' := by
  intro h
  rw [surrender, Except.error.injEq, Failure.context.injEq] at h
  have hhead : text.toList.head? = some 'g' := by
    rw [h.1]
    simp only [String.toList_append, List.head?_append]
    rfl
  rw [htext] at hhead
  cases hhead

theorem Created.ne_surrender (h : Created clusterId snapshot log result) (attempts : ℕ)
    (f : Failure) : result ≠ surrender snapshot attempts f := by
  cases h with
  | unread f' => exact Record.ne_surrender rfl attempts f' f
  | refused hf =>
    refine Record.ne_surrender ?_ attempts _ f
    rw [String.toList_append, List.head?_append]
    rfl
  | present x h => rintro ⟨⟩
  | created h => rintro ⟨⟩
  | forestalled hf h => rintro ⟨⟩

theorem Settled.ne_surrender (h : Settled clusterId snapshot log result) (attempts : ℕ)
    (f : Failure) : result ≠ surrender snapshot attempts f := by
  cases h with
  | unread f' => exact Record.ne_surrender rfl attempts f' f
  | missing h => exact h.ne_surrender attempts f
  | refused hx hversion hf =>
    refine Record.ne_surrender ?_ attempts _ f
    rw [String.toList_append, List.head?_append]
    rfl
  | unchanged hx => rintro ⟨⟩
  | unversioned hx hversion => rintro ⟨⟩
  | updated hx hversion h => rintro ⟨⟩

theorem Rounds.surrender_iff (h : Rounds clusterId retry snapshot left log result) :
    (∃ f, result = surrender snapshot retry.attempts f) ↔
      log.countP (·.metConflict) = left + 1 := by
  induction h with
  | @settled left log result h =>
    have hnone : log.countP (·.metConflict) = 0 :=
      List.countP_eq_zero.mpr fun e he ↦ by simp [(h.quiet e he).1]
    rw [hnone]
    refine ⟨fun ⟨f, hf⟩ ↦ absurd hf (h.ne_surrender _ f), fun hzero ↦ ?_⟩
    cases hzero
  | @surrendered log f h => exact ⟨fun _ ↦ h.countP_conflict.1, fun _ ↦ ⟨f, rfl⟩⟩
  | @again left first rest f result h hrest ih =>
    have hpause : (⟨.pause retry.delay, ()⟩ :: rest).countP (·.metConflict) =
      rest.countP (·.metConflict) := rfl
    rw [ih, List.countP_append, h.countP_conflict.1, hpause]
    omega

theorem Lost.isConflict (h : Lost snapshot log f) : f.isConflict := by
  cases h with
  | conflict hx hversion hf => exact hf

theorem Lost.calls_nobody (h : Lost snapshot log f) :
    ∀ e ∈ log, e.request.kind ≠ .callFleet := by
  cases h
  iterate 3 refine List.forall_mem_cons.mpr ⟨(by rintro ⟨⟩), ?_⟩
  exact fun e he ↦ absurd he List.not_mem_nil

theorem Rounds.of_surrender (h : Rounds clusterId retry snapshot left log result)
    (hresult : result = surrender snapshot retry.attempts f) :
    f.isConflict ∧ ∀ e ∈ log, e.request.kind ≠ .callFleet := by
  induction h with
  | settled h => exact absurd hresult (h.ne_surrender _ f)
  | surrendered h =>
    cases hresult
    exact ⟨h.isConflict, h.calls_nobody⟩
  | again h hrest ih =>
    refine ⟨(ih hresult).1, List.forall_mem_append.mpr ⟨h.calls_nobody, ?_⟩⟩
    exact List.forall_mem_cons.mpr ⟨(by rintro ⟨⟩), (ih hresult).2⟩

/-! ## Other failures -/

/-- After a write that was refused for another reason than a conflict nothing else is exchanged, and
that reason is what the reconciliation comes to. -/
def EndsWithRefusal (snapshot : Spec) (log : List Exchange) (result : Result Reconciliation) :
    Prop :=
  ∀ before e after f, log = before ++ e :: after → e.refusal? = some f → ¬ f.isConflict →
    after = [] ∧
      result = .error (.context ("error updating NodeResourceInfo " ++ snapshot.nodeName) f)

theorem EndsWithRefusal.cons {d : Exchange} (hd : d.refusedForGood = false)
    (h : EndsWithRefusal snapshot log result) : EndsWithRefusal snapshot (d :: log) result := by
  rintro (_ | ⟨_, before⟩) e after f hlog hf hconflict
  · obtain ⟨rfl, -⟩ := List.cons.inj hlog
    simp [Exchange.refusedForGood_of_refusal? hf hconflict] at hd
  · exact h before e after f (List.cons.inj hlog).2 hf hconflict

theorem EndsWithRefusal.append (hfirst : ∀ e ∈ first, e.refusedForGood = false)
    (h : EndsWithRefusal snapshot rest result) :
    EndsWithRefusal snapshot (first ++ rest) result := by
  induction first with
  | nil => exact h
  | cons d first ih =>
    rw [List.forall_mem_cons] at hfirst
    exact (ih hfirst.2).cons hfirst.1

theorem endsWithRefusal_singleton {e : Exchange} (he : ∀ f, e.refusal? = some f →
      result = .error (.context ("error updating NodeResourceInfo " ++ snapshot.nodeName) f)) :
    EndsWithRefusal snapshot [e] result := by
  rintro (_ | ⟨_, before⟩) d after f hlog hf -
  · obtain ⟨rfl, rfl⟩ := List.cons.inj hlog
    exact ⟨rfl, he f hf⟩
  · simp at hlog

theorem endsWithRefusal_of_forall (h : ∀ e ∈ log, e.refusedForGood = false) :
    EndsWithRefusal snapshot log result := by
  rintro before e after f rfl hf hconflict
  simpa [h e (by simp)] using Exchange.refusedForGood_of_refusal? hf hconflict

theorem Settled.endsWithRefusal (h : Settled clusterId snapshot log result) :
    EndsWithRefusal snapshot log result := by
  have hquiet {log : List Exchange}
      (h : ∀ e ∈ log, e.isUpdate = false ∧ e.countsConflict = false) :
      EndsWithRefusal snapshot log result :=
    endsWithRefusal_of_forall fun e he ↦ Exchange.refusedForGood_eq_false (h e he).1
  cases h with
  | unread f => exact endsWithRefusal_of_forall (List.forall_mem_singleton.mpr rfl)
  | missing h => exact (hquiet h.quiet).cons rfl
  | unchanged hx => exact endsWithRefusal_of_forall (List.forall_mem_singleton.mpr rfl)
  | unversioned hx hversion => exact endsWithRefusal_of_forall (List.forall_mem_singleton.mpr rfl)
  | updated hx hversion h => exact (((hquiet (quiet_of_told h)).cons rfl).cons rfl).cons rfl
  | refused hx hversion hf => exact (endsWithRefusal_singleton (by rintro f ⟨⟩; rfl)).cons rfl

theorem Lost.refusedForGood_eq_false (h : Lost snapshot log f) :
    ∀ e ∈ log, e.refusedForGood = false := by
  cases h with
  | @conflict x version f hx hversion hf =>
    have hwrite : Exchange.refusedForGood
        ⟨.updateRecord { x with spec := snapshot } version, .error f⟩ = false :=
      congrArg (!·) hf
    exact List.forall_mem_cons.mpr ⟨rfl, List.forall_mem_cons.mpr
      ⟨hwrite, List.forall_mem_singleton.mpr rfl⟩⟩

theorem Rounds.endsWithRefusal (h : Rounds clusterId retry snapshot left log result) :
    EndsWithRefusal snapshot log result := by
  induction h with
  | settled h => exact h.endsWithRefusal
  | surrendered h => exact endsWithRefusal_of_forall h.refusedForGood_eq_false
  | again h hrest ih => exact (ih.cons rfl).append h.refusedForGood_eq_false

/-! ## All bounds -/

theorem countP_metConflict_updates (log : List Exchange) :
    (updates log).countP (·.metConflict) = log.countP (·.metConflict) := by
  rw [updates, List.countP_filter]
  refine List.countP_congr fun e _ ↦ ?_
  rw [Bool.and_eq_true, and_iff_left_iff_imp]
  exact Exchange.isUpdate_of_metConflict

/-- What holds of a reconciliation, by what was exchanged in it and what it came to. -/
structure Bounded (retry : RetryPolicy) (snapshot : Spec) (log : List Exchange)
    (result : Result Reconciliation) : Prop where
  updates_le : (updates log).length ≤ retry.attempts
  creates_le : log.countP (·.isCreate) ≤ 1
  writes : WritesWhatWasRead snapshot log
  pauses : PausesBetweenWrites retry.delay snapshot log
  /-- It gives up just if it made every attempt and met a conflict in each. -/
  surrender_iff : (∃ f, result = surrender snapshot retry.attempts f) ↔
    (updates log).length = retry.attempts ∧ ∀ e ∈ updates log, e.metConflict
  /-- What it gives up with is a conflict under a context, and no call was made. -/
  surrendered : ∀ f, result = surrender snapshot retry.attempts f →
    (∃ g, result = .error g ∧ g.isConflict) ∧ ∀ e ∈ log, e.request.kind ≠ .callFleet
  refusals : EndsWithRefusal snapshot log result
  counted : log.countP (·.countsConflict) = (updates log).countP (·.metConflict)

theorem Rounds.bounded (hattempts : left + 1 = retry.attempts)
    (h : Rounds clusterId retry snapshot left log result) : Bounded retry snapshot log result where
  updates_le := hattempts ▸ h.length_updates_le
  creates_le := h.countP_isCreate_le
  writes := h.writesWhatWasRead
  pauses := h.pausesBetweenWrites
  surrender_iff := by
    have hle := h.length_updates_le
    have hmet : (updates log).countP (·.metConflict) ≤ (updates log).length :=
      List.countP_le_length
    have hall : (∀ e ∈ updates log, e.metConflict) ↔
        (updates log).countP (·.metConflict) = (updates log).length := List.countP_eq_length.symm
    rw [h.surrender_iff, ← countP_metConflict_updates, hall]
    omega
  surrendered f hf := by
    refine ⟨⟨_, hf, ?_⟩, (h.of_surrender hf).2⟩
    rw [Failure.isConflict_context]
    exact (h.of_surrender hf).1
  refusals := h.endsWithRefusal
  counted := by rw [h.countP_countsConflict, countP_metConflict_updates]

/-- A reconciliation that may make some attempts comes to an end whatever it is answered, by the
store and by the registry, and what it exchanges is bounded by its attempts. -/
theorem retries_are_bounded (clusterId : String) (retry : RetryPolicy)
    (hattempts : 1 ≤ retry.attempts) (snapshot : Spec) (opponent : Opponent) :
    Bounded retry snapshot ((reconcile clusterId retry snapshot).play opponent []).1
      ((reconcile clusterId retry snapshot).play opponent []).2 :=
  (rounds_of_plays hattempts (plays_play opponent [] _)).bounded (by omega)

/-- A store that has a record, and whose record has changed whenever it is written over. -/
def stubborn (x : Record) : Opponent := fun _ r ↦
  match r with
  | .fetchRecord _ => .ok (some x)
  | .updateRecord record _ => .error (.conflict record.name)
  | .listRecords _ _ | .createRecord _ | .deleteRecord _ | .listNodes _ _ | .findNodes _
  | .listPods _ | .callFleet _ | .setKey _ _ _ | .extendKey _ _ | .deleteKey _ | .pushValue _ _ =>
    .error (.plain "no answer")
  | .startRenewal _ _ | .stopRenewal _ | .pause _ | .count _ | .report _ => ()

/-- Two attempts against such a store, and the second is the last. -/
theorem stubborn_store_is_left :
    1 ≤ 2 ∧ ∃ f, ((reconcile "c" ⟨2, 50⟩ { nodeName := "a", status := "Ready" }).play
        (stubborn ⟨{ resourceVersion := some "1" }, { nodeName := "a" }⟩) []).2 =
      surrender { nodeName := "a", status := "Ready" } 2 f := by
  refine ⟨by decide, (retries_are_bounded "c" ⟨2, 50⟩ (by decide) _ _).surrender_iff.mpr ⟨rfl, ?_⟩⟩
  exact List.all_eq_true.mp rfl

end Record

end NodeInventory
