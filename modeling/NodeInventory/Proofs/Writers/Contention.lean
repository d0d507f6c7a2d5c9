import Mathlib.Data.List.Basic
import NodeInventory.Proofs.Retry.Bound
import NodeInventory.Proofs.Writers.Testimony

/-!
# Giving up takes contention

Whoever brings a record in line with a snapshot gives up when its last attempt meets a conflict. On
a shelf that is never the fault of the caller alone: from a reading to the write that was refused
the caller asked nothing else, and yet another version was stored in the end. So somebody else has
stored the record in between (`Window.Lost.exists_isForeignWrite`), be it over the one that was read
or after that one was removed.

Each attempt is such a window of its own, and the windows lie one after the other among the moments
of the call (`Apart`), so no write is charged for two of them. As many writes of others as there are
attempts are needed, and with fewer the call does not fail with a conflict
(`giving_up_takes_contention`).
-/

namespace NodeInventory

/-- A conflict is told only to who writes over a record. -/
def Exchange.Candid : Exchange → Prop
  | ⟨.fetchRecord _, .error f⟩ => ¬f.isConflict
  | ⟨.createRecord _, .error f⟩ => ¬f.isConflict
  | _ => True

namespace Record

variable {clusterId : String} {snapshot : Spec} {log : List Exchange} {f : Failure}

/-- A round that settles the matter does not come to a conflict, where conflicts are told only to
who writes over a record. -/
theorem Settled.not_isConflict (h : Settled clusterId snapshot log (.error f))
    (hcandid : ∀ e ∈ log, e.Candid) : ¬f.isConflict := by
  cases h with
  | unread f =>
    rw [Failure.isConflict_context]
    exact hcandid ⟨.fetchRecord snapshot.nodeName, .error f⟩ (by simp)
  | unversioned hx hversion => simp [Failure.isConflict, Failure.root]
  | refused hx hversion hf => rwa [Failure.isConflict_context]
  | missing h =>
    cases h with
    | unread f =>
      rw [Failure.isConflict_context]
      exact hcandid ⟨.fetchRecord snapshot.nodeName, .error f⟩ (by simp)
    | @refused f hf =>
      rw [Failure.isConflict_context]
      exact hcandid ⟨.createRecord (ofSpec snapshot), .error f⟩ (by simp)

end Record

namespace Writers

variable {α : Type} {i : ℕ} {m : Moment} {name : String} {start room room' : Room α}
  {moments earlier later : List Moment}

/-! ## Who writes -/

/-- Somebody else than the caller stores the record of the name at the moment. -/
def Moment.isForeignWrite (i : ℕ) (name : String) (m : Moment) : Bool :=
  match m.event with
  | .stored r _ => r.name = name
  | .asked j ⟨.createRecord r, .ok _⟩ => j ≠ i ∧ r.name = name
  | .asked j ⟨.updateRecord r _, .ok _⟩ => j ≠ i ∧ r.name = name
  | _ => false

theorem Step.record?_eq_or_none (hstep : Step room m room') (hby : ¬m.By i)
    (hwrite : m.isForeignWrite i name = false) :
    room'.shelf.record? name = room.shelf.record? name ∨ room'.shelf.record? name = none := by
  have hname {r : Record} (hne : r.name ≠ name) (v : String) (s : Shelf) :
      (s.write r v).record? name = s.record? name := by
    rw [Shelf.record?_write, if_neg (Ne.symm hne)]
  have hremove (gone : String) (s : Shelf) :
      (s.remove gone).record? name = s.record? name ∨ (s.remove gone).record? name = none := by
    rw [Shelf.record?_remove]
    split
    · exact .inr rfl
    · exact .inl rfl
  cases hstep with
  | @asked j r next a t hcall hanswer =>
    have hj : j ≠ i := fun hj ↦ hby ⟨⟨r, a⟩, by rw [hj]⟩
    cases hanswer with
    | fetched | failed | other => exact .inl rfl
    | created habsent hnew =>
      exact .inl (hname (by simpa [Moment.isForeignWrite, hj] using hwrite) _ _)
    | updated hstored hversion hnew =>
      exact .inl (hname (by simpa [Moment.isForeignWrite, hj] using hwrite) _ _)
    | deleted hstored => exact hremove _ _
  | stored r hnew => exact .inl (hname (by simpa [Moment.isForeignWrite] using hwrite) _ _)
  | removed gone => exact hremove _ _

/-- What is stored under a name has the version that was read, if it is stored at all, as long as
nobody else writes. -/
theorem version_eq_of_run {version : String} (hrun : Run Step start moments room)
    (hstart : ∀ x, start.shelf.record? name = some x → x.metadata.resourceVersion = some version)
    (hby : ∀ m ∈ moments, ¬m.By i) (hwrite : ∀ m ∈ moments, m.isForeignWrite i name = false) :
    ∀ x, room.shelf.record? name = some x → x.metadata.resourceVersion = some version := by
  induction hrun with
  | nil => exact hstart
  | @snoc moments m s t hrun hstep ih =>
    rw [List.forall_mem_append, List.forall_mem_singleton] at hby hwrite
    intro x hx
    rcases hstep.record?_eq_or_none hby.2 hwrite.2 with hsame | hnone
    · exact ih hby.1 hwrite.1 x (hsame ▸ hx)
    · rw [hnone] at hx
      cases hx

/-! ## Windows -/

/-- What happens from one moment to another. -/
structure Window where
  first : Moment
  between : List Moment
  last : Moment

/-- All moments of a window. -/
def Window.course (w : Window) : List Moment := w.first :: (w.between ++ [w.last])

/-- In the window the caller reads a record and asks nothing else until it writes over what it has
read, and meets a conflict. -/
structure Window.Lost (w : Window) (i : ℕ) (snapshot : Spec) (x : Record) (version : String)
    (f : Failure) : Prop where
  read : w.first.event = .asked i ⟨.fetchRecord snapshot.nodeName, .ok (some x)⟩
  known : x.metadata.resourceVersion = some version
  between : ∀ m ∈ w.between, ¬m.By i
  write : w.last.event = .asked i ⟨.updateRecord { x with spec := snapshot } version, .error f⟩
  conflict : f.isConflict

/-- The windows lie one after the other among the moments. -/
inductive Apart : List Window → List Moment → Prop
  | nil (moments : List Moment) : Apart [] moments
  | cons {w : Window} {windows : List Window} (earlier : List Moment) {later : List Moment}
    (h : Apart windows later) : Apart (w :: windows) (earlier ++ (w.course ++ later))

variable {w : Window} {windows : List Window} {snapshot : Spec} {x : Record} {version : String}
  {f : Failure}

theorem Apart.exists_eq_of_mem (h : Apart windows moments) (hw : w ∈ windows) :
    ∃ earlier later, moments = earlier ++ (w.course ++ later) := by
  induction h with
  | nil => cases hw
  | @cons w' windows earlier later h ih =>
    obtain rfl | hw := List.mem_cons.mp hw
    · exact ⟨earlier, later, rfl⟩
    · obtain ⟨before, after, rfl⟩ := ih hw
      exact ⟨earlier ++ (w'.course ++ before), after, by simp only [List.append_assoc]⟩

/-- Windows that lie apart have no moment in common, so they have as many of a kind as there are
windows if each of them has one. -/
theorem Apart.length_le_countP {p : Moment → Bool} (h : Apart windows moments)
    (hp : ∀ w ∈ windows, ∃ m ∈ w.between, p m) : windows.length ≤ moments.countP p := by
  induction h with
  | nil => exact Nat.zero_le _
  | @cons w windows earlier later h ih =>
    rw [List.forall_mem_cons] at hp
    obtain ⟨m, hm, hpm⟩ := hp.1
    have hone : 1 ≤ w.course.countP p :=
      List.countP_pos_iff.mpr ⟨m, by simp [Window.course, hm], hpm⟩
    rw [List.countP_append, List.countP_append, List.length_cons]
    have := ih hp.2
    omega

/-- In a window that is lost somebody else stores the record. -/
theorem Window.Lost.exists_isForeignWrite (h : w.Lost i snapshot x version f)
    (hrun : Run Step start (earlier ++ (w.course ++ later)) room) (hstart : start.shelf.Sound) :
    ∃ m ∈ w.between, m.isForeignWrite i snapshot.nodeName := by
  by_contra hnone
  simp only [not_exists, not_and, Bool.not_eq_true] at hnone
  simp only [Window.course, List.cons_append, List.append_assoc] at hrun
  obtain ⟨now, read, hearlier, hfirst, hrest⟩ := hrun.exists_step
  obtain ⟨before, after, hbetween, hlast, -⟩ := hrest.exists_step
  have hnow := sound_of_run hearlier hstart
  -- what was read is what was stored
  have hread : read.shelf.record? snapshot.nodeName = some x ∧ x.name = snapshot.nodeName := by
    have hevent := h.read
    generalize w.first = m at hfirst hevent
    cases hfirst with
    | stored | removed => cases hevent
    | asked hcall hanswer =>
      cases hevent
      obtain ⟨hx, rfl⟩ := hanswer.of_fetched
      exact ⟨hx, (hnow _ _ hx).1⟩
  have hversion : ∀ y, before.shelf.record? snapshot.nodeName = some y →
      y.metadata.resourceVersion = some version := by
    refine version_eq_of_run hbetween (fun y hy ↦ ?_) h.between hnone
    obtain rfl : x = y := Option.some.inj (hread.1.symm.trans hy)
    exact h.known
  -- and the conflict says that something else is stored
  have hevent := h.write
  generalize w.last = m at hlast hevent
  cases hlast with
  | stored | removed => cases hevent
  | asked hcall hanswer =>
    cases hevent
    cases hanswer with
    | other hr => cases hr
    | failed _ ha htells =>
      cases ha
      obtain ⟨y, hy, hne⟩ := htells h.conflict
      exact hne (hversion y (hread.2 ▸ hy))

/-! ## What a call that gives up has seen -/

theorem plays_of_run {seen : List Exchange} {b : α} (hrun : Run Step start moments room)
    (h : (room.calls i).Plays seen b) : (start.calls i).Plays (testimony i moments ++ seen) b := by
  induction hrun generalizing seen with
  | nil => exact h
  | @snoc moments m s t hrun hstep ih =>
    rw [testimony_snoc, List.append_assoc]
    cases hstep with
    | @asked j r next a t hcall hanswer =>
      by_cases hij : j = i
      · subst hij
        simp only [Function.update_self] at h
        simpa [Moment.exchange?] using ih (hcall ▸ .ask a h)
      · simp only [Function.update_of_ne (Ne.symm hij)] at h
        simpa [Moment.exchange?, hij] using ih h
    | stored | removed => simpa [Moment.exchange?] using ih h

/-- A round that is lost is a window among the moments of the caller. -/
theorem exists_window {skipped first rest : List Exchange} (h : Record.Lost snapshot first f)
    (hseen : testimony i moments = skipped ++ (first ++ rest)) :
    ∃ (earlier : List Moment) (w : Window) (later : List Moment),
      moments = earlier ++ (w.course ++ later) ∧ (∃ x version, w.Lost i snapshot x version f) ∧
      testimony i later = ⟨.count .updateConflicts, ()⟩ :: rest := by
  cases h with
  | @conflict x version f hx hversion hf =>
    obtain ⟨past, future, rfl, -, hfuture⟩ := List.filterMap_eq_append_iff.mp hseen
    obtain ⟨idle, first, tail, rfl, -, hread, htail⟩ := List.filterMap_eq_cons_iff.mp hfuture
    obtain ⟨between, last, later, rfl, hbetween, hwrite, hlater⟩ :=
      List.filterMap_eq_cons_iff.mp htail
    refine ⟨past ++ idle, ⟨first, between, last⟩, later, by simp [Window.course], ⟨x, version, ?_⟩,
      hlater⟩
    constructor
    · exact Moment.exchange?_eq_some.mp hread
    · exact hversion
    · rintro m hm ⟨e, he⟩
      have hnone := hbetween m hm
      rw [Moment.exchange?_eq_some.mpr he] at hnone
      cases hnone
    · exact Moment.exchange?_eq_some.mp hwrite
    · exact hf

/-- Rounds that come to a conflict are as many windows as there may be, one after the other. -/
theorem exists_windows {clusterId : String} {retry : RetryPolicy} {left : ℕ}
    {skipped log : List Exchange} {result : Result Reconciliation}
    (h : Record.Rounds clusterId retry snapshot left log result) (hresult : result = .error f)
    (hf : f.isConflict) (hcandid : ∀ e ∈ log, e.Candid)
    (hseen : testimony i moments = skipped ++ log) :
    ∃ windows : List Window, windows.length = left + 1 ∧ Apart windows moments ∧
      ∀ w ∈ windows, ∃ x version f, w.Lost i snapshot x version f := by
  induction h generalizing moments skipped with
  | settled h =>
    subst hresult
    exact absurd hf (h.not_isConflict hcandid)
  | @surrendered log g h =>
    rw [← List.append_nil log] at hseen
    obtain ⟨earlier, w, later, rfl, hlost, -⟩ := exists_window h hseen
    obtain ⟨x, version, hlost⟩ := hlost
    refine ⟨[w], rfl, .cons earlier (.nil later), ?_⟩
    exact List.forall_mem_singleton.mpr ⟨x, version, _, hlost⟩
  | @again left first rest g result h hrest ih =>
    obtain ⟨earlier, w, later, rfl, hlost, hlater⟩ := exists_window h hseen
    obtain ⟨x, version, hlost⟩ := hlost
    have hlaterSeen : testimony i later =
        [⟨.count .updateConflicts, ()⟩, ⟨.pause retry.delay, ()⟩] ++ rest := hlater
    obtain ⟨windows, hlength, hapart, hall⟩ := ih hresult
      (fun e he ↦ hcandid e (by simp [he])) hlaterSeen
    refine ⟨w :: windows, by rw [List.length_cons, hlength], .cons earlier hapart, ?_⟩
    exact List.forall_mem_cons.mpr ⟨⟨x, version, g, hlost⟩, hall⟩

/-! ## Giving up -/

variable {shelf : Shelf} {calls : ℕ → Call} {room : Room (Result (Option Reconciliation))}
  {clusterId : String} {retry : RetryPolicy} {before call after : List Moment}
  {result : Result (Option Reconciliation)}

/-- What a reconciliation has seen that has come to its end are rounds. -/
theorem rounds_of_run (hrun : Run Step (Room.opened shelf calls) moments room)
    (hcall : calls i = .reconcile clusterId retry snapshot) (hattempts : 1 ≤ retry.attempts)
    (hend : room.calls i = .done (.error f)) :
    Record.Rounds clusterId retry snapshot (retry.attempts - 1) (testimony i moments)
      (.error f) := by
  have hplays := plays_of_run hrun (hend ▸ .done _ : (room.calls i).Plays [] (.error f))
  simp only [Room.opened, hcall, List.append_nil] at hplays
  obtain ⟨log, outcome, rest, hlog, hlogPlays, hrest⟩ := Action.plays_bind.mp hplays
  obtain ⟨rfl, hresult⟩ := Action.plays_done.mp hrest
  rw [List.append_nil] at hlog
  cases outcome with
  | ok outcome => cases hresult
  | error g =>
    cases hresult
    exact hlog ▸ Record.rounds_of_plays hattempts hlogPlays

/-- A call that fails with a conflict has lost a window for every attempt, one after the other, and
in each of them somebody else has stored the record. So it does not fail with a conflict if others
store the record less often during the call than it has attempts. -/
theorem giving_up_takes_contention (hshelf : shelf.Sound)
    (hrun : Run Step (Room.opened shelf calls) (before ++ (call ++ after)) room)
    (hcall : calls i = .reconcile clusterId retry snapshot) (hattempts : 1 ≤ retry.attempts)
    (hbefore : ∀ m ∈ before, ¬m.By i) (hafter : ∀ m ∈ after, ¬m.By i)
    (hcandid : ∀ m ∈ call, ∀ e, m.event = .asked i e → e.Candid)
    (hend : room.calls i = .done result) :
    (∀ f, result = .error f → f.isConflict →
      ∃ windows : List Window, windows.length = retry.attempts ∧ Apart windows call ∧
        ∀ w ∈ windows, (∃ x version g, w.Lost i snapshot x version g) ∧
          ∃ m ∈ w.between, m.isForeignWrite i snapshot.nodeName) ∧
    (call.countP (·.isForeignWrite i snapshot.nodeName) < retry.attempts →
      ∀ f, result = .error f → ¬f.isConflict) := by
  have hcontended : ∀ f, result = .error f → f.isConflict →
      ∃ windows : List Window, windows.length = retry.attempts ∧ Apart windows call ∧
        ∀ w ∈ windows, (∃ x version g, w.Lost i snapshot x version g) ∧
          ∃ m ∈ w.between, m.isForeignWrite i snapshot.nodeName := by
    rintro f rfl hf
    -- the caller asks during the call only
    have hidle {moments : List Moment} (h : ∀ m ∈ moments, ¬m.By i) : testimony i moments = [] := by
      refine List.filterMap_eq_nil_iff.mpr fun m hm ↦ Option.eq_none_iff_forall_ne_some.mpr ?_
      exact fun e he ↦ h m hm ⟨e, Moment.exchange?_eq_some.mp he⟩
    have hseen : testimony i (before ++ (call ++ after)) = testimony i call := by
      simp only [testimony, List.filterMap_append] at hidle ⊢
      rw [hidle hbefore, hidle hafter, List.nil_append, List.append_nil]
    have hrounds := hseen ▸ rounds_of_run hrun hcall hattempts hend
    obtain ⟨windows, hlength, hapart, hlost⟩ := exists_windows hrounds rfl hf
      (fun e he ↦ by
        obtain ⟨m, hm, hevent⟩ := exists_moment_of_mem he
        exact hcandid m hm e hevent) (List.nil_append _).symm
    refine ⟨windows, by omega, hapart, fun w hw ↦ ⟨hlost w hw, ?_⟩⟩
    obtain ⟨x, version, g, hlost⟩ := hlost w hw
    obtain ⟨earlier, later, rfl⟩ := hapart.exists_eq_of_mem hw
    have hsplit : Run Step (Room.opened shelf calls)
        ((before ++ earlier) ++ (w.course ++ (later ++ after))) room := by
      simpa only [List.append_assoc] using hrun
    exact hlost.exists_isForeignWrite hsplit hshelf
  refine ⟨hcontended, fun hfew f hresult hf ↦ ?_⟩
  obtain ⟨windows, hlength, hapart, hall⟩ := hcontended f hresult hf
  have hcharged := hapart.length_le_countP fun w hw ↦ (hall w hw).2
  exact absurd (hlength ▸ hcharged) (Nat.not_le_of_lt hfew)

/-- The record is removed and created again in one window, and written over in the other. -/
theorem two_attempts_take_two_writes :
    let stored : Record := .ofSpec { nodeName := "a", status := "NotReady" }
    let snapshot : Spec := { nodeName := "a", status := "Ready" }
    let shelf := Shelf.empty.write stored "1"
    let calls : ℕ → Call := fun _ ↦ .reconcile "c" ⟨2, 0⟩ snapshot
    ∃ call room f, Run Step (Room.opened shelf calls) call room ∧
      room.calls 0 = .done (.error f) ∧ f.isConflict ∧
      ∃ windows : List Window, windows.length = 2 ∧ Apart windows call ∧
        ∀ w ∈ windows, (∃ x version g, w.Lost 0 snapshot x version g) ∧
          ∃ m ∈ w.between, m.isForeignWrite 0 "a" := by
  intro stored snapshot shelf calls
  have hshelf : shelf.Sound := (Shelf.Change.write stored (by simp [Shelf.empty])).sound
    Shelf.sound_empty
  let cleared := shelf.remove "a"
  let restored := cleared.write stored "2"
  let rewritten := restored.write stored "3"
  have hread : shelf.Answers (.fetchRecord "a") (.ok (some (stored.at "1"))) shelf := .fetched "a"
  have hrefused : restored.Answers (.updateRecord { stored.at "1" with spec := snapshot } "1")
      (.error (.conflict "a")) restored :=
    .failed rfl rfl fun _ ↦ ⟨stored.at "2", rfl, by decide⟩
  have hreread : restored.Answers (.fetchRecord "a") (.ok (some (stored.at "2"))) restored :=
    .fetched "a"
  have hrefusedAgain : rewritten.Answers
      (.updateRecord { stored.at "2" with spec := snapshot } "2")
      (.error (.conflict "a")) rewritten :=
    .failed rfl rfl fun _ ↦ ⟨stored.at "3", rfl, by decide⟩
  have hcounted (s : Shelf) : s.Answers (.count .updateConflicts) () s := .other rfl _
  have hpause (s : Shelf) : s.Answers (.pause 0) () s := .other rfl _
  have hbegun := (@Run.nil _ _ Step (Room.opened shelf calls)).snoc (.asked (i := 0) rfl hread)
  have hreplaced := (hbegun.snoc (.removed "a")).snoc (.stored (v := "2") stored
    (by simp [shelf, Shelf.empty]))
  have hlost := hreplaced.snoc (.asked (i := 0) rfl hrefused)
  have hpaused := (hlost.snoc (.asked (i := 0) rfl (hcounted _))).snoc
    (.asked (i := 0) rfl (hpause _))
  have hmeanwhile := (hpaused.snoc (.asked (i := 0) rfl hreread)).snoc (.stored (v := "3") stored
    (by simp [restored, cleared, shelf, Shelf.empty]))
  -- the course of the call, and what came of it
  obtain ⟨call, room, hrun, hend, hcandid⟩ : ∃ call room,
      Run Step (Room.opened shelf calls) call room ∧ room.calls 0 = .done (.error _) ∧
        ∀ m ∈ call, ∀ e, m.event = .asked 0 e → e.Candid := by
    refine ⟨_, _, (hmeanwhile.snoc (.asked (i := 0) rfl hrefusedAgain)).snoc
      (.asked (i := 0) rfl (hcounted _)), rfl, ?_⟩
    simp only [List.nil_append, List.cons_append, List.forall_mem_cons]
    refine ⟨?_, ?_, ?_, ?_, ?_, ?_, ?_, ?_, ?_, ?_, fun m hm ↦ by cases hm⟩ <;> rintro e ⟨⟩ <;>
      trivial
  have hwhole : Run Step (Room.opened shelf calls) ([] ++ (call ++ [])) room := by
    rw [List.append_nil]
    exact hrun
  have hnobody : ∀ m ∈ ([] : List Moment), ¬m.By 0 := fun m hm ↦ by cases hm
  have hcontended := (giving_up_takes_contention hshelf hwhole rfl (Nat.le_succ 1) hnobody hnobody
    hcandid hend).1 _ rfl rfl
  exact ⟨call, room, _, hrun, hend, rfl, hcontended⟩

end Writers

end NodeInventory
