import Mathlib.Algebra.Order.BigOperators.Group.List
import Mathlib.Algebra.Order.Ring.Nat
import NodeInventory.Proofs.Inevitable
import NodeInventory.Proofs.Run
import NodeInventory.Proofs.Schedule.Greedy

/-!
# A batch and its permits

Every task of a batch asks for a permit when it is first attended to, and a permit goes to whoever
asked first. A task gives its permit back when it ends, well or not. The results are collected in
the order of the tasks, each when its task has ended. Without a bound there are no permits and
nobody waits for one.

The tasks are given in an order, but who attends to them need not keep it, so they may ask in any
order. Nothing is put off: time passes only when all have asked, only while a task runs, never
beyond the end of one, and not while a task could have the permit that it waits for. Of things that
happen at one time any may come first.

However that is resolved, the batch comes to its end, and it has kept the greedy schedule of its
tasks in the order in which they have asked (`batch_keeps_bound_and_order`). If they ask in the
order in which they are given (`AskInOrder`), it is the schedule of that order.

What carries this is that the tasks that have started are those that asked first, at the times of a
greedy schedule (`Course`). A task that counts in the load of that schedule now is under way;
therefore a permit is free only if there is room, and while somebody waits there is none.
-/

namespace NodeInventory.Schedule

/-- A task that takes a known time, and what becomes of it. -/
structure TimedTask where
  duration : ℕ
  result : Result Unit

/-- How far a task has got. -/
inductive Handle
  | given
  | waiting
  | running (start : ℕ)
  | ended (span : Span) (result : Result Unit)

namespace Handle

/-- Whether a task has asked for a permit. -/
def hasAsked : Handle → Bool
  | given => false
  | waiting | running _ | ended _ _ => true

/-- Whether a task has started. -/
def hasStarted : Handle → Bool
  | given | waiting => false
  | running _ | ended _ _ => true

/-- Whether a task runs. -/
def isRunning : Handle → Bool
  | running _ => true
  | given | waiting | ended _ _ => false

end Handle

/-- A batch that is under way. -/
structure Batch where
  /-- The time since the tasks were given. -/
  now : ℕ := 0
  /-- The permits that are free, if there is a bound. -/
  permits : Option ℕ
  /-- The tasks that wait for a permit, in the order in which they have asked. -/
  queue : List ℕ := []
  handles : List Handle
  /-- The results that have been collected. -/
  results : List (Result Unit) := []

namespace Batch

/-- No task has asked for a permit yet. -/
def start (parallelism : ℤ) (count : ℕ) : Batch where
  permits := if 0 < parallelism then some parallelism.toNat else none
  handles := List.replicate count .given

/-- How many tasks run. -/
def running (s : Batch) : ℕ := s.handles.countP (·.isRunning)

/-- The results of all tasks have been collected. -/
def Returned (tasks : List TimedTask) (s : Batch) : Prop := s.results.length = tasks.length

/-- What happens in a batch. -/
inductive Event
  | asked (i : ℕ)
  | admitted (i : ℕ)
  | ended (i : ℕ)
  | collected (i : ℕ)
  | passed (millis : ℕ)

/-- The task that asks for a permit. -/
def Event.asked? : Event → Option ℕ
  | asked i => some i
  | _ => none

/-- The task that starts. -/
def Event.admitted? : Event → Option ℕ
  | admitted i => some i
  | _ => none

/-- The task that ends. -/
def Event.ended? : Event → Option ℕ
  | ended i => some i
  | _ => none

/-- A permit is taken, if one is needed. -/
inductive Taken : Option ℕ → Option ℕ → Prop
  | unbounded : Taken none none
  | bounded (free : ℕ) : Taken (some (free + 1)) (some free)

/-- Something happens. -/
inductive Step (tasks : List TimedTask) : Batch → Event → Batch → Prop
  | asked {s : Batch} {i : ℕ} (hhandle : s.handles[i]? = some .given) :
    Step tasks s (.asked i)
      { s with queue := s.queue ++ [i], handles := s.handles.set i .waiting }
  | admitted {s : Batch} {i : ℕ} {queue : List ℕ} {permits : Option ℕ}
    (hqueue : s.queue = i :: queue) (hhandle : s.handles[i]? = some .waiting)
    (hpermit : Taken s.permits permits) :
    Step tasks s (.admitted i)
      { s with permits, queue, handles := s.handles.set i (.running s.now) }
  | ended {s : Batch} {i start : ℕ} {task : TimedTask} (htask : tasks[i]? = some task)
    (hhandle : s.handles[i]? = some (.running start)) (htime : start + task.duration = s.now) :
    Step tasks s (.ended i)
      { s with
        permits := s.permits.map (· + 1)
        handles := s.handles.set i (.ended ⟨start, s.now⟩ task.result) }
  | collected {s : Batch} {span : Span} {result : Result Unit}
    (hhandle : s.handles[s.results.length]? = some (.ended span result)) :
    Step tasks s (.collected s.results.length) { s with results := s.results ++ [result] }
  | passed {s : Batch} {millis : ℕ} (hmillis : 0 < millis) (hrunning : 0 < s.running)
    (hasked : ∀ handle ∈ s.handles, handle.hasAsked = true)
    (htasks : ∀ (i start : ℕ) (task : TimedTask), tasks[i]? = some task →
      s.handles[i]? = some (.running start) → s.now + millis ≤ start + task.duration)
    (hqueue : s.queue = [] ∨ s.permits = some 0) :
    Step tasks s (.passed millis) { s with now := s.now + millis }

variable {parallelism : ℤ} {tasks : List TimedTask} {s t : Batch} {e : Event} {i : ℕ}
  {events : List Event} {old new handle : Handle}

/-! ## Once each, and in order -/

theorem admitted_append_queue
    (hrun : Run (Step tasks) (start parallelism tasks.length) events s) :
    events.filterMap Event.admitted? ++ s.queue = events.filterMap Event.asked? := by
  induction hrun with
  | nil => rfl
  | snoc _ hstep ih =>
    rw [filterMap_snoc, filterMap_snoc, ← ih]
    cases hstep with
    | asked => simp [Event.admitted?, Event.asked?]
    | admitted hqueue => simp [hqueue, Event.admitted?, Event.asked?]
    | ended | collected | passed => simp [Event.admitted?, Event.asked?]

theorem exists_ended_set_iff {handles : List Handle} (hold : handles[i]? = some old)
    (hnotOld : ∀ span result, old ≠ .ended span result)
    (hnotNew : ∀ span result, new ≠ .ended span result) (j : ℕ) :
    (∃ span result, (handles.set i new)[j]? = some (.ended span result)) ↔
      ∃ span result, handles[j]? = some (.ended span result) := by
  rcases eq_or_ne i j with rfl | hij
  · obtain ⟨hi, -⟩ := List.getElem?_eq_some_iff.mp hold
    rw [List.getElem?_set_self hi, hold]
    refine iff_of_false ?_ ?_
    · rintro ⟨span, result, h⟩
      exact hnotNew span result (Option.some.inj h)
    · rintro ⟨span, result, h⟩
      exact hnotOld span result (Option.some.inj h)
  · rw [List.getElem?_set_ne hij]

theorem ended_iff (hrun : Run (Step tasks) (start parallelism tasks.length) events s) :
    (events.filterMap Event.ended?).Nodup ∧ ∀ i, i ∈ events.filterMap Event.ended? ↔
      ∃ span result, s.handles[i]? = some (.ended span result) := by
  induction hrun with
  | nil =>
    refine ⟨List.nodup_nil, fun i ↦ iff_of_false List.not_mem_nil ?_⟩
    rintro ⟨span, result, h⟩
    cases List.eq_of_mem_replicate (List.mem_of_getElem? h)
  | @snoc events e s t _ hstep ih =>
    obtain ⟨hnodup, hmem⟩ := ih
    cases hstep with
    | asked hhandle | admitted _ hhandle =>
      rw [filterMap_snoc_none rfl]
      exact ⟨hnodup, fun j ↦
        (hmem j).trans (exists_ended_set_iff hhandle (by simp) (by simp) j).symm⟩
    | @ended i start task _ hhandle =>
      have hi : i ∉ events.filterMap Event.ended? := by simp [hmem, hhandle]
      rw [filterMap_snoc, Event.ended?, Option.toList_some]
      refine ⟨List.nodup_append.mpr ⟨hnodup, by simp, fun j hj k hk ↦ ?_⟩, fun j ↦ ?_⟩
      · rw [List.mem_singleton.mp hk]
        exact ne_of_mem_of_not_mem hj hi
      · rw [List.mem_append, hmem]
        rcases eq_or_ne i j with rfl | hij
        · obtain ⟨hlt, -⟩ := List.getElem?_eq_some_iff.mp hhandle
          simp [hlt]
        · simp [hij, hij.symm]
    | collected | passed =>
      rw [filterMap_snoc_none rfl]
      exact ⟨hnodup, hmem⟩

/-! ## What is left to do -/

/-- What is left to do of a task. -/
def TimedTask.left (now : ℕ) (task : TimedTask) : Handle → ℕ
  | .given => task.duration + 3
  | .waiting => task.duration + 2
  | .running start => start + task.duration - now + 1
  | .ended _ _ => 0

/-- What is left to do of a batch. -/
def left (tasks : List TimedTask) (s : Batch) : ℕ :=
  ((tasks.zip s.handles).map fun e ↦ TimedTask.left s.now e.1 e.2).sum +
    (tasks.length - s.results.length)

/-- A task that has started, with the span that it is bound to take. -/
structure Begun where
  index : ℕ
  task : TimedTask
  span : Span

/-- A task that has started runs up to its end, and has ended from then on. -/
structure Begun.Fits (tasks : List TimedTask) (s : Batch) (b : Begun) : Prop where
  task_eq : tasks[b.index]? = some b.task
  finish_eq : b.span.finish = b.span.start + b.task.duration
  start_le : b.span.start ≤ s.now
  stage : s.handles[b.index]? = some (.running b.span.start) ∧ s.now ≤ b.span.finish ∨
    s.handles[b.index]? = some (.ended b.span b.task.result) ∧ b.span.finish ≤ s.now

/-- The permits that are free and those of the tasks that run are all permits. -/
inductive Balance (parallelism : ℤ) : Option ℕ → ℕ → Prop
  | unbounded (hle : parallelism ≤ 0) (running : ℕ) : Balance parallelism none running
  | bounded {free running : ℕ} (hpos : 0 < parallelism)
    (hsum : free + running = parallelism.toNat) : Balance parallelism (some free) running

theorem Balance.take {permits permits' : Option ℕ} {n : ℕ} (h : Balance parallelism permits n)
    (htaken : Taken permits permits') :
    HasRoom parallelism n ∧ Balance parallelism permits' (n + 1) := by
  cases htaken with
  | unbounded =>
    cases h with
    | unbounded hle => exact ⟨.inl hle, .unbounded hle _⟩
  | bounded free =>
    cases h with
    | bounded hpos hsum =>
      exact ⟨(hasRoom_iff_lt hpos).mpr (by omega), .bounded hpos (by omega)⟩

theorem Balance.giveBack {permits : Option ℕ} {n : ℕ} (h : Balance parallelism permits (n + 1)) :
    Balance parallelism (permits.map (· + 1)) n := by
  cases h with
  | unbounded hle => exact .unbounded hle _
  | @bounded free _ hpos hsum =>
    exact .bounded hpos (by rwa [Nat.add_right_comm, Nat.add_assoc])

variable {begun : List Begun} {b : Begun}

/-- The tasks that have started, in the order in which they have asked, keep a greedy schedule. -/
structure Course (parallelism : ℤ) (tasks : List TimedTask) (s : Batch) (begun : List Begun) :
    Prop where
  length_handles : s.handles.length = tasks.length
  nodup_queue : s.queue.Nodup
  mem_queue : ∀ i, i ∈ s.queue ↔ s.handles[i]? = some .waiting
  nodup : (begun.map (·.index)).Nodup
  fits : ∀ b ∈ begun, b.Fits tasks s
  started : ∀ i handle, s.handles[i]? = some handle → handle.hasStarted = true →
    ∃ b ∈ begun, b.index = i
  greedy : IsGreedy parallelism (begun.map (·.task.duration)) (begun.map (·.span))
  balance : Balance parallelism s.permits s.running
  /-- All tasks ask at once. -/
  fresh : ∀ i : ℕ, s.handles[i]? = some .given → s.now = 0
  /-- While a task waits there is no room. -/
  busy : s.queue ≠ [] → ∀ t < s.now, ¬HasRoom parallelism (load t (begun.map (·.span)))
  results_eq : s.results = (tasks.map (·.result)).take s.results.length
  collected : ∀ i < s.results.length, ∃ span result, s.handles[i]? = some (.ended span result)

theorem Begun.Fits.congr (h : b.Fits tasks s) (hnow : t.now = s.now)
    (hhandle : t.handles[b.index]? = s.handles[b.index]?) : b.Fits tasks t where
  task_eq := h.task_eq
  finish_eq := h.finish_eq
  start_le := hnow ▸ h.start_le
  stage := by
    rw [hnow, hhandle]
    exact h.stage

theorem Begun.Fits.hasStarted (h : b.Fits tasks s) (hhandle : s.handles[b.index]? = some handle) :
    handle.hasStarted = true := by
  rcases h.stage with ⟨hstage, -⟩ | ⟨hstage, -⟩ <;>
  · obtain rfl := Option.some.inj (hhandle.symm.trans hstage)
    rfl

theorem Begun.Fits.of_running {start : ℕ} (h : b.Fits tasks s)
    (hhandle : s.handles[b.index]? = some (.running start)) :
    start = b.span.start ∧ s.now ≤ b.span.finish := by
  rcases h.stage with ⟨hstage, hle⟩ | ⟨hstage, -⟩
  · exact ⟨Handle.running.inj (Option.some.inj (hhandle.symm.trans hstage)), hle⟩
  · cases hhandle.symm.trans hstage

theorem Begun.Fits.of_ended {span : Span} {result : Result Unit} (h : b.Fits tasks s)
    (hhandle : s.handles[b.index]? = some (.ended span result)) :
    span = b.span ∧ result = b.task.result := by
  rcases h.stage with ⟨hstage, -⟩ | ⟨hstage, -⟩
  · cases hhandle.symm.trans hstage
  · exact Handle.ended.inj (Option.some.inj (hhandle.symm.trans hstage))

theorem running_set (hold : s.handles[i]? = some old) :
    (s.handles.set i new).countP (·.isRunning) + old.isRunning.toNat =
      s.running + new.isRunning.toNat := by
  obtain ⟨hi, rfl⟩ := List.getElem?_eq_some_iff.mp hold
  have hpos : s.handles[i].isRunning = true → 0 < s.running := fun hruns ↦
    List.countP_pos_iff.mpr ⟨_, List.getElem_mem hi, hruns⟩
  rw [List.countP_set hi]
  change s.running - _ + _ + _ = _
  cases hbool : s.handles[i].isRunning <;> cases new.isRunning <;> simp [hbool] at hpos ⊢ <;> omega

theorem countP_eq_length_filter_range {α : Type*} (p : α → Bool) (l : List α) :
    l.countP p = ((List.range l.length).filter fun i ↦ l[i]?.any p).length := by
  induction l using List.reverseRecOn with
  | nil => rfl
  | append_singleton l a ih =>
    have hfilter : (List.range l.length).filter (fun i ↦ (l ++ [a])[i]?.any p) =
        (List.range l.length).filter fun i ↦ l[i]?.any p :=
      List.filter_congr fun i hi ↦ by
        rw [List.getElem?_append_left (List.mem_range.mp hi)]
    rw [List.countP_append, List.length_append, List.length_singleton, List.range_succ,
      List.filter_append, List.length_append, hfilter, ih]
    cases h : p a <;> simp [h]

/-- The places of the tasks that run. -/
def places (s : Batch) : List ℕ :=
  (List.range s.handles.length).filter fun i ↦ s.handles[i]?.any (·.isRunning)

theorem length_places : s.places.length = s.running := (countP_eq_length_filter_range _ _).symm

theorem mem_places : i ∈ s.places ↔ ∃ start, s.handles[i]? = some (.running start) := by
  rw [places, List.mem_filter, List.mem_range]
  constructor
  · rintro ⟨hi, hruns⟩
    rw [List.getElem?_eq_getElem hi, Option.any_some] at hruns
    rw [List.getElem?_eq_getElem hi]
    cases hhandle : s.handles[i] with
    | running start => exact ⟨start, rfl⟩
    | given | waiting | ended =>
      rw [hhandle] at hruns
      cases hruns
  · rintro ⟨start, hhandle⟩
    obtain ⟨hi, -⟩ := List.getElem?_eq_some_iff.mp hhandle
    exact ⟨hi, by rw [hhandle]; rfl⟩

namespace Course

theorem start (parallelism : ℤ) (tasks : List TimedTask) :
    Course parallelism tasks (start parallelism tasks.length) [] := by
  have hgiven : ∀ {i : ℕ} {handle : Handle},
      (Batch.start parallelism tasks.length).handles[i]? = some handle → handle = .given :=
    fun hhandle ↦ List.eq_of_mem_replicate (List.mem_of_getElem? hhandle)
  refine ⟨List.length_replicate, .nil, fun i ↦ ?_, .nil, by simp,
    fun i handle hhandle hstarted ↦ ?_, .nil, ?_, fun _ _ ↦ rfl, fun hne ↦ absurd rfl hne, rfl,
    fun i hi ↦ absurd hi (Nat.not_lt_zero _)⟩
  · refine iff_of_false List.not_mem_nil fun hhandle ↦ ?_
    cases hgiven hhandle
  · rw [hgiven hhandle] at hstarted
    cases hstarted
  · have hrunning : (Batch.start parallelism tasks.length).running = 0 :=
      List.countP_eq_zero.mpr fun handle hhandle ↦ by
        rw [List.eq_of_mem_replicate hhandle]
        exact Bool.false_ne_true
    rw [hrunning, Batch.start]
    split
    · next hpos => exact .bounded hpos (Nat.add_zero _)
    · next hle => exact .unbounded (Int.not_lt.mp hle) _

/-- If no permit is free, the tasks that run have all of them. -/
theorem running_eq (h : Course parallelism tasks s begun) (hpermits : s.permits = some 0) :
    0 < parallelism ∧ s.running = parallelism.toNat := by
  have hbalance := h.balance
  rw [hpermits] at hbalance
  cases hbalance with
  | bounded hpos hsum => exact ⟨hpos, (Nat.zero_add _).symm.trans hsum⟩

theorem load_le_running (h : Course parallelism tasks s begun) :
    load s.now (begun.map (·.span)) ≤ s.running := by
  rw [load, List.countP_map, List.countP_eq_length_filter, ← List.length_map (·.index),
    ← length_places]
  refine ((h.nodup.sublist (List.filter_sublist.map _)).subperm fun i hi ↦ ?_).length_le
  obtain ⟨b, hb, rfl⟩ := List.mem_map.mp hi
  obtain ⟨hb, hruns⟩ := List.mem_filter.mp hb
  have hruns : b.span.Runs s.now := of_decide_eq_true hruns
  rcases (h.fits b hb).stage with ⟨hstage, -⟩ | ⟨-, hle⟩
  · exact mem_places.mpr ⟨_, hstage⟩
  · exact absurd hruns.2 hle.not_gt

/-- As long as no task that runs has come to its end, all of them count in the load. -/
theorem running_le_load (h : Course parallelism tasks s begun) {time : ℕ} (htime : s.now ≤ time)
    (hends : ∀ b ∈ begun, s.handles[b.index]? = some (.running b.span.start) →
      time < b.span.finish) :
    s.running ≤ load time (begun.map (·.span)) := by
  rw [load, List.countP_map, List.countP_eq_length_filter, ← List.length_map (·.index),
    ← length_places]
  have hnodup : s.places.Nodup := List.nodup_range.filter _
  refine (hnodup.subperm fun i hi ↦ ?_).length_le
  obtain ⟨start, hhandle⟩ := mem_places.mp hi
  obtain ⟨b, hb, rfl⟩ := h.started _ _ hhandle rfl
  have hfits := h.fits b hb
  obtain ⟨rfl, -⟩ := hfits.of_running hhandle
  exact List.mem_map_of_mem (List.mem_filter.mpr
    ⟨hb, decide_eq_true ⟨hfits.start_le.trans htime, hends b hb hhandle⟩⟩)

theorem collected_set (h : Course parallelism tasks s begun) (hold : s.handles[i]? = some old)
    (hnot : ∀ span result, old ≠ .ended span result) :
    ∀ j < s.results.length,
      ∃ span result, (s.handles.set i new)[j]? = some (.ended span result) := by
  intro j hj
  obtain ⟨span, result, hended⟩ := h.collected j hj
  refine ⟨span, result, (List.getElem?_set_ne fun hij ↦ ?_).trans hended⟩
  subst hij
  exact hnot span result (Option.some.inj (hold.symm.trans hended))

theorem started_set (h : Course parallelism tasks s begun) {begun' : List Begun}
    (hsubset : begun ⊆ begun') (hnew : new.hasStarted = true → ∃ b ∈ begun', b.index = i) :
    ∀ j handle, (s.handles.set i new)[j]? = some handle → handle.hasStarted = true →
      ∃ b ∈ begun', b.index = j := by
  intro j handle hj hstarted
  rcases eq_or_ne i j with rfl | hij
  · rw [List.getElem?_set] at hj
    obtain ⟨-, rfl⟩ : i < s.handles.length ∧ new = handle := by simpa using hj
    exact hnew hstarted
  · rw [List.getElem?_set_ne hij] at hj
    obtain ⟨b, hb, hbj⟩ := h.started j handle hj hstarted
    exact ⟨b, hsubset hb, hbj⟩

theorem fresh_set (h : Course parallelism tasks s begun) (hnew : new.hasAsked = true) :
    ∀ j : ℕ, (s.handles.set i new)[j]? = some .given → s.now = 0 := by
  intro j hj
  rw [List.getElem?_set] at hj
  split at hj
  · split at hj
    · cases hj
      cases hnew
    · cases hj
  · exact h.fresh j hj

theorem ne_of_mem (h : Course parallelism tasks s begun) (hold : s.handles[i]? = some old)
    (hnot : old.hasStarted = false) (hb : b ∈ begun) : i ≠ b.index := by
  rintro rfl
  have hstarted := (h.fits b hb).hasStarted hold
  rw [hnot] at hstarted
  cases hstarted

theorem ask (h : Course parallelism tasks s begun) (hhandle : s.handles[i]? = some .given) :
    Course parallelism tasks
      { s with queue := s.queue ++ [i], handles := s.handles.set i .waiting } begun := by
  obtain ⟨hi, -⟩ := List.getElem?_eq_some_iff.mp hhandle
  have hnot : i ∉ s.queue := by simp [h.mem_queue, hhandle]
  have hnow := h.fresh i hhandle
  refine ⟨by simpa using h.length_handles, ?_, fun j ↦ ?_, h.nodup, fun b hb ↦ ?_,
    h.started_set (List.Subset.refl _) (by rintro ⟨⟩), h.greedy, ?_, h.fresh_set rfl, ?_,
    h.results_eq, h.collected_set hhandle (by simp)⟩
  · simpa [List.nodup_append] using ⟨h.nodup_queue, fun j hj ↦ ne_of_mem_of_not_mem hj hnot⟩
  · rw [List.mem_append, List.mem_singleton, h.mem_queue]
    rcases eq_or_ne i j with rfl | hij
    · simp [hi]
    · simp [hij, hij.symm]
  · exact (h.fits b hb).congr rfl (List.getElem?_set_ne (h.ne_of_mem hhandle rfl hb))
  · have hrunning : (s.handles.set i .waiting).countP (·.isRunning) = s.running :=
      running_set hhandle
    have hbalance := h.balance
    rwa [← hrunning] at hbalance
  · intro _ time htime
    exact absurd (hnow ▸ htime) (Nat.not_lt_zero _)

/-- The task that has asked first starts, and takes a place in the schedule. -/
theorem begin {queue : List ℕ} {permits : Option ℕ} {task : TimedTask}
    (h : Course parallelism tasks s begun) (hqueue : s.queue = i :: queue)
    (hhandle : s.handles[i]? = some .waiting) (htask : tasks[i]? = some task)
    (hpermit : Taken s.permits permits) :
    Course parallelism tasks
      { s with permits, queue, handles := s.handles.set i (.running s.now) }
      (begun ++ [⟨i, task, ⟨s.now, s.now + task.duration⟩⟩]) := by
  obtain ⟨hi, -⟩ := List.getElem?_eq_some_iff.mp hhandle
  obtain ⟨hroom, hbalance⟩ := h.balance.take hpermit
  have hbusy := h.busy (by simp [hqueue])
  have hleast : IsLeast {t | HasRoom parallelism (load t (begun.map (·.span)))} s.now :=
    ⟨hroom.mono h.load_le_running, fun t ht ↦ Nat.le_of_not_lt fun hlt ↦ hbusy t hlt ht⟩
  have hgreedy := h.greedy.snoc task.duration hleast
  have hnodup := h.nodup_queue
  rw [hqueue] at hnodup
  refine ⟨by simpa using h.length_handles, hnodup.of_cons, fun j ↦ ?_, ?_, ?_,
    h.started_set (List.subset_append_left ..) fun _ ↦ ⟨_, List.mem_concat_self, rfl⟩,
    by simpa using hgreedy, ?_, h.fresh_set rfl, ?_, h.results_eq,
    h.collected_set hhandle (by simp)⟩
  · rcases eq_or_ne i j with rfl | hij
    · simp [hi, hnodup.notMem]
    · rw [List.getElem?_set_ne hij, ← h.mem_queue, hqueue, List.mem_cons]
      simp [hij.symm]
  · rw [List.map_append, List.map_singleton, List.nodup_append]
    refine ⟨h.nodup, List.nodup_singleton _, fun j hj k hk ↦ ?_⟩
    obtain ⟨b, hb, rfl⟩ := List.mem_map.mp hj
    rw [List.mem_singleton.mp hk]
    exact (h.ne_of_mem hhandle rfl hb).symm
  · refine List.forall_mem_append.mpr ⟨fun b hb ↦ ?_, List.forall_mem_singleton.mpr ?_⟩
    · exact (h.fits b hb).congr rfl (List.getElem?_set_ne (h.ne_of_mem hhandle rfl hb))
    · exact ⟨htask, rfl, le_rfl, .inl ⟨List.getElem?_set_self hi, Nat.le_add_right ..⟩⟩
  · have hrunning : (s.handles.set i (.running s.now)).countP (·.isRunning) = s.running + 1 :=
      running_set hhandle
    rwa [← hrunning] at hbalance
  · intro _ t ht hroom
    rw [List.map_append, load_append] at hroom
    exact hbusy t ht (hroom.mono (Nat.le_add_right ..))

/-- A task that ends has kept to its span, and gives its permit back. -/
theorem finish (h : Course parallelism tasks s begun) (hb : b ∈ begun)
    (hhandle : s.handles[b.index]? = some (.running b.span.start))
    (htime : b.span.finish = s.now) :
    Course parallelism tasks
      { s with
        permits := s.permits.map (· + 1)
        handles := s.handles.set b.index (.ended ⟨b.span.start, s.now⟩ b.task.result) } begun := by
  obtain ⟨hi, -⟩ := List.getElem?_eq_some_iff.mp hhandle
  have hfits := h.fits b hb
  have hspan : (⟨b.span.start, s.now⟩ : Span) = b.span := by rw [← htime]
  refine ⟨by simpa using h.length_handles, h.nodup_queue, fun j ↦ ?_, h.nodup, fun b' hb' ↦ ?_,
    h.started_set (List.Subset.refl _) fun _ ↦ ⟨b, hb, rfl⟩, h.greedy, ?_, h.fresh_set rfl,
    h.busy, h.results_eq, h.collected_set hhandle (by simp)⟩
  · rw [h.mem_queue]
    rcases eq_or_ne b.index j with rfl | hij
    · rw [hhandle, List.getElem?_set_self hi]
      simp
    · rw [List.getElem?_set_ne hij]
  · rcases eq_or_ne b.index b'.index with heq | hne
    · obtain rfl : b = b' := List.inj_on_of_nodup_map h.nodup hb hb' heq
      exact ⟨hfits.task_eq, hfits.finish_eq, hfits.start_le,
        .inr ⟨(List.getElem?_set_self hi).trans (by rw [hspan]), htime.le⟩⟩
    · exact (h.fits b' hb').congr rfl (List.getElem?_set_ne hne)
  · have hrunning : (s.handles.set b.index (.ended ⟨b.span.start, s.now⟩ b.task.result)).countP
        (·.isRunning) + 1 = s.running := running_set hhandle
    have hbalance := h.balance
    rw [← hrunning] at hbalance
    exact hbalance.giveBack

theorem collect {span : Span} {result : Result Unit} (h : Course parallelism tasks s begun)
    (hhandle : s.handles[s.results.length]? = some (.ended span result)) :
    Course parallelism tasks { s with results := s.results ++ [result] } begun := by
  obtain ⟨b, hb, hindex⟩ := h.started _ _ hhandle rfl
  have hfits := h.fits b hb
  obtain ⟨-, rfl⟩ := hfits.of_ended (hindex ▸ hhandle)
  have htask : (tasks.map (·.result))[s.results.length]? = some b.task.result := by
    rw [List.getElem?_map, ← hindex, hfits.task_eq, Option.map_some]
  refine { h with results_eq := ?_, collected := fun j hj ↦ ?_, fits := fun b hb ↦
    (h.fits b hb).congr rfl rfl }
  · rw [List.length_append, List.length_singleton, List.take_add_one, htask, ← h.results_eq]
    rfl
  · rw [List.length_append, List.length_singleton] at hj
    rcases Nat.lt_succ_iff_lt_or_eq.mp hj with hj | rfl
    · exact h.collected j hj
    · exact ⟨_, _, hhandle⟩

/-- Time that passes brings no task beyond its end, and leaves no permit unused that is asked for.
-/
theorem pass {millis : ℕ} (h : Course parallelism tasks s begun)
    (hasked : ∀ handle ∈ s.handles, handle.hasAsked = true)
    (htasks : ∀ b ∈ begun, s.handles[b.index]? = some (.running b.span.start) →
      s.now + millis ≤ b.span.finish)
    (hqueue : s.queue = [] ∨ s.permits = some 0) :
    Course parallelism tasks { s with now := s.now + millis } begun := by
  refine { h with fits := fun b hb ↦ ?_, fresh := fun i hi ↦ ?_, busy := fun hne time htime ↦ ?_ }
  · have hfits := h.fits b hb
    refine ⟨hfits.task_eq, hfits.finish_eq, hfits.start_le.trans (Nat.le_add_right ..), ?_⟩
    rcases hfits.stage with ⟨hstage, -⟩ | ⟨hstage, hle⟩
    · exact .inl ⟨hstage, htasks b hb hstage⟩
    · exact .inr ⟨hstage, hle.trans (Nat.le_add_right ..)⟩
  · cases hasked _ (List.mem_of_getElem? hi)
  · by_cases hold : time < s.now
    · exact h.busy hne time hold
    -- all tasks that run do so up to the new time, and they have all permits
    have hload := h.running_le_load (Nat.le_of_not_lt hold) fun b hb hstage ↦
      htime.trans_le (htasks b hb hstage)
    obtain ⟨hpos, hall⟩ := h.running_eq (hqueue.resolve_left hne)
    rw [hasRoom_iff_lt hpos, ← hall]
    exact hload.not_gt

theorem step (h : Course parallelism tasks s begun) (hstep : Step tasks s e t) :
    ∃ begun', Course parallelism tasks t begun' ∧
      begun'.map (·.index) = begun.map (·.index) ++ e.admitted?.toList := by
  cases hstep with
  | asked hhandle => exact ⟨_, h.ask hhandle, by simp [Event.admitted?]⟩
  | admitted hqueue hhandle hpermit =>
    obtain ⟨hi, -⟩ := List.getElem?_eq_some_iff.mp hhandle
    have htask := List.getElem?_eq_getElem (h.length_handles ▸ hi)
    exact ⟨_, h.begin hqueue hhandle htask hpermit, by simp [Event.admitted?]⟩
  | ended htask hhandle htime =>
    obtain ⟨b, hb, rfl⟩ := h.started _ _ hhandle rfl
    have hfits := h.fits b hb
    obtain ⟨rfl, -⟩ := hfits.of_running hhandle
    obtain rfl := Option.some.inj (htask.symm.trans hfits.task_eq)
    exact ⟨_, h.finish hb hhandle (hfits.finish_eq.trans htime), by simp [Event.admitted?]⟩
  | collected hhandle => exact ⟨_, h.collect hhandle, by simp [Event.admitted?]⟩
  | passed hmillis hrunning hasked htasks hqueue =>
    refine ⟨_, h.pass hasked (fun b hb hstage ↦ ?_) hqueue, by simp [Event.admitted?]⟩
    have hfits := h.fits b hb
    rw [hfits.finish_eq]
    exact htasks _ _ _ hfits.task_eq hstage

theorem of_run (hrun : Run (Step tasks) (Batch.start parallelism tasks.length) events s) :
    ∃ begun, Course parallelism tasks s begun ∧
      begun.map (·.index) = events.filterMap Event.admitted? := by
  induction hrun with
  | nil => exact ⟨[], start parallelism tasks, rfl⟩
  | snoc _ hstep ih =>
    obtain ⟨begun, h, hindex⟩ := ih
    obtain ⟨begun', h', hindex'⟩ := h.step hstep
    exact ⟨begun', h', by rw [hindex', hindex, filterMap_snoc]⟩

/-! ## The end of a batch -/

end Course

/-! ## Bounded batches -/

/-- The tasks, in an order that is given by their places. -/
def inOrder (tasks : List TimedTask) (order : List ℕ) : List TimedTask :=
  order.filterMap (tasks[·]?)

theorem inOrder_range (tasks : List TimedTask) :
    inOrder tasks (List.range tasks.length) = tasks := by
  induction tasks using List.reverseRecOn with
  | nil => rfl
  | append_singleton tasks task ih =>
    have hinit : inOrder (tasks ++ [task]) (List.range tasks.length) = tasks := by
      refine (List.filterMap_congr fun i hi ↦ ?_).trans ih
      exact List.getElem?_append_left (List.mem_range.mp hi)
    rw [inOrder] at hinit
    rw [inOrder, List.length_append, List.length_singleton, List.range_succ,
      List.filterMap_append, hinit]
    simp

/-- A batch that has returned has run every task once, from its start to its end, at the times of
the greedy schedule for the order in which the tasks have asked. -/
structure Finished (parallelism : ℤ) (tasks : List TimedTask) (order : List ℕ) (s : Batch) : Prop
    where
  order_perm : order.Perm (List.range tasks.length)
  results_eq : s.results = tasks.map (·.result)
  queue_eq : s.queue = []
  ended : ∀ i, (∃ span result, s.handles[i]? = some (.ended span result)) ↔ i < tasks.length
  spans_eq : List.Forall₂
    (fun i span ↦ ∃ task, tasks[i]? = some task ∧ s.handles[i]? = some (.ended span task.result))
    order (spans parallelism ((inOrder tasks order).map (·.duration)))
  timely : IsTimely parallelism ((inOrder tasks order).map (·.duration))
    (spans parallelism ((inOrder tasks order).map (·.duration)))

theorem Course.finished (h : Course parallelism tasks s begun) (hreturned : Returned tasks s) :
    Finished parallelism tasks (begun.map (·.index)) s := by
  have hended : ∀ i, (∃ span result, s.handles[i]? = some (.ended span result)) ↔
      i < tasks.length := by
    refine fun i ↦ ⟨?_, fun hi ↦ h.collected i (hreturned.symm ▸ hi)⟩
    rintro ⟨span, result, hhandle⟩
    obtain ⟨hi, -⟩ := List.getElem?_eq_some_iff.mp hhandle
    exact h.length_handles ▸ hi
  have hhandle : ∀ b ∈ begun, s.handles[b.index]? = some (.ended b.span b.task.result) := by
    intro b hb
    obtain ⟨hi, -⟩ := List.getElem?_eq_some_iff.mp (h.fits b hb).task_eq
    obtain ⟨span, result, hhandle⟩ := (hended _).mpr hi
    obtain ⟨rfl, rfl⟩ := (h.fits b hb).of_ended hhandle
    exact hhandle
  have htasks : inOrder tasks (begun.map (·.index)) = begun.map (·.task) := by
    rw [inOrder, List.filterMap_map, ← List.filterMap_eq_map]
    exact List.filterMap_congr fun b hb ↦ (h.fits b hb).task_eq
  have hspans : spans parallelism ((begun.map (·.task)).map (·.duration)) = begun.map (·.span) := by
    rw [List.map_map]
    exact (isGreedy_spans _ _).eq h.greedy
  refine ⟨?_, ?_, ?_, hended, ?_, (isGreedy_spans _ _).isTimely⟩
  · refine (List.perm_ext_iff_of_nodup h.nodup List.nodup_range).mpr fun i ↦ ?_
    rw [List.mem_range, ← hended]
    constructor
    · intro hi
      obtain ⟨b, hb, rfl⟩ := List.mem_map.mp hi
      exact ⟨_, _, hhandle b hb⟩
    · rintro ⟨span, result, hhandle⟩
      obtain ⟨b, hb, rfl⟩ := h.started _ _ hhandle rfl
      exact List.mem_map_of_mem hb
  · rw [h.results_eq, hreturned, List.take_of_length_le (List.length_map _).le]
  · refine List.eq_nil_iff_forall_not_mem.mpr fun i hi ↦ ?_
    have hwaiting := (h.mem_queue i).mp hi
    obtain ⟨hlt, -⟩ := List.getElem?_eq_some_iff.mp hwaiting
    obtain ⟨span, result, hhandle⟩ := (hended i).mpr (h.length_handles ▸ hlt)
    cases hwaiting.symm.trans hhandle
  · rw [htasks, hspans, List.forall₂_map_left_iff, List.forall₂_map_right_iff]
    exact List.forall₂_same.mpr fun b hb ↦ ⟨_, (h.fits b hb).task_eq, hhandle b hb⟩

/-- What is so of a batch at any time, and what it has come to when it has returned. -/
structure Kept (parallelism : ℤ) (tasks : List TimedTask) (events : List Event) (s : Batch) :
    Prop where
  running_le : 0 < parallelism → s.running ≤ parallelism.toNat
  /-- A task asks once. -/
  asked_nodup : (events.filterMap Event.asked?).Nodup
  /-- Tasks start in the order in which they have asked, and the others wait in it. -/
  asked_eq : events.filterMap Event.asked? = events.filterMap Event.admitted? ++ s.queue
  /-- Time passes only if nobody waits or all places are taken. -/
  full : ∀ millis t, Step tasks s (.passed millis) t →
    s.queue = [] ∨ 0 < parallelism ∧ s.running = parallelism.toNat
  ended_nodup : (events.filterMap Event.ended?).Nodup
  returned : Returned tasks s →
    Finished parallelism tasks (events.filterMap Event.asked?) s ∧
      (events.filterMap Event.ended?).Perm (List.range tasks.length)

/-- The tasks have asked in the order in which they were given. -/
def AskInOrder (tasks : List TimedTask) (events : List Event) : Prop :=
  events.filterMap Event.asked? <+: List.range tasks.length

/-- What comes to it if the tasks ask in the order in which they were given: they start in that
order, and their spans are those of the greedy schedule for it. -/
structure KeptInOrder (parallelism : ℤ) (tasks : List TimedTask) (events : List Event) (s : Batch) :
    Prop where
  admitted_eq : events.filterMap Event.admitted? =
    List.range (events.filterMap Event.admitted?).length
  returned : Returned tasks s →
    s.handles = List.zipWith (fun span task ↦ .ended span task.result)
      (spans parallelism (tasks.map (·.duration))) tasks ∧
    IsTimely parallelism (tasks.map (·.duration)) (spans parallelism (tasks.map (·.duration)))

theorem Course.kept (h : Course parallelism tasks s begun)
    (hindex : begun.map (·.index) = events.filterMap Event.admitted?)
    (hrun : Run (Step tasks) (Batch.start parallelism tasks.length) events s) :
    Kept parallelism tasks events s := by
  have hasked := admitted_append_queue hrun
  obtain ⟨hnodup, hmem⟩ := ended_iff hrun
  refine ⟨fun hpos ↦ ?_, ?_, hasked.symm, fun millis t hstep ↦ ?_, hnodup, fun hreturned ↦ ?_⟩
  · have hbalance := h.balance
    generalize s.permits = permits at hbalance
    cases hbalance with
    | unbounded hle => omega
    | bounded _ hsum => omega
  · rw [← hasked, ← hindex]
    refine List.nodup_append.mpr ⟨h.nodup, h.nodup_queue, fun i hi j hj hij ↦ ?_⟩
    obtain ⟨b, hb, rfl⟩ := List.mem_map.mp hi
    exact h.ne_of_mem ((h.mem_queue j).mp hj) rfl hb hij.symm
  · cases hstep with
    | passed _ _ _ _ hqueue => exact hqueue.imp_right h.running_eq
  · have hfinished := h.finished hreturned
    rw [← hasked, hfinished.queue_eq, List.append_nil, ← hindex]
    refine ⟨hfinished, (List.perm_ext_iff_of_nodup hnodup List.nodup_range).mpr fun i ↦ ?_⟩
    rw [hmem, hfinished.ended, List.mem_range]

theorem Kept.inOrder (h : Kept parallelism tasks events s)
    (hlength : s.handles.length = tasks.length) (horder : AskInOrder tasks events) :
    KeptInOrder parallelism tasks events s := by
  refine ⟨?_, fun hreturned ↦ ?_⟩
  · have hprefix : events.filterMap Event.admitted? <+: List.range tasks.length :=
      (h.asked_eq ▸ List.prefix_append _ _ : _ <+: events.filterMap Event.asked?).trans horder
    have hle := hprefix.length_le
    rw [List.length_range] at hle
    exact (List.prefix_iff_eq_take.mp hprefix).trans (by rw [List.take_range, Nat.min_eq_left hle])
  · obtain ⟨hfinished, -⟩ := h.returned hreturned
    have hasked : events.filterMap Event.asked? = List.range tasks.length :=
      horder.eq_of_length hfinished.order_perm.length_eq
    have hspans := hfinished.spans_eq
    have htimely := hfinished.timely
    rw [hasked, inOrder_range] at hspans htimely
    refine ⟨List.ext_getElem? fun i ↦ ?_, htimely⟩
    obtain ⟨hcount, hget⟩ := List.forall₂_iff_get.mp hspans
    rw [List.length_range] at hcount
    by_cases hi : i < tasks.length
    · obtain ⟨task, htask, hhandle⟩ := hget i (by simpa using hi) (hcount ▸ hi)
      rw [List.get_eq_getElem, List.getElem_range] at htask hhandle
      rw [hhandle, List.getElem?_zipWith_eq_some.mpr
        ⟨_, _, List.getElem?_eq_getElem (hcount ▸ hi), htask, rfl⟩]
      rfl
    · rw [List.getElem?_eq_none (by omega), List.getElem?_eq_none (by simp; omega)]

end Batch

end NodeInventory.Schedule
