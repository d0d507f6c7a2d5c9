import Mathlib.Data.List.Induction
import Mathlib.Order.Bounds.Basic
import NodeInventory.Schedule.Bounded

/-!
# Starting as early as possible

Tasks are given in an order, and there may be a bound on how many run at once. The schedule is
greedy if each task starts at the first time at which there is room for it beside the tasks before
it (`IsGreedy`). The durations leave no choice then: two greedy schedules of the same tasks are the
same (`IsGreedy.eq`).

That later tasks are left out of account does no harm. A task starts no sooner than those before it,
so the bound holds for all tasks together (`IsGreedy.load_le`), and as long as a task has not
started there is no room for anybody (`IsGreedy.not_hasRoom`).

The spans of a bounded batch are greedy (`isGreedy_spans`). They are computed from the ends of the
tasks that hold the places, which are all that one has to know of the past: from the last start on,
a task runs just if its end is among them and still ahead (`Occupied`).
-/

namespace NodeInventory.Schedule

variable {parallelism : ℤ} {bound d t : ℕ} {ds ends : List ℕ} {l l' : List Span} {s : Span}

/-! ## Running at a time -/

/-- A task runs at a time. One that ends at the time has made room by then. -/
def Span.Runs (s : Span) (t : ℕ) : Prop := s.start ≤ t ∧ t < s.finish

instance (s : Span) (t : ℕ) : Decidable (s.Runs t) := inferInstanceAs (Decidable (_ ∧ _))

/-- How many tasks run at a time. -/
def load (t : ℕ) (l : List Span) : ℕ := l.countP fun s ↦ s.Runs t

@[simp] theorem load_nil : load t [] = 0 := rfl

@[simp] theorem load_append : load t (l ++ l') = load t l + load t l' := List.countP_append

theorem load_singleton : load t [s] = if s.Runs t then 1 else 0 := by
  simp [load, List.countP_singleton]

/-- There is room for one more task beside a number of tasks. -/
def HasRoom (parallelism : ℤ) (n : ℕ) : Prop := parallelism ≤ 0 ∨ (n : ℤ) < parallelism

theorem HasRoom.mono {n m : ℕ} (h : n ≤ m) (hm : HasRoom parallelism m) :
    HasRoom parallelism n :=
  hm.imp_right fun hlt ↦ by omega

theorem hasRoom_iff_lt (hpos : 0 < parallelism) {n : ℕ} :
    HasRoom parallelism n ↔ n < parallelism.toNat := by
  rw [HasRoom]
  omega

/-! ## Greedy schedules -/

/-- Each task starts at the first time at which there is room for it beside the tasks before it. -/
inductive IsGreedy (parallelism : ℤ) : List ℕ → List Span → Prop
  | nil : IsGreedy parallelism [] []
  | snoc {ds : List ℕ} {l : List Span} {start : ℕ} (d : ℕ) (h : IsGreedy parallelism ds l)
    (hstart : IsLeast {t | HasRoom parallelism (load t l)} start) :
    IsGreedy parallelism (ds ++ [d]) (l ++ [⟨start, start + d⟩])

namespace IsGreedy

theorem length_eq (h : IsGreedy parallelism ds l) : l.length = ds.length := by
  induction h with
  | nil => rfl
  | snoc d _ _ ih => simp [ih]

/-- As long as a task has not started there is no room. -/
theorem not_hasRoom (h : IsGreedy parallelism ds l) (hs : s ∈ l) (ht : t < s.start) :
    ¬HasRoom parallelism (load t l) := by
  induction h with
  | nil => cases hs
  | @snoc ds l start d h hstart ih =>
    rw [load_append]
    rcases List.mem_append.mp hs with hs | hs
    · exact fun hroom ↦ ih hs (hroom.mono (Nat.le_add_right ..))
    · cases List.mem_singleton.mp hs
      exact fun hroom ↦ ht.not_ge (hstart.2 (hroom.mono (Nat.le_add_right ..)))

theorem start_le_of_hasRoom (h : IsGreedy parallelism ds l)
    (hroom : HasRoom parallelism (load t l)) (hs : s ∈ l) : s.start ≤ t :=
  Nat.le_of_not_lt fun ht ↦ h.not_hasRoom hs ht hroom

theorem pairwise_start_le (h : IsGreedy parallelism ds l) : l.Pairwise (·.start ≤ ·.start) := by
  induction h with
  | nil => exact .nil
  | @snoc ds l start d h hstart ih =>
    refine List.pairwise_append.mpr ⟨ih, List.pairwise_singleton .., fun s hs s' hs' ↦ ?_⟩
    cases List.mem_singleton.mp hs'
    exact h.start_le_of_hasRoom hstart.1 hs

theorem load_le_load {start : ℕ} (hstarts : ∀ s ∈ l, s.start ≤ start) (ht : start ≤ t) :
    load t l ≤ load start l :=
  List.countP_mono_left fun s hs hruns ↦ by
    have hruns : s.Runs t := of_decide_eq_true hruns
    exact decide_eq_true ⟨hstarts s hs, Nat.lt_of_le_of_lt ht hruns.2⟩

/-- At no time do more tasks run than the bound allows. -/
theorem load_le (h : IsGreedy parallelism ds l) (hpos : 0 < parallelism) (t : ℕ) :
    load t l ≤ parallelism.toNat := by
  induction h with
  | nil => exact Nat.zero_le _
  | @snoc ds l start d h hstart ih =>
    rw [load_append, load_singleton]
    split
    · next hruns =>
      have hroom := (hasRoom_iff_lt hpos).mp hstart.1
      have hle := load_le_load (fun s ↦ h.start_le_of_hasRoom hstart.1) hruns.1
      omega
    · exact ih

theorem load_eq (h : IsGreedy parallelism ds l) (hs : s ∈ l) (ht : t < s.start) :
    0 < parallelism ∧ load t l = parallelism.toNat := by
  have hroom := h.not_hasRoom hs ht
  have hpos : 0 < parallelism := Int.not_le.mp fun hle ↦ hroom (.inl hle)
  rw [hasRoom_iff_lt hpos] at hroom
  exact ⟨hpos, Nat.le_antisymm (h.load_le hpos t) (Nat.le_of_not_lt hroom)⟩

theorem start_eq_zero (h : IsGreedy parallelism ds l) (hpos : parallelism ≤ 0) (hs : s ∈ l) :
    s.start = 0 :=
  Nat.le_zero.mp (h.start_le_of_hasRoom (.inl hpos) hs)

/-- The durations and the bound leave no choice. -/
theorem eq (h : IsGreedy parallelism ds l) (h' : IsGreedy parallelism ds l') : l = l' := by
  induction h generalizing l' with
  | nil => exact (List.length_eq_zero_iff.mp h'.length_eq).symm
  | @snoc ds l start d h hstart ih =>
    generalize hds : ds ++ [d] = ds' at h'
    cases h' with
    | nil => simp at hds
    | @snoc _ _ start' d' h' hstart' =>
      obtain ⟨rfl, hd⟩ := List.append_inj' hds rfl
      cases hd
      obtain rfl := ih h'
      rw [hstart.unique hstart']

/-- A task starts at the first time at which there is room beside those before it, and takes the
time that it takes. -/
theorem getElem (h : IsGreedy parallelism ds l) {i : ℕ} {s : Span} {d : ℕ}
    (hs : l[i]? = some s) (hd : ds[i]? = some d) :
    s.finish = s.start + d ∧ IsLeast {t | HasRoom parallelism (load t (l.take i))} s.start := by
  induction h with
  | nil => cases hs
  | @snoc ds l start d' h hstart ih =>
    have hlength := h.length_eq
    rcases Nat.lt_trichotomy i l.length with hi | rfl | hi
    · rw [List.getElem?_append_left hi] at hs
      rw [List.getElem?_append_left (hlength ▸ hi)] at hd
      rw [List.take_append_of_le_length hi.le]
      exact ih hs hd
    · obtain rfl : _ = s := by simpa using hs
      obtain rfl : d' = d := by simpa [hlength] using hd
      exact ⟨rfl, by simpa using hstart⟩
    · rw [List.getElem?_eq_none (by simp; omega)] at hs
      cases hs

end IsGreedy

/-- When the tasks of a batch run. -/
structure IsTimely (parallelism : ℤ) (ds : List ℕ) (l : List Span) : Prop where
  length_eq : l.length = ds.length
  finish_eq : ∀ (i : ℕ) (s : Span) (d : ℕ), l[i]? = some s → ds[i]? = some d →
    s.finish = s.start + d
  /-- A task starts at the earliest time at which fewer of those before it run than may. -/
  isLeast_start : 0 < parallelism → ∀ (i : ℕ) (s : Span), l[i]? = some s →
    IsLeast {t | load t (l.take i) < parallelism.toNat} s.start
  /-- Without a bound all tasks start at once. -/
  start_eq_zero : parallelism ≤ 0 → ∀ s ∈ l, s.start = 0
  pairwise_start_le : l.Pairwise (·.start ≤ ·.start)
  load_le : 0 < parallelism → ∀ t, load t l ≤ parallelism.toNat
  /-- While a task waits, as many run as may. -/
  load_eq : ∀ s ∈ l, ∀ t < s.start, load t l = parallelism.toNat

theorem IsGreedy.isTimely (h : IsGreedy parallelism ds l) : IsTimely parallelism ds l where
  length_eq := h.length_eq
  finish_eq i s d hs hd := (h.getElem hs hd).1
  isLeast_start hpos i s hs := by
    obtain ⟨hi, -⟩ := List.getElem?_eq_some_iff.mp hs
    obtain ⟨d, hd⟩ : ∃ d, ds[i]? = some d := ⟨_, List.getElem?_eq_getElem (h.length_eq ▸ hi)⟩
    simpa only [hasRoom_iff_lt hpos] using (h.getElem hs hd).2
  start_eq_zero hle s hs := h.start_eq_zero hle hs
  pairwise_start_le := h.pairwise_start_le
  load_le := h.load_le
  load_eq s hs t ht := (h.load_eq hs ht).2

/-! ## The spans of a batch -/

theorem insertSorted_perm (n : ℕ) (ns : List ℕ) : (insertSorted n ns).Perm (n :: ns) := by
  induction ns with
  | nil => exact .refl _
  | cons m ms ih =>
    rw [insertSorted]
    split
    · exact .refl _
    · exact (ih.cons m).trans (.swap n m ms)

theorem sorted_insertSorted {n : ℕ} {ns : List ℕ} (h : ns.Pairwise (· ≤ ·)) :
    (insertSorted n ns).Pairwise (· ≤ ·) := by
  induction ns with
  | nil => exact List.pairwise_singleton ..
  | cons m ms ih =>
    obtain ⟨hm, hms⟩ := List.pairwise_cons.mp h
    rw [insertSorted]
    split
    · next hle =>
      refine List.pairwise_cons.mpr ⟨List.forall_mem_cons.mpr ⟨hle, fun k hk ↦ ?_⟩, h⟩
      exact hle.trans (hm k hk)
    · next hlt =>
      refine List.pairwise_cons.mpr ⟨fun k hk ↦ ?_, ih hms⟩
      rcases List.mem_cons.mp ((insertSorted_perm n ms).mem_iff.mp hk) with rfl | hk
      · exact Nat.le_of_not_le hlt
      · exact hm k hk

/-- The ends of the tasks that hold the places, when all tasks have started. Until the places are
all taken the tasks have started at once. -/
structure Occupied (bound : ℕ) (l : List Span) (ends : List ℕ) : Prop where
  sorted : ends.Pairwise (· ≤ ·)
  length_le : ends.length ≤ bound
  start_le : ∀ s ∈ l, ∀ e ∈ ends, s.start ≤ e
  load_eq : ∀ t, (∀ s ∈ l, s.start ≤ t) → load t l = ends.countP (t < ·)
  start_eq_zero : ends.length < bound → ∀ s ∈ l, s.start = 0

namespace Occupied

/-- A task that starts no sooner than the others takes a place, where the others keep the rest. -/
theorem snoc {start : ℕ} {ends' : List ℕ} (h : Occupied bound l ends)
    (hsub : ends'.Sublist ends) (hlength : ends'.length < bound)
    (hstart : ∀ s ∈ l, s.start ≤ start) (hends : ∀ e ∈ ends', start ≤ e)
    (hgone : ∀ t, start ≤ t → ends.countP (t < ·) = ends'.countP (t < ·))
    (hzero : ends'.length + 1 < bound → start = 0) (d : ℕ) :
    Occupied bound (l ++ [⟨start, start + d⟩]) (insertSorted (start + d) ends') := by
  have hperm := insertSorted_perm (start + d) ends'
  refine ⟨sorted_insertSorted (h.sorted.sublist hsub), ?_, ?_, ?_, ?_⟩
  · rw [hperm.length_eq]
    exact hlength
  · intro s hs e he
    have hle : start ≤ e := by
      rcases List.mem_cons.mp (hperm.mem_iff.mp he) with rfl | he
      · exact Nat.le_add_right ..
      · exact hends e he
    rcases List.mem_append.mp hs with hs | hs
    · exact (hstart s hs).trans hle
    · cases List.mem_singleton.mp hs
      exact hle
  · intro t ht
    have hlater : start ≤ t := ht ⟨start, start + d⟩ (by simp)
    rw [load_append, h.load_eq t fun s hs ↦ (hstart s hs).trans hlater, hgone t hlater,
      hperm.countP_eq, List.countP_cons, load_singleton]
    simp [Span.Runs, hlater]
  · intro hroom s hs
    rw [hperm.length_eq] at hroom
    have hzero := hzero hroom
    rcases List.mem_append.mp hs with hs | hs
    · exact Nat.le_zero.mp (hzero ▸ hstart s hs)
    · cases List.mem_singleton.mp hs
      exact hzero

theorem isLeast_zero (hends : Occupied parallelism.toNat l ends) (hpos : 0 < parallelism)
    (hlt : ends.length < parallelism.toNat) :
    IsLeast {t | HasRoom parallelism (load t l)} 0 := by
  refine ⟨(hasRoom_iff_lt hpos).mpr ?_, fun t _ ↦ Nat.zero_le t⟩
  rw [hends.load_eq 0 fun s hs ↦ (hends.start_eq_zero hlt s hs).le]
  exact List.countP_le_length.trans_lt hlt

/-- When all places are taken, the next task starts when the first of them is given up. -/
theorem isLeast_head {e : ℕ} {es : List ℕ} (hends : Occupied parallelism.toNat l (e :: es))
    (h : IsGreedy parallelism ds l) (hpos : 0 < parallelism)
    (hfull : es.length + 1 = parallelism.toNat) :
    IsLeast {t | HasRoom parallelism (load t l)} e := by
  refine ⟨(hasRoom_iff_lt hpos).mpr ?_, fun t ht ↦ Nat.le_of_not_lt fun hlt ↦ ?_⟩
  · rw [hends.load_eq e fun s hs ↦ hends.start_le s hs e (by simp)]
    have : (e :: es).countP (e < ·) ≤ es.length := by
      simpa using List.countP_le_length (p := (e < ·))
    omega
  · have hroom := (hasRoom_iff_lt hpos).mp ht
    rw [hends.load_eq t fun s ↦ h.start_le_of_hasRoom ht] at hroom
    obtain ⟨hle, -⟩ := List.pairwise_cons.mp hends.sorted
    have hall : (e :: es).countP (t < ·) = es.length + 1 :=
      List.countP_eq_length.mpr fun k hk ↦ by
        rcases List.mem_cons.mp hk with rfl | hk
        · simpa using hlt
        · simpa using hlt.trans_le (hle k hk)
    omega

end Occupied

theorem isGreedy_spansFrom (hpos : 0 < parallelism) (h : IsGreedy parallelism ds l)
    (hends : Occupied parallelism.toNat l ends) (ds' : List ℕ) :
    IsGreedy parallelism (ds ++ ds') (l ++ spansFrom parallelism.toNat ends ds') := by
  induction ds' generalizing ds l ends with
  | nil => simpa [spansFrom] using h
  | cons d ds' ih =>
    rw [spansFrom.eq_def]
    dsimp only
    split
    -- a place is left, so the task starts at once
    · next hlt =>
      have hzero := hends.start_eq_zero hlt
      have hnext := h.snoc d (hends.isLeast_zero hpos hlt)
      have hoccupied := hends.snoc (.refl _) hlt (fun s hs ↦ (hzero s hs).le)
        (fun _ _ ↦ Nat.zero_le _) (fun _ _ ↦ rfl) (fun _ ↦ rfl) d
      rw [Nat.zero_add] at hnext hoccupied
      simpa using ih hnext hoccupied
    -- all places are taken, and the task gets the one that is given up first
    · next hfull =>
      split
      · simp at hfull
        omega
      · next e es =>
        obtain ⟨hle, -⟩ := List.pairwise_cons.mp hends.sorted
        have hlength : es.length + 1 = parallelism.toNat :=
          Nat.le_antisymm hends.length_le (Nat.le_of_not_lt hfull)
        have hoccupied := hends.snoc (List.sublist_cons_self e es) (by omega)
          (fun s hs ↦ hends.start_le s hs e (by simp)) hle
          (fun t ht ↦ by simp [ht]) (fun hlt ↦ by omega) d
        simpa using ih (h.snoc d (hends.isLeast_head h hpos hlength)) hoccupied

theorem isGreedy_spans (parallelism : ℤ) (ds : List ℕ) :
    IsGreedy parallelism ds (spans parallelism ds) := by
  rw [spans]
  split
  · next hpos =>
    exact @isGreedy_spansFrom parallelism [] [] [] hpos .nil
      ⟨.nil, by simp, by simp, by simp, by simp⟩ ds
  · next hle =>
    induction ds using List.reverseRecOn with
    | nil => exact .nil
    | append_singleton ds d ih =>
      rw [List.map_append, List.map_singleton]
      have hnext := ih.snoc d ⟨.inl (Int.not_lt.mp hle), fun t _ ↦ Nat.zero_le t⟩
      rwa [Nat.zero_add] at hnext

theorem IsGreedy.peak_le (h : IsGreedy parallelism ds l) (hpos : 0 < parallelism) :
    peak l ≤ parallelism.toNat := by
  have hfold : ∀ (xs : List (Span × ℕ)) (most : ℕ), most ≤ parallelism.toNat →
      (∀ x ∈ xs, 1 + ((l.take x.2).filter fun t ↦ x.1.start < t.finish).length
        ≤ parallelism.toNat) →
      xs.foldl (fun most x ↦
        max most (1 + ((l.take x.2).filter fun t ↦ x.1.start < t.finish).length)) most
          ≤ parallelism.toNat := by
    intro xs
    induction xs with
    | nil => exact fun most hmost _ ↦ hmost
    | cons x xs ih =>
      intro most hmost hxs
      obtain ⟨hx, hxs⟩ := List.forall_mem_cons.mp hxs
      exact ih _ (Nat.max_le.mpr ⟨hmost, hx⟩) hxs
  refine hfold _ 0 (Nat.zero_le _) fun x hmem ↦ ?_
  obtain ⟨s, i⟩ := x
  have hs : l[i]? = some s := List.mem_zipIdx_iff_getElem?.mp hmem
  obtain ⟨hi, rfl⟩ := List.getElem?_eq_some_iff.mp hs
  obtain ⟨d, hd⟩ : ∃ d, ds[i]? = some d := ⟨_, List.getElem?_eq_getElem (h.length_eq ▸ hi)⟩
  have hroom := (hasRoom_iff_lt hpos).mp (h.getElem hs hd).2.1
  -- the tasks before it have started
  have hload : ((l.take i).filter fun t ↦ l[i].start < t.finish).length
      ≤ load l[i].start (l.take i) := by
    rw [← List.countP_eq_length_filter]
    refine List.countP_mono_left fun s hs hlt ↦ decide_eq_true ⟨?_, of_decide_eq_true hlt⟩
    obtain ⟨j, hj, rfl⟩ := List.getElem_of_mem hs
    rw [List.getElem_take]
    rw [List.length_take] at hj
    exact List.pairwise_iff_getElem.mp h.pairwise_start_le j i _ hi (by omega)
  dsimp only
  omega

end NodeInventory.Schedule
