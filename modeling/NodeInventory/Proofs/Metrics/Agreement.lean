import Mathlib.Data.Set.Card
import NodeInventory.Proofs.Metrics.Errands

/-!
# Metrics agree with the store

Only the operator writes to a shelf: any number of parties, each with an errand of its own, whose
requests interleave in any way. A request is answered as the shelf would, or is refused for whatever
reason, and then changes nothing; a refusal may be a conflict though nobody else has written.

What the shelf holds follows from what is due to be counted (`Tally`), at any time. What is due has
been counted once no party is in the midst of its errand, since errands settle. So then the counters
agree with the shelf (`metrics_agree_with_store`), whoever was faster when two parties created or
removed the record of one name.
-/

namespace NodeInventory

/-- The names under which records are stored. -/
def Shelf.names (s : Shelf) : Set String := {name | (s.record? name).isSome}

namespace Shelf

variable {s : Shelf} {r x : Record} {name v : String}

theorem mem_names_of_eq_some (hx : s.record? name = some x) : name ∈ s.names :=
  Option.isSome_iff_exists.mpr ⟨x, hx⟩

theorem notMem_names_of_eq_none (hnone : s.record? name = none) : name ∉ s.names := by
  simp [names, hnone]

theorem names_write (s : Shelf) (r : Record) (v : String) :
    (s.write r v).names = insert r.name s.names := by
  ext name
  by_cases hname : name = r.name <;> simp [names, hname]

theorem names_remove (s : Shelf) (name : String) : (s.remove name).names = s.names \ {name} := by
  ext other
  by_cases hother : other = name <;> simp [names, hother]

end Shelf

/-- How often a counter is due. -/
def Exchange.dues (c : Counter) (log : List Exchange) : ℕ := log.countP (·.due? = some c)

theorem Exchange.dues_snoc (c : Counter) (log : List Exchange) (e : Exchange) :
    dues c (log ++ [e]) = dues c log + if e.due? = some c then 1 else 0 := by
  simp [dues, List.countP_append, List.countP_cons]

theorem Exchange.due?_eq_updateConflicts_iff {e : Exchange} :
    e.due? = some .updateConflicts ↔ e.isConflict = true := by
  obtain ⟨r, a⟩ := e
  cases r with
  | updateRecord r version =>
    obtain f | _ := (a : Result Unit)
    · by_cases hf : f.isConflict <;> simp [due?, isConflict, hf]
    · simp [due?, isConflict]
  | createRecord r => obtain f | _ := (a : Result Unit) <;> simp [due?, isConflict]
  | deleteRecord name => obtain f | _ := (a : Result Unit) <;> simp [due?, isConflict]
  | _ => simp [due?, isConflict]

namespace Metrics

open Writers

variable {start s t : Shelf} {r : Request} {a : r.Answer} {hall : Hall} {moments : List Moment}
  {log : List Exchange} {e : Exchange} {errands : ℕ → Errand} {c : Counter}

/-! ## The system -/

/-- A request is answered, or is refused for some reason and changes nothing. -/
inductive Gives (s : Shelf) : (r : Request) → r.Answer → Shelf → Prop
  | answered {r : Request} {a : r.Answer} {t : Shelf} (h : s.Answers r a t) : Gives s r a t
  | refused {r : Request} {a : r.Answer} {f : Failure} (h : Simulation.World.refuse f r = some a) :
    Gives s r a s

/-- One moment in a hall where nobody writes but the parties. -/
inductive Step : Hall → Moment → Hall → Prop
  | asked {hall : Hall} {i : ℕ} {r : Request} {a : r.Answer} {q : Program (Result Unit)} {t : Shelf}
      (hasks : (hall.parties i).Step r a q) (hgives : Gives hall.shelf r a t) :
    Step hall ⟨hall.shelf, .asked i ⟨r, a⟩, t⟩ ⟨t, Function.update hall.parties i q⟩

/-- The parties have come, each with an errand. -/
def opened (shelf : Shelf) (errands : ℕ → Errand) : Hall := ⟨shelf, fun i ↦ (errands i).program⟩

/-- Each party has asked nothing yet, or has come to the end of its errand. -/
def AtRest (moments : List Moment) (hall : Hall) : Prop :=
  ∀ i, testimony i moments = [] ∨ ∃ v, (hall.parties i).Ended v

/-! ## What is counted -/

theorem total_entry (c : Counter) (log : List Exchange) :
    Exchange.total (entry c) log = (Exchange.counted c log : ℤ) - Exchange.dues c log := by
  induction log with
  | nil => rfl
  | cons e log ih =>
    rw [Exchange.total, ih, entry, Exchange.counted, Exchange.counted, Exchange.dues,
      Exchange.dues, List.countP_cons, List.countP_cons]
    simp only [decide_eq_true_eq]
    split <;> split <;> push_cast <;> omega

theorem settles_of_run (hc : c ∈ Counter.ofStore) (hrun : Run Step (opened s errands) moments hall)
    (i : ℕ) :
    (hall.parties i).Settles (entry c) (Exchange.total (entry c) (testimony i moments)) := by
  induction hrun with
  | nil => exact (errands i).settles hc
  | @snoc moments m hall hall' _ hstep ih =>
    rw [testimony_snoc, Exchange.total_append]
    cases hstep with
    | @asked j r a q t hasks hgives =>
      by_cases hij : j = i
      · subst j
        simpa [Moment.exchange?, Exchange.total] using ih.step hasks
      · simpa [Moment.exchange?, Exchange.total, hij, Function.update_of_ne (Ne.symm hij)] using ih

theorem counted_eq_dues (hc : c ∈ Counter.ofStore)
    (hrun : Run Step (opened s errands) moments hall) (hrest : AtRest moments hall) :
    Exchange.counted c (exchanges moments) = Exchange.dues c (exchanges moments) := by
  have hzero : Exchange.total (entry c) (exchanges moments) = 0 := by
    refine total_exchanges_eq_zero fun i ↦ ?_
    obtain hnothing | ⟨v, hended⟩ := hrest i
    · rw [hnothing]
      rfl
    · exact (settles_of_run hc hrun i).of_ended hended
  rw [total_entry] at hzero
  omega

/-! ## What is stored -/

/-- What has become of a shelf, in terms of what is due. -/
structure Tally (start : Shelf) (log : List Exchange) (s : Shelf) : Prop where
  finite_names : s.names.Finite
  names : (s.names.ncard : ℤ) =
    start.names.ncard + Exchange.dues .recordsCreated log - Exchange.dues .recordsDeleted log
  issued : start.issued ⊆ s.issued
  finite_versions : (s.issued \ start.issued).Finite
  versions : (s.issued \ start.issued).ncard =
    Exchange.dues .recordsCreated log + Exchange.dues .recordsUpdated log

theorem Tally.nil (hfinite : s.names.Finite) : Tally s [] s where
  finite_names := hfinite
  names := by simp [Exchange.dues]
  issued := Set.Subset.rfl
  finite_versions := by simp
  versions := by simp [Exchange.dues]

theorem Tally.same (h : Tally start log s) (hdue : e.due? = none ∨ e.isConflict) :
    Tally start (log ++ [e]) s := by
  have hdues {c : Counter} (hc : c ≠ .updateConflicts) :
      Exchange.dues c (log ++ [e]) = Exchange.dues c log := by
    rw [Exchange.dues_snoc, if_neg, add_zero]
    obtain hnone | hconflict := hdue
    · rw [hnone]
      exact nofun
    · rw [Exchange.due?_eq_updateConflicts_iff.mpr hconflict]
      exact fun hsome ↦ hc (Option.some.inj hsome).symm
  refine ⟨h.finite_names, ?_, h.issued, h.finite_versions, ?_⟩
  · rw [hdues (by decide), hdues (by decide), h.names]
  · rw [hdues (by decide), hdues (by decide), h.versions]

theorem Tally.issue (h : Tally start log s) {v : String} (hnew : v ∉ s.issued) :
    start.issued ⊆ insert v s.issued ∧ (insert v s.issued \ start.issued).Finite ∧
      (insert v s.issued \ start.issued).ncard = (s.issued \ start.issued).ncard + 1 := by
  have hinsert : insert v s.issued \ start.issued = insert v (s.issued \ start.issued) :=
    Set.insert_sdiff_of_notMem _ fun hv ↦ hnew (h.issued hv)
  rw [hinsert]
  exact ⟨h.issued.trans (Set.subset_insert _ _), h.finite_versions.insert v,
    Set.ncard_insert_of_notMem (fun hv ↦ hnew hv.1) h.finite_versions⟩

theorem due?_of_refuse {f : Failure} (h : Simulation.World.refuse f r = some a) :
    Exchange.due? ⟨r, a⟩ = none ∨ Exchange.isConflict ⟨r, a⟩ := by
  cases r with
  | updateRecord r version =>
    cases h
    by_cases hf : f.isConflict
    · exact .inr hf
    · exact .inl (if_neg hf)
  | createRecord | deleteRecord =>
    cases h
    exact .inl rfl
  | _ => exact .inl rfl

theorem Tally.answers (h : Tally start log s) (hanswers : s.Answers r a t) :
    Tally start (log ++ [⟨r, a⟩]) t := by
  cases hanswers with
  | fetched => exact h.same (.inl rfl)
  | failed _ ha => exact h.same (due?_of_refuse ha)
  | @other r hr a =>
    refine h.same (.inl ?_)
    cases r with
    | createRecord | updateRecord | deleteRecord => cases hr
    | _ => rfl
  | @created r v habsent hnew =>
    obtain ⟨hissued, hfinite, hversions⟩ := h.issue hnew
    refine ⟨?_, ?_, hissued, hfinite, ?_⟩
    · rw [Shelf.names_write]
      exact h.finite_names.insert _
    · rw [Shelf.names_write, Set.ncard_insert_of_notMem (Shelf.notMem_names_of_eq_none habsent)
        h.finite_names, Exchange.dues_snoc, Exchange.dues_snoc]
      have hnames := h.names
      simp only [Exchange.due?, reduceCtorEq, ↓reduceIte, Option.some.injEq]
      push_cast
      omega
    · rw [Shelf.issued_write, hversions, h.versions, Exchange.dues_snoc, Exchange.dues_snoc]
      simp only [Exchange.due?, reduceCtorEq, ↓reduceIte, Option.some.injEq]
      omega
  | @updated r x version v hstored hversion hnew =>
    obtain ⟨hissued, hfinite, hversions⟩ := h.issue hnew
    have hsame : (s.write r v).names = s.names := by
      rw [Shelf.names_write, Set.insert_eq_of_mem (Shelf.mem_names_of_eq_some hstored)]
    refine ⟨hsame ▸ h.finite_names, ?_, hissued, hfinite, ?_⟩
    · rw [hsame, Exchange.dues_snoc, Exchange.dues_snoc]
      simpa [Exchange.due?] using h.names
    · rw [Shelf.issued_write, hversions, h.versions, Exchange.dues_snoc, Exchange.dues_snoc]
      simp only [Exchange.due?, reduceCtorEq, ↓reduceIte, Option.some.injEq]
      omega
  | @deleted name x hstored =>
    have hmem := Shelf.mem_names_of_eq_some hstored
    refine ⟨?_, ?_, h.issued, h.finite_versions, ?_⟩
    · rw [Shelf.names_remove]
      exact h.finite_names.sdiff
    · have hnames := h.names
      have hcard := Set.ncard_sdiff_singleton_add_one hmem h.finite_names
      rw [Shelf.names_remove, Exchange.dues_snoc, Exchange.dues_snoc]
      simp only [Exchange.due?, reduceCtorEq, ↓reduceIte, Option.some.injEq]
      push_cast
      omega
    · rw [Shelf.issued_remove, h.versions, Exchange.dues_snoc, Exchange.dues_snoc]
      simp [Exchange.due?]

theorem tally_of_run (hfinite : s.names.Finite) (hrun : Run Step (opened s errands) moments hall) :
    Tally s (exchanges moments) hall.shelf := by
  induction hrun with
  | nil => exact .nil hfinite
  | snoc _ hstep ih =>
    rw [exchanges, filterMap_snoc, ← exchanges]
    cases hstep with
    | asked _ hgives =>
      cases hgives with
      | answered h => exact ih.answers h
      | refused h => exact ih.same (due?_of_refuse h)

/-! ## Both -/

/-- Whatever errands are run at once and whatever fails: while all parties are at rest, the records
created less those removed are as many as there are more now than at the start, the records created
and updated are as many as the versions that were handed out, and the conflicts are as many as the
updates that were refused with one. -/
theorem metrics_agree_with_store (hfinite : s.names.Finite)
    (hrun : Run Step (opened s errands) moments hall) (hrest : AtRest moments hall) :
    hall.shelf.names.Finite ∧
      (Exchange.counted .recordsCreated (exchanges moments) : ℤ) -
        Exchange.counted .recordsDeleted (exchanges moments) =
          hall.shelf.names.ncard - s.names.ncard ∧
      Exchange.counted .recordsCreated (exchanges moments) +
        Exchange.counted .recordsUpdated (exchanges moments) =
          (hall.shelf.issued \ s.issued).ncard ∧
      (hall.shelf.issued \ s.issued).Finite ∧
      Exchange.counted .updateConflicts (exchanges moments) =
        (exchanges moments).countP (·.isConflict) := by
  have htally := tally_of_run hfinite hrun
  have hcounted {c : Counter} (hc : c ∈ Counter.ofStore) := counted_eq_dues hc hrun hrest
  refine ⟨htally.finite_names, ?_, ?_, htally.finite_versions, ?_⟩
  · rw [hcounted (by decide), hcounted (by decide), htally.names]
    omega
  · rw [hcounted (by decide), hcounted (by decide), htally.versions]
  · rw [hcounted (by decide)]
    refine List.countP_congr fun e _ ↦ ?_
    rw [decide_eq_true_iff, Exchange.due?_eq_updateConflicts_iff]

/-- Two parties create the record of one node at once, and the slower one finds it there. -/
theorem metrics_agree_after_race :
    let spec : Spec := { nodeName := "a", status := "Ready" }
    ∃ moments hall,
      Shelf.empty.names.Finite ∧
      Run Step (opened .empty fun _ ↦ .create "c" spec) moments hall ∧ AtRest moments hall ∧
      Exchange.counted .recordsCreated (exchanges moments) = 1 ∧
      (Exchange.counted .recordsCreated (exchanges moments) : ℤ) -
        Exchange.counted .recordsDeleted (exchanges moments) =
          hall.shelf.names.ncard - Shelf.empty.names.ncard := by
  intro spec
  let shelf := Shelf.empty.write (.ofSpec spec) "1"
  have hfinite : Shelf.empty.names.Finite := by simp [Shelf.names, Shelf.empty]
  have hread : Gives .empty (.fetchRecord "a") (.ok none) .empty := .answered (.fetched "a")
  have hcreated : Gives .empty (.createRecord (.ofSpec spec)) (.ok ()) shelf :=
    .answered (.created rfl (by simp [Shelf.empty]))
  have hthere : Gives shelf (.createRecord (.ofSpec spec)) (.error (.alreadyExists "a")) shelf :=
    .refused rfl
  have hcounted : Gives shelf (.count .recordsCreated) () shelf := .answered (.other rfl _)
  have htold : Gives shelf (.callFleet (.add (.ofSpec "c" spec))) (.ok { code := 200 }) shelf :=
    .answered (.other rfl _)
  have hrun := (@Run.nil _ _ Step (opened .empty fun _ ↦ .create "c" spec)).snoc
    (.asked (i := 0) (.ask _ _) hread)
  have hrun := hrun.snoc (.asked (i := 1) (.ask _ _) hread)
  have hrun := hrun.snoc (.asked (i := 0) (.ask _ _) hcreated)
  have hrun := hrun.snoc (.asked (i := 1) (.ask _ _) hthere)
  have hrun := hrun.snoc (.asked (i := 0) (.ask _ _) hcounted)
  have hrun := hrun.snoc (.asked (i := 0) (.ask _ _) htold)
  have hrun := hrun.snoc (.asked (i := 1) (.ask _ _) htold)
  refine ⟨_, _, hfinite, hrun, ?rest, rfl, (metrics_agree_with_store hfinite hrun ?rest).2.1⟩
  intro i
  obtain _ | _ | i := i
  · exact .inr ⟨_, .done _⟩
  · exact .inr ⟨_, .done _⟩
  · exact .inl rfl

end Metrics

end NodeInventory
