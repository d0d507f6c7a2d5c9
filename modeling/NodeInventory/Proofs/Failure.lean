import NodeInventory.Failure

/-!
# What a batch tells of its failures

A batch tells the failures of its items in the order of the items, and nothing else: without a
failure it is a success, and else all failures are joined (`Failure.join_eq_summary`).

A failure *tells* of another one if that is its cause, or the cause of its cause, or among those
that were joined (`Failure.Tells`).
-/

namespace NodeInventory.Failure

/-- The result that tells some failures. -/
def summary : List Failure → Result Unit
  | [] => .ok ()
  | fs => .error (.joined fs)

/-- The failure that a result tells. -/
def told? : Result Unit → Option Failure
  | .ok () => none
  | .error f => some f

/-- Some failures as one, if there are any. -/
def nested : List Failure → List Failure
  | [] => []
  | fs => [.joined fs]

variable {results more : List (Result Unit)}

theorem collect_eq_filterMap (results : List (Result Unit)) :
    collect results = results.filterMap told? := by
  induction results with
  | nil => rfl
  | cons r results ih =>
    obtain f | ⟨⟩ := r
    · rw [collect, ih, List.filterMap_cons, told?]
    · rw [collect, ih, List.filterMap_cons, told?]

theorem join_eq_summary (results : List (Result Unit)) :
    join results = summary (results.filterMap told?) := by
  rw [join, collect_eq_filterMap]
  cases results.filterMap told? with
  | nil => rfl
  | cons f fs => rfl

theorem join_append_singleton (results : List (Result Unit)) (r : Result Unit) :
    join (results ++ [r]) = summary (results.filterMap told? ++ (told? r).toList) := by
  rw [join_eq_summary, List.filterMap_append]
  cases r <;> rfl

theorem toList_told?_summary (fs : List Failure) : (told? (summary fs)).toList = nested fs := by
  cases fs with
  | nil => rfl
  | cons f fs => rfl

theorem nested_eq_nil_iff {fs : List Failure} : nested fs = [] ↔ fs = [] := by
  cases fs with
  | nil => exact Iff.rfl
  | cons f fs => exact iff_of_false (List.cons_ne_nil _ _) (List.cons_ne_nil f fs)

theorem join_of_forall_eq_ok (h : ∀ r ∈ results, r = .ok ()) : join results = .ok () := by
  have hnone : results.filterMap told? = [] := by
    refine List.filterMap_eq_nil_iff.mpr fun r hr ↦ ?_
    rw [h r hr, told?]
  rw [join_eq_summary, hnone, summary]

theorem summary_eq_ok_iff {fs : List Failure} : summary fs = .ok () ↔ fs = [] := by
  cases fs with
  | nil => exact iff_of_true rfl rfl
  | cons f fs => exact iff_of_false (by rintro ⟨⟩) (List.cons_ne_nil f fs)

/-! ## What a failure tells of -/

/-- The second failure is the first one or somewhere below it. -/
inductive Tells : Failure → Failure → Prop
  | self (f : Failure) : Tells f f
  | context {t : String} {f g : Failure} (h : Tells f g) : Tells (.context t f) g
  | query {f g : Failure} (h : Tells f g) : Tells (.query f) g
  | rpc {f g : Failure} (h : Tells f g) : Tells (.rpc f) g
  | joined {fs : List Failure} {f g : Failure} (hf : f ∈ fs) (h : Tells f g) : Tells (.joined fs) g

theorem Tells.trans {f g k : Failure} (hfg : f.Tells g) (hgk : g.Tells k) : f.Tells k := by
  induction hfg with
  | self f => exact hgk
  | context _ ih => exact .context (ih hgk)
  | query _ ih => exact .query (ih hgk)
  | rpc _ ih => exact .rpc (ih hgk)
  | joined hf _ ih => exact .joined hf (ih hgk)

theorem plain_tells_iff {t : String} {f : Failure} : (plain t).Tells f ↔ f = plain t := by
  constructor
  · rintro ⟨⟩
    rfl
  · rintro rfl
    exact .self _

theorem exists_summary_tells {fs : List Failure} {f : Failure} (hf : f ∈ fs) :
    ∃ e, summary fs = .error e ∧ e.Tells f := by
  cases fs with
  | nil => cases hf
  | cons g fs => exact ⟨.joined (g :: fs), rfl, .joined hf (.self f)⟩

end NodeInventory.Failure
