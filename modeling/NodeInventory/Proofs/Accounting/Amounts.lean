import Mathlib.Algebra.BigOperators.Group.List.Basic
import Mathlib.Data.List.Forall2
import NodeInventory.Proofs.Quantity.Exactness
import NodeInventory.Proofs.Snapshot

/-!
# Amounts, their sums and how they are shown

An amount is shown in a fixed unit if it is one of `cpu` or `memory`, and in its canonical form
otherwise (`ShownAs`). In a fixed unit it is rounded away from zero and its family does not show, so
of two amounts of such a resource only that they are equal matters (`Alike`).

Sums are exact, whatever is rounded when they are shown, and take the family of the first amount
(`SumOf`). An addition is refused where it leaves the bounds, which may depend on the order of what
is added; what comes out, if anything does, depends on it for its family only
(`SumOf.nanos_eq_of_perm`).
-/

namespace NodeInventory.Quantity

variable {resource text : String} {texts texts' : List String} {p q start sum : Quantity}
  {amounts amounts' : List Quantity}

/-! ## Amounts as they are shown -/

/-- A text shows an amount of a resource in the unit in which the resource is accounted for. -/
structure ShownAs (q : Quantity) (resource text : String) : Prop where
  cpu : resource = "cpu" → text = toString (awayFromZero (q.nanos / 10 ^ 6)) ++ "m"
  memory : resource = "memory" →
    text = toString ((awayFromZero (q.nanos / 10 ^ 9)).tdiv (2 ^ 20)) ++ "Mi"
  other : resource ≠ "cpu" → resource ≠ "memory" → q.render = .exact text

theorem eq_of_milliValue {m : ℤ} (h : q.milliValue = .exact m) :
    m = awayFromZero (q.nanos / 10 ^ 6) := by
  rw [milliValue_eq] at h
  split at h
  · exact (Calculation.exact.inj h).symm
  · cases h

theorem eq_of_value {m : ℤ} (h : q.value = .exact m) : m = awayFromZero (q.nanos / 10 ^ 9) := by
  rw [value_eq] at h
  split at h
  · exact (Calculation.exact.inj h).symm
  · cases h

theorem shownAs_of_renderAs (h : q.renderAs resource = .exact text) : q.ShownAs resource text := by
  constructor
  · rintro rfl
    rw [renderAs, if_pos rfl] at h
    obtain ⟨m, hm, ⟨⟩⟩ := Calculation.bind_eq_exact_iff.mp h
    rw [eq_of_milliValue hm]
  · rintro rfl
    rw [renderAs, if_neg (by decide), if_pos rfl] at h
    obtain ⟨m, hm, ⟨⟩⟩ := Calculation.bind_eq_exact_iff.mp h
    rw [eq_of_value hm]
    rfl
  · intro hcpu hmemory
    rwa [renderAs, if_neg hcpu, if_neg hmemory] at h

/-! ## Amounts that are accounted for alike -/

/-- Two amounts of a resource of which one is as good as the other: they are equal, and so are their
families unless the resource is accounted for in a fixed unit. -/
structure Alike (resource : String) (p q : Quantity) : Prop where
  nanos : q.nanos = p.nanos
  family : resource ≠ "cpu" → resource ≠ "memory" → q.family = p.family

theorem Alike.refl (resource : String) (q : Quantity) : Alike resource q q :=
  ⟨rfl, fun _ _ ↦ rfl⟩

theorem Alike.renderAs_eq (h : Alike resource p q) : q.renderAs resource = p.renderAs resource := by
  have hmilli : q.milliValue = p.milliValue := congrArg (divAway · nanosPerMilli) h.nanos
  have hvalue : q.value = p.value := congrArg (divAway · nanosPerUnit) h.nanos
  rw [renderAs, renderAs, hmilli, hvalue]
  split
  · rfl
  · next hcpu =>
    split
    · rfl
    · next hmemory =>
      have heq : q = p := by
        cases p
        cases q
        exact (Quantity.mk.injEq ..).mpr ⟨h.nanos, h.family hcpu hmemory⟩
      rw [heq]

theorem Alike.add? {p' q' sum : Quantity} (h : Alike resource p q) (h' : Alike resource p' q')
    (hsum : p.add? p' = some sum) : ∃ sum', q.add? q' = some sum' ∧ Alike resource sum sum' := by
  simp only [Quantity.add?, h.nanos, h'.nanos] at hsum ⊢
  split at hsum
  · next hbounds =>
    cases hsum
    refine ⟨_, if_pos hbounds, rfl, fun hcpu hmemory ↦ ?_⟩
    rw [h.family hcpu hmemory, h'.family hcpu hmemory]
  · cases hsum

theorem Alike.foldlM {start' : Quantity} (h : List.Forall₂ (Alike resource) amounts amounts')
    (hstart : Alike resource start start') (hsum : amounts.foldlM Quantity.add? start = some sum) :
    ∃ sum', amounts'.foldlM Quantity.add? start' = some sum' ∧ Alike resource sum sum' := by
  induction h generalizing start start' with
  | nil =>
    cases hsum
    exact ⟨start', rfl, hstart⟩
  | cons hq _ ih =>
    rw [List.foldlM_cons] at hsum
    obtain ⟨next, hnext, hrest⟩ := Option.bind_eq_some_iff.mp hsum
    obtain ⟨next', hnext', halike⟩ := hstart.add? hq hnext
    obtain ⟨sum', hsum', hlast⟩ := ih halike hrest
    refine ⟨sum', ?_, hlast⟩
    rw [List.foldlM_cons, hnext']
    exact hsum'

/-! ## Texts that say the same -/

/-- A text says of a resource what another says: it is the same text, or one that is read as the
same amount, of a resource that is accounted for in a fixed unit. -/
def Respells (resource text text' : String) : Prop :=
  text' = text ∨ (resource = "cpu" ∨ resource = "memory") ∧
    ∃ q q', parse text = .exact (.ok q) ∧ parse text' = .exact (.ok q') ∧ q'.nanos = q.nanos

theorem Respells.exists_alike {text' : String} (h : Respells resource text text')
    (hq : parse text = .exact (.ok q)) : ∃ q', parse text' = .exact (.ok q') ∧ Alike resource q q' := by
  obtain rfl | ⟨hfixed, p, q', hp, hq', hnanos⟩ := h
  · exact ⟨q, hq, .refl resource q⟩
  · rw [hq] at hp
    cases hp
    exact ⟨q', hq', hnanos, fun hcpu hmemory ↦ absurd hfixed (not_or.mpr ⟨hcpu, hmemory⟩)⟩

/-- Texts that say the same are read as amounts that are alike. -/
theorem Respells.exists_forall₂_alike (h : List.Forall₂ (Respells resource) texts texts')
    (hread : List.Forall₂ (fun text q ↦ parse text = .exact (.ok q)) texts amounts) :
    ∃ amounts', List.Forall₂ (fun text q ↦ parse text = .exact (.ok q)) texts' amounts' ∧
      List.Forall₂ (Alike resource) amounts amounts' := by
  induction h generalizing amounts with
  | nil =>
    cases hread
    exact ⟨[], .nil, .nil⟩
  | cons htext _ ih =>
    cases hread with
    | cons hq hread =>
      obtain ⟨q', hq', halike⟩ := htext.exists_alike hq
      obtain ⟨amounts', hread', hall⟩ := ih hread
      exact ⟨q' :: amounts', .cons hq' hread', .cons halike hall⟩

/-! ## Sums -/

/-- The family of the first of some texts. -/
def leadingFamily : List String → Option Family
  | [] => none
  | text :: _ =>
    match parse text with
    | .exact (.ok q) => q.family
    | _ => none

/-- What some texts come to: the exact sum of their amounts, in the family of the first of them. -/
structure SumOf (texts : List String) (sum : Quantity) : Prop where
  nanos : ∃ amounts, List.Forall₂ (fun text q ↦ parse text = .exact (.ok q)) texts amounts ∧
    sum.nanos = (amounts.map Quantity.nanos).sum
  family : sum.family = leadingFamily texts

theorem exists_family_of_parse (h : parse text = .exact (.ok q)) : ∃ f, q.family = some f := by
  obtain ⟨w, -, -, rfl⟩ := exists_numeral_of_parse h
  exact ⟨w.suffix.family, rfl⟩

theorem nanos_of_foldlM_add? (h : amounts.foldlM Quantity.add? start = some sum) :
    sum.nanos = start.nanos + (amounts.map Quantity.nanos).sum := by
  induction amounts generalizing start with
  | nil =>
    cases h
    simp
  | cons q amounts ih =>
    rw [List.foldlM_cons] at h
    obtain ⟨next, hnext, hrest⟩ := Option.bind_eq_some_iff.mp h
    rw [ih hrest, nanos_of_add? hnext, List.map_cons, List.sum_cons, add_assoc]

theorem family_of_add? (h : p.add? q = some sum) : sum.family = (p.family <|> q.family) := by
  simp only [Quantity.add?] at h
  split at h
  · cases h
    rfl
  · cases h

theorem family_of_foldlM_add? {f : Family} (hstart : start.family = some f)
    (h : amounts.foldlM Quantity.add? start = some sum) : sum.family = some f := by
  induction amounts generalizing start with
  | nil =>
    cases h
    exact hstart
  | cons q amounts ih =>
    rw [List.foldlM_cons] at h
    obtain ⟨next, hnext, hrest⟩ := Option.bind_eq_some_iff.mp h
    refine ih ?_ hrest
    rw [family_of_add? hnext, hstart]
    rfl

theorem sumOf_of_foldlM (hread : List.Forall₂ (fun text q ↦ parse text = .exact (.ok q)) texts amounts)
    (hsum : amounts.foldlM Quantity.add? zero = some sum) : SumOf texts sum := by
  constructor
  · exact ⟨amounts, hread, by rw [nanos_of_foldlM_add? hsum]; exact zero_add _⟩
  · cases hread with
    | nil =>
      cases hsum
      rfl
    | @cons text q texts amounts hq hread =>
      obtain ⟨f, hf⟩ := exists_family_of_parse hq
      rw [List.foldlM_cons] at hsum
      obtain ⟨next, hnext, hrest⟩ := Option.bind_eq_some_iff.mp hsum
      have hfirst : next.family = some f := (family_of_add? hnext).trans hf
      rw [family_of_foldlM_add? hfirst hrest, leadingFamily, hq]
      exact hf.symm

theorem rightUnique_parse : Relator.RightUnique fun text q ↦ parse text = .exact (.ok q) := by
  intro text p q hp hq
  cases hp.symm.trans hq
  rfl

/-- In whatever order texts are summed up, they come to the same amount. -/
theorem SumOf.nanos_eq_of_perm {sum' : Quantity} (h : SumOf texts sum) (h' : SumOf texts' sum')
    (hperm : texts.Perm texts') : sum'.nanos = sum.nanos := by
  obtain ⟨amounts, hread, hsum⟩ := h.nanos
  obtain ⟨amounts', hread', hsum'⟩ := h'.nanos
  obtain ⟨between, hbetween, hamounts⟩ := List.perm_comp_forall₂ hperm hread'
  obtain rfl := List.right_unique_forall₂' rightUnique_parse hread hbetween
  rw [hsum, hsum', (hamounts.map Quantity.nanos).sum_eq]

end NodeInventory.Quantity
