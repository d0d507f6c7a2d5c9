import Mathlib.Data.List.Induction
import Mathlib.Data.List.Nodup
import NodeInventory.Proofs.Text
import NodeInventory.Settings

/-!
# Pairs of names and texts

Settings are read from pairs in order, and the first pair that cannot be taken settles the outcome.
What is known of a variable in the end are the texts given for it (`given`), whatever else stands
between them.

A pair *offends* if its variable was given before, or else if its text does not spell a number that
the variable can hold (`Offends`). Pairs are taken as far as none of them offends
(`readPairs_of_taken`), and the failure is that of the first one that does
(`readPairs_eq_error_iff`). Pairs of which none offends are those in which every variable is given
at most once, and with a text that suits it (`taken_iff`); the order has no part in this.
-/

namespace NodeInventory

namespace Text

/-- The text spells a natural number up to a limit. A plus sign may stand before the digits. -/
def SpellsNat (limit : ℕ) (s : String) (n : ℕ) : Prop :=
  ∃ i : SignedDigits, s.toList = i.chars ∧ i.sign ≠ .minus ∧ i.value = n ∧ n ≤ limit

/-- The text spells an integer in a word of which the limit is the greatest. -/
def SpellsInt (limit : ℕ) (s : String) (n : ℤ) : Prop :=
  ∃ i : SignedDigits, s.toList = i.chars ∧ i.value = n ∧ -(limit + 1 : ℤ) ≤ n ∧ n ≤ limit

/-- A natural number is read from digits that spell it, if it lies within the limit, and from
nothing else. -/
theorem readNat_eq_ok_iff {limit : ℕ} {s : String} {n : ℕ} :
    readNat limit s = .ok n ↔ SpellsNat limit s n := by
  constructor
  · intro h
    unfold readNat at h
    split at h
    · cases h
    · cases h
    · next digits hne hs =>
      obtain ⟨hdigits, rfl, hle⟩ := (readDigits_eq_ok_iff (Nat.zero_le _)).mp h
      exact ⟨⟨.plus, digits, hdigits, hne⟩, hs, nofun, rfl, hle⟩
    · next hne _ _ =>
      obtain ⟨hdigits, rfl, hle⟩ := (readDigits_eq_ok_iff (Nat.zero_le _)).mp h
      exact ⟨⟨.absent, s.toList, hdigits, hne⟩, rfl, nofun, rfl, hle⟩
  · rintro ⟨⟨sign, digits, hdigits, hne⟩, hs, hsign, hvalue, hle⟩
    have hread : readDigits limit .tooLarge 0 digits = .ok n := by
      refine (readDigits_eq_ok_iff (Nat.zero_le _)).mpr ⟨hdigits, ?_, hle⟩
      cases sign with
      | absent | plus => exact Int.ofNat.inj hvalue
      | minus => exact absurd rfl hsign
    obtain ⟨d, ds, rfl⟩ := List.exists_cons_of_ne_nil hne
    unfold readNat
    rw [hs]
    cases sign with
    | absent =>
      -- a digit is no sign
      have hplus : d ≠ '+' := by rintro rfl; exact absurd (hdigits _ List.mem_cons_self) (by decide)
      simp only [SignedDigits.chars, Sign.chars, List.nil_append]
      split <;> simp_all
    | plus => exact hread
    | minus => exact absurd rfl hsign

end Text

namespace Settings

open Text

/-! ## Variables -/

theorem Variable.mem_all (v : Variable) : v ∈ all := by
  obtain v | v | _ | _ := v
  · cases v <;> decide
  · cases v <;> decide
  · decide
  · decide

theorem Variable.nodup_name : (all.map name).Nodup := by decide +kernel

theorem Variable.name_injective : Function.Injective name := fun v w h ↦
  List.inj_on_of_nodup_map nodup_name v.mem_all w.mem_all h

theorem Variable.ofName?_eq_some_iff {s : String} {v : Variable} :
    ofName? s = some v ↔ lowerName s = v.name := by
  unfold ofName?
  constructor
  · intro h
    have hname := List.find?_some h
    exact (eq_of_beq hname).symm
  · intro h
    obtain ⟨w, hw⟩ : ∃ w, all.find? (·.name == lowerName s) = some w :=
      Option.isSome_iff_exists.mp (List.find?_isSome.mpr ⟨v, v.mem_all, beq_iff_eq.mpr h.symm⟩)
    have hname := List.find?_some hw
    rw [hw, name_injective ((eq_of_beq hname).trans h)]

/-- The text is one from which a value of the variable can be read. -/
def Variable.Suits (s : String) : Variable → Prop
  | text _ | trackedResources => True
  | count v => ∃ n, SpellsNat v.limit s n
  | parallelism => ∃ n, SpellsInt parallelismLimit s n

theorem Variable.suits_iff {v : Variable} {s : String} : v.Suits s ↔ ∃ a, v.read s = .ok a := by
  have hmap {α : Type} {r : Except IntegerFault α} {f : α → Assignment} :
      (∃ n, r = .ok n) ↔ ∃ a, r.map f = .ok a := by
    cases r with
    | error e => exact iff_of_false (by rintro ⟨_, ⟨⟩⟩) (by rintro ⟨_, ⟨⟩⟩)
    | ok n => exact iff_of_true ⟨n, rfl⟩ ⟨f n, rfl⟩
  cases v with
  | text v => exact iff_of_true trivial ⟨_, rfl⟩
  | count v => exact (exists_congr fun n ↦ readNat_eq_ok_iff.symm).trans hmap
  | parallelism => exact (exists_congr fun n ↦ readInt_eq_ok_iff.symm).trans hmap
  | trackedResources => exact iff_of_true trivial ⟨_, rfl⟩

theorem Variable.variable_of_read {v : Variable} {s : String} {a : Assignment}
    (h : v.read s = .ok a) : a.variable = v := by
  have hmap {α : Type} {r : Except IntegerFault α} {f : α → Assignment} (h : r.map f = .ok a) :
      ∃ n, a = f n := by
    cases r with
    | error e => cases h
    | ok n => exact ⟨n, (Except.ok.inj h).symm⟩
  cases v with
  | text v => cases h; rfl
  | count v => obtain ⟨n, rfl⟩ := hmap h; rfl
  | parallelism => obtain ⟨n, rfl⟩ := hmap h; rfl
  | trackedResources => cases h; rfl

/-! ## What is given -/

variable {pairs before after : List (String × String)} {p : String × String} {v : Variable}
  {f : Failure}

/-- The texts that are given for a variable, in order. -/
def given (pairs : List (String × String)) (v : Variable) : List String :=
  (pairs.filter fun p ↦ lowerName p.1 == v.name).map Prod.snd

theorem given_append (pairs pairs' : List (String × String)) (v : Variable) :
    given (pairs ++ pairs') v = given pairs v ++ given pairs' v := by
  rw [given, List.filter_append, List.map_append]
  rfl

theorem given_singleton_self (h : lowerName p.1 = v.name) : given [p] v = [p.2] := by
  simp [given, h]

theorem given_singleton_ne (h : lowerName p.1 ≠ v.name) : given [p] v = [] := by
  simp [given, h]

/-- A pair that cannot be taken after those before it: its variable was given before, or else its
text does not suit. -/
inductive Offends (before : List (String × String)) (p : String × String) : Failure → Prop
  | repeated {v : Variable} (hname : lowerName p.1 = v.name) (hgiven : given before v ≠ []) :
    Offends before p (duplicateFault v)
  | unsuited {v : Variable} {fault : IntegerFault} (hname : lowerName p.1 = v.name)
    (hfirst : given before v = []) (hread : v.read p.2 = .error fault) :
    Offends before p (valueFault p.1 p.2 fault)

/-- No pair offends. -/
def Taken (pairs : List (String × String)) : Prop :=
  ∀ before p after, pairs = before ++ p :: after → ∀ f, ¬Offends before p f

theorem taken_nil : Taken [] := fun _ _ _ h ↦ by simp at h

theorem taken_snoc : Taken (pairs ++ [p]) ↔ Taken pairs ∧ ∀ f, ¬Offends pairs p f := by
  constructor
  · refine fun h ↦ ⟨fun before q after hq ↦ h before q (after ++ [p]) ?_, h pairs p [] rfl⟩
    rw [hq, List.append_assoc, List.cons_append]
  · rintro ⟨hpairs, hp⟩ before q after hq
    rcases List.eq_nil_or_concat after with rfl | ⟨after, last, rfl⟩
    · obtain ⟨rfl, hlast⟩ := List.append_inj' hq rfl
      cases hlast
      exact hp
    · rw [List.concat_eq_append, ← List.cons_append, ← List.append_assoc] at hq
      exact hpairs before q after (List.append_inj' hq rfl).1

/-- No pair offends if every variable is given at most once, and with a text that suits it. -/
theorem taken_iff :
    Taken pairs ↔ ∀ v, (given pairs v).length ≤ 1 ∧ ∀ s ∈ given pairs v, v.Suits s := by
  induction pairs using List.reverseRecOn with
  | nil =>
    exact iff_of_true taken_nil fun v ↦ ⟨Nat.zero_le _, fun s hs ↦ absurd hs List.not_mem_nil⟩
  | append_singleton pairs p ih =>
    rw [taken_snoc, ih]
    constructor
    · rintro ⟨h, hp⟩ v
      rw [given_append]
      by_cases hname : lowerName p.1 = v.name
      · have hfirst : given pairs v = [] := by
          by_contra hgiven
          exact hp _ (.repeated hname hgiven)
        rw [given_singleton_self hname, hfirst, List.nil_append]
        refine ⟨le_refl 1, List.forall_mem_singleton.mpr (Variable.suits_iff.mpr ?_)⟩
        cases hread : v.read p.2 with
        | error fault => exact absurd (.unsuited hname hfirst hread) (hp _)
        | ok a => exact ⟨a, rfl⟩
      · rw [given_singleton_ne hname, List.append_nil]
        exact h v
    · intro h
      refine ⟨fun v ↦ ?_, fun f hf ↦ ?_⟩
      · have hv := h v
        rw [given_append, List.length_append] at hv
        exact ⟨by omega, fun s hs ↦ hv.2 s (List.mem_append_left _ hs)⟩
      · cases hf with
        | @repeated v hname hgiven =>
          have hv := (h v).1
          rw [given_append, given_singleton_self hname, List.length_append] at hv
          exact hgiven (List.eq_nil_of_length_eq_zero (Nat.le_zero.mp (Nat.le_of_succ_le_succ hv)))
        | @unsuited v fault hname hfirst hread =>
          have hv := (h v).2 p.2
          rw [given_append, given_singleton_self hname] at hv
          obtain ⟨a, ha⟩ := Variable.suits_iff.mp (hv (by simp))
          rw [hread] at ha
          cases ha

/-! ## Reading -/

/-- What a pair says by itself. -/
def assignment? (p : String × String) : Option Assignment :=
  (Variable.ofName? p.1).bind fun v ↦ (v.read p.2).toOption

/-- What pairs say. -/
def assignments (pairs : List (String × String)) : List Assignment := pairs.filterMap assignment?

theorem assignments_snoc (pairs : List (String × String)) (p : String × String) :
    assignments (pairs ++ [p]) = assignments pairs ++ (assignment? p).toList := by
  cases h : assignment? p <;> simp [assignments, h]

theorem readPairs_append (taken : List Assignment) :
    readPairs (before ++ after) taken =
      (readPairs before taken).bind fun l ↦ readPairs after l.reverse := by
  induction before generalizing taken with
  | nil => simp [readPairs, Except.bind]
  | cons p before ih =>
    rw [List.cons_append, readPairs, readPairs]
    split
    · exact ih taken
    · split
      · rfl
      · split
        · rfl
        · exact ih _

theorem mem_given {s : String} :
    s ∈ given pairs v ↔ ∃ p ∈ pairs, lowerName p.1 = v.name ∧ p.2 = s := by
  simp [given, and_assoc]

theorem assignment?_eq_some_iff {a : Assignment} :
    assignment? p = some a ↔ ∃ v : Variable, lowerName p.1 = v.name ∧ v.read p.2 = .ok a := by
  have hok {r : Except IntegerFault Assignment} : r.toOption = some a ↔ r = .ok a := by
    cases r <;> simp [Except.toOption]
  simp only [assignment?, Option.bind_eq_some_iff, Variable.ofName?_eq_some_iff, hok]

theorem any_assignments (h : Taken pairs) (v : Variable) :
    (assignments pairs).reverse.any (·.variable == v) = true ↔ given pairs v ≠ [] := by
  simp only [List.any_reverse, List.any_eq_true, assignments, List.mem_filterMap,
    assignment?_eq_some_iff, beq_iff_eq]
  constructor
  · rintro ⟨a, ⟨p, hp, w, hname, hread⟩, rfl⟩
    rw [Variable.variable_of_read hread]
    exact List.ne_nil_of_mem (mem_given.mpr ⟨p, hp, hname, rfl⟩)
  · intro hgiven
    obtain ⟨s, hs⟩ := List.exists_mem_of_ne_nil _ hgiven
    obtain ⟨p, hp, hname, rfl⟩ := mem_given.mp hs
    obtain ⟨a, hread⟩ := Variable.suits_iff.mp ((taken_iff.mp h v).2 _ hs)
    exact ⟨a, ⟨p, hp, v, hname, hread⟩, Variable.variable_of_read hread⟩

theorem readPairs_of_offends (h : Taken before) (hp : Offends before p f) :
    readPairs (p :: after) (assignments before).reverse = .error f := by
  cases hp with
  | @repeated v hname hgiven =>
    rw [readPairs, Variable.ofName?_eq_some_iff.mpr hname]
    exact if_pos ((any_assignments h v).mpr hgiven)
  | @unsuited v fault hname hfirst hread =>
    rw [readPairs, Variable.ofName?_eq_some_iff.mpr hname]
    dsimp only
    rw [if_neg fun hany ↦ (any_assignments h v).mp hany hfirst, hread]

/-- Pairs of which none offends are taken. -/
theorem readPairs_of_taken (h : Taken pairs) : readPairs pairs [] = .ok (assignments pairs) := by
  induction pairs using List.reverseRecOn with
  | nil => rfl
  | append_singleton pairs p ih =>
    obtain ⟨hpairs, hp⟩ := taken_snoc.mp h
    rw [readPairs_append, ih hpairs, assignments_snoc]
    change readPairs [p] (assignments pairs).reverse = _
    rw [readPairs]
    cases hvariable : Variable.ofName? p.1 with
    | none => simp [readPairs, assignment?, hvariable]
    | some v =>
      have hname := Variable.ofName?_eq_some_iff.mp hvariable
      have hfirst : given pairs v = [] := by
        by_contra hgiven
        exact hp _ (.repeated hname hgiven)
      cases hread : v.read p.2 with
      | error fault => exact absurd (.unsuited hname hfirst hread) (hp _)
      | ok a =>
        dsimp only
        rw [if_neg fun hany ↦ (any_assignments hpairs v).mp hany hfirst]
        simp [readPairs, assignment?, hvariable, hread, Except.toOption]

theorem taken_or_exists_offends (pairs : List (String × String)) :
    Taken pairs ∨ ∃ before p after f, pairs = before ++ p :: after ∧ Taken before ∧
      Offends before p f := by
  induction pairs using List.reverseRecOn with
  | nil => exact .inl taken_nil
  | append_singleton pairs p ih =>
    obtain hpairs | ⟨before, q, after, f, rfl, hbefore, hq⟩ := ih
    · by_cases hp : ∃ f, Offends pairs p f
      · obtain ⟨f, hf⟩ := hp
        exact .inr ⟨pairs, p, [], f, rfl, hpairs, hf⟩
      · exact .inl (taken_snoc.mpr ⟨hpairs, not_exists.mp hp⟩)
    · exact .inr ⟨before, q, after ++ [p], f, by simp, hbefore, hq⟩

/-- The failure that is told is that of the first pair that offends. -/
theorem readPairs_eq_error_iff :
    readPairs pairs [] = .error f ↔
      ∃ before p after, pairs = before ++ p :: after ∧ Taken before ∧ Offends before p f := by
  have hoffends {before after : List (String × String)} {p : String × String} {f : Failure}
      (hbefore : Taken before) (hp : Offends before p f) :
      readPairs (before ++ p :: after) [] = .error f := by
    rw [readPairs_append, readPairs_of_taken hbefore]
    exact readPairs_of_offends hbefore hp
  constructor
  · intro h
    obtain htaken | ⟨before, p, after, f', rfl, hbefore, hp⟩ := taken_or_exists_offends pairs
    · rw [readPairs_of_taken htaken] at h
      cases h
    · rw [hoffends hbefore hp] at h
      exact ⟨before, p, after, rfl, hbefore, Except.error.inj h ▸ hp⟩
  · rintro ⟨before, p, after, rfl, hbefore, hp⟩
    exact hoffends hbefore hp

theorem readPairs_eq_ok_iff {l : List Assignment} :
    readPairs pairs [] = .ok l ↔ Taken pairs ∧ l = assignments pairs := by
  constructor
  · intro h
    obtain htaken | ⟨before, p, after, f, hpairs, hbefore, hp⟩ := taken_or_exists_offends pairs
    · rw [readPairs_of_taken htaken] at h
      exact ⟨htaken, (Except.ok.inj h).symm⟩
    · rw [readPairs_eq_error_iff.mpr ⟨before, p, after, hpairs, hbefore, hp⟩] at h
      cases h
  · rintro ⟨htaken, rfl⟩
    exact readPairs_of_taken htaken

end Settings

end NodeInventory
