import Mathlib.Algebra.BigOperators.Group.Finset.Piecewise
import Mathlib.Data.List.Induction
import NodeInventory.Proofs.Writers.Hall

/-!
# Programs that settle accounts

Every exchange has a weight, positive or negative, and is entered in an account. An action *settles*
from a balance if the balance is nothing when it ends, whatever it is answered. A program settles if
its parts do: the items of a batch each settle from a balance of their own, and together from the
sum; and every round of a loop settles from nothing.

What a program has still to do settles from what was entered so far (`Settles.step`), so a program
that has ended has entered nothing on the whole (`Settles.of_ended`). In a hall this is so for every
party, and so the weights of all exchanges come to nothing while all are at rest
(`Writers.total_exchanges_eq_zero`).
-/

namespace NodeInventory

open Writers

variable {α β : Type} {w : Exchange → ℤ} {k n : ℤ}

/-- What the exchanges weigh together. -/
def Exchange.total (w : Exchange → ℤ) : List Exchange → ℤ
  | [] => 0
  | e :: log => w e + total w log

theorem Exchange.total_append (w : Exchange → ℤ) (log log' : List Exchange) :
    total w (log ++ log') = total w log + total w log' := by
  induction log with
  | nil => rw [List.nil_append, total, zero_add]
  | cons e log ih => rw [List.cons_append, total, total, ih, add_assoc]

namespace Action

/-- Whatever it is answered, an action that goes on from a balance ends with none. -/
def Settles (w : Exchange → ℤ) : Action α → ℤ → Prop
  | done _, n => n = 0
  | ask r next, n => ∀ a, (next a).Settles w (n + w ⟨r, a⟩)

theorem Settles.bind {x : Action β} {f : β → Action α} (hx : x.Settles w k)
    (hf : ∀ b, (f b).Settles w n) : (x >>= f).Settles w (n + k) := by
  induction x generalizing k with
  | done b =>
    rw [show k = 0 from hx, add_zero]
    exact hf b
  | ask r next ih =>
    intro a
    rw [add_assoc]
    exact ih a (hx a)

theorem Settles.add {x : Action α} (h : x.Settles w n) (hk : k = 0) : x.Settles w (n + k) := by
  rwa [hk, add_zero]

theorem settles_bind {x : Action β} {f : β → Action α} (hx : x.Settles w 0)
    (hf : ∀ b, (f b).Settles w n) : (x >>= f).Settles w n := by
  have h := hx.bind hf
  rwa [add_zero] at h

theorem settles_of_asks {x : Action α} (hx : x.Asks fun r ↦ ∀ a, w ⟨r, a⟩ = 0) :
    x.Settles w 0 := by
  induction x with
  | done a => rfl
  | ask r next ih => exact fun a ↦ (ih a (hx.2 a)).add (hx.1 a)

theorem settles_ask_bind {r : Request} {f : r.Answer → Action α} (hr : ∀ a, w ⟨r, a⟩ = 0)
    (hf : ∀ a, (f a).Settles w n) : (ask r done >>= f).Settles w n :=
  fun a ↦ (hf a).add (hr a)

/-- The items settle each from a balance of its own, and the given one is their sum. -/
def AllSettle (w : Exchange → ℤ) : List (Action α) → ℤ → Prop
  | [], n => n = 0
  | x :: xs, n => ∃ k, x.Settles w k ∧ AllSettle w xs (n - k)

theorem allSettle_append {xs ys : List (Action α)} :
    AllSettle w (xs ++ ys) n ↔ ∃ k, AllSettle w xs k ∧ AllSettle w ys (n - k) := by
  induction xs generalizing n with
  | nil => simp [AllSettle]
  | cons x xs ih =>
    simp only [List.cons_append, AllSettle, ih]
    constructor
    · rintro ⟨k, hx, m, hxs, hys⟩
      refine ⟨k + m, ⟨k, hx, ?_⟩, ?_⟩
      · rwa [add_sub_cancel_left]
      · rwa [← sub_sub]
    · rintro ⟨m, ⟨k, hx, hxs⟩, hys⟩
      refine ⟨k, hx, m - k, hxs, ?_⟩
      rwa [sub_sub, add_sub_cancel]

theorem allSettle_of_forall {xs : List (Action α)} (h : ∀ x ∈ xs, x.Settles w 0) :
    AllSettle w xs 0 := by
  induction xs with
  | nil => rfl
  | cons x xs ih =>
    exact ⟨0, h x List.mem_cons_self, ih fun y hy ↦ h y (List.mem_cons_of_mem _ hy)⟩

theorem AllSettle.eq_zero {results : List α} (h : AllSettle w (results.map .done) n) : n = 0 := by
  induction results generalizing n with
  | nil => exact h
  | cons a results ih =>
    obtain ⟨k, rfl, hrest⟩ := h
    rw [sub_zero] at hrest
    exact ih hrest

end Action

namespace Program

open Action (AllSettle)

/-- Whatever it is answered, and in whatever order the items of a batch go on, a program that goes
on from a balance ends with none. -/
def Settles (w : Exchange → ℤ) : Program α → ℤ → Prop
  | done _, n => n = 0
  | ask r next, n => ∀ a, (next a).Settles w (n + w ⟨r, a⟩)
  | batch _ items next, n => AllSettle w items n ∧ ∀ results, (next results).Settles w 0
  | loop question act _ next, n => n = 0 ∧ (∀ s a, (act s a).Settles w (w ⟨question s, a⟩)) ∧
    ∀ b, (next b).Settles w 0

theorem settles_ask {r : Request} {next : r.Answer → Program α} (hr : ∀ a, w ⟨r, a⟩ = 0)
    (hnext : ∀ a, (next a).Settles w n) : (ask r next).Settles w n := by
  intro a
  rw [hr a, add_zero]
  exact hnext a

theorem Settles.bind {x : Program β} {f : β → Program α} (hx : x.Settles w n)
    (hf : ∀ b, (f b).Settles w 0) : (x >>= f).Settles w n := by
  induction x generalizing n with
  | done b =>
    rw [show n = 0 from hx]
    exact hf b
  | ask r next ih => exact fun a ↦ ih a (hx a)
  | batch m items next ih => exact ⟨hx.1, fun results ↦ ih results (hx.2 results)⟩
  | loop question act s next ih => exact ⟨hx.1, hx.2.1, fun b ↦ ih b (hx.2.2 b)⟩

theorem settles_afterAction {x : Action β} {f : β → Program α} (hx : x.Settles w n)
    (hf : ∀ b, (f b).Settles w 0) : (afterAction x f).Settles w n := by
  induction x generalizing n with
  | done b =>
    rw [show n = 0 from hx]
    exact hf b
  | ask r next ih => exact fun a ↦ ih a (hx a)

theorem settles_ofAction {x : Action α} (hx : x.Settles w n) : (ofAction x).Settles w n :=
  settles_afterAction hx fun _ ↦ rfl

theorem settles_joined {m : Int} {items : List (Action (Result Unit))}
    (h : ∀ x ∈ items, x.Settles w 0) : (joined m items).Settles w 0 :=
  ⟨Action.allSettle_of_forall h, fun _ ↦ rfl⟩

/-- What a program goes on with settles from what was there and what it has entered. -/
theorem Settles.step {p q : Program α} {r : Request} {a : r.Answer} (h : p.Settles w n)
    (hstep : p.Step r a q) : q.Settles w (n + w ⟨r, a⟩) := by
  induction hstep generalizing n with
  | ask next a => exact h a
  | @item m next r go xs ys a =>
    -- the balance of the item that goes on changes, and the sum with it
    obtain ⟨k, hxs, l, hitem, hys⟩ := Action.allSettle_append.mp h.1
    refine ⟨Action.allSettle_append.mpr ⟨k, hxs, l + w ⟨r, a⟩, hitem a, ?_⟩, h.2⟩
    have hrest : n + w ⟨r, a⟩ - k - (l + w ⟨r, a⟩) = n - k - l := by omega
    rwa [hrest]
  | joined hstep ih =>
    obtain rfl := h.1.eq_zero
    exact ih (h.2 _)
  | @loop ι κ question act s next a =>
    obtain ⟨rfl, hact, hnext⟩ := h
    rw [zero_add]
    refine settles_afterAction (hact s a) fun b ↦ ?_
    cases b with
    | inl s' => exact ⟨rfl, hact, hnext⟩
    | inr b => exact hnext b

/-- A program that has ended leaves no balance. -/
theorem Settles.of_ended {p : Program α} {a : α} (h : p.Settles w n) (hend : p.Ended a) :
    n = 0 := by
  induction hend with
  | done a => exact h
  | joined _ ih =>
    obtain rfl := h.1.eq_zero
    exact ih (h.2 _)

end Program

namespace Writers

open Exchange (total)

variable {moments : List Moment}

/-- What is exchanged at a moment, whoever asks. -/
def Moment.anyExchange? (m : Moment) : Option Exchange :=
  match m.event with
  | .asked _ e => some e
  | .stored _ _ | .removed _ => none

/-- All that was exchanged. -/
def exchanges (moments : List Moment) : List Exchange := moments.filterMap (·.anyExchange?)

theorem total_exchanges (w : Exchange → ℤ) {askers : Finset ℕ}
    (haskers : ∀ m ∈ moments, ∀ i, m.By i → i ∈ askers) :
    total w (exchanges moments) = ∑ i ∈ askers, total w (testimony i moments) := by
  induction moments using List.reverseRecOn with
  | nil => exact Finset.sum_const_zero.symm
  | append_singleton moments m ih =>
    have hpast := ih fun m' hm' ↦ haskers m' (List.mem_append_left _ hm')
    have hlast (i : ℕ) : total w (testimony i (moments ++ [m])) =
        total w (testimony i moments) + total w (m.exchange? i).toList := by
      rw [testimony_snoc, Exchange.total_append]
    rw [exchanges, filterMap_snoc, Exchange.total_append, ← exchanges, hpast]
    simp only [hlast, Finset.sum_add_distrib]
    congr 1
    cases hevent : m.event with
    | asked j e =>
      have hj : j ∈ askers := haskers m (by simp) j ⟨e, hevent⟩
      have hweight (i : ℕ) : total w (m.exchange? i).toList = if j = i then w e else 0 := by
        rw [Moment.exchange?, hevent]
        dsimp only
        split <;> simp [total]
      simp only [hweight, Finset.sum_ite_eq, if_pos hj]
      simp [Moment.anyExchange?, hevent, total]
    | stored | removed => simp [Moment.anyExchange?, Moment.exchange?, hevent, total]

theorem exists_askers (moments : List Moment) :
    ∃ askers : Finset ℕ, ∀ m ∈ moments, ∀ i, m.By i → i ∈ askers := by
  induction moments with
  | nil => exact ⟨∅, by simp⟩
  | cons m moments ih =>
    obtain ⟨askers, haskers⟩ := ih
    cases hevent : m.event with
    | asked j e =>
      refine ⟨insert j askers, List.forall_mem_cons.mpr ⟨?_, fun m' hm' i hi ↦ ?_⟩⟩
      · rintro i ⟨e', he'⟩
        rw [hevent] at he'
        cases he'
        exact Finset.mem_insert_self _ _
      · exact Finset.mem_insert_of_mem (haskers m' hm' i hi)
    | stored | removed =>
      refine ⟨askers, List.forall_mem_cons.mpr ⟨?_, haskers⟩⟩
      rintro i ⟨e', he'⟩
      rw [hevent] at he'
      cases he'

/-- If nobody has entered anything on the whole, then all together have not. -/
theorem total_exchanges_eq_zero {w : Exchange → ℤ} (h : ∀ i, total w (testimony i moments) = 0) :
    total w (exchanges moments) = 0 := by
  obtain ⟨askers, haskers⟩ := exists_askers moments
  rw [total_exchanges w haskers]
  exact Finset.sum_eq_zero fun i _ ↦ h i

end Writers

end NodeInventory
