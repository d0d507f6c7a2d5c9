import Mathlib.Algebra.Order.Field.Basic
import Mathlib.Algebra.Order.Field.Power
import Mathlib.Algebra.Order.Field.Rat
import Mathlib.Data.Nat.Log
import Mathlib.Tactic.FieldSimp
import Mathlib.Tactic.Linarith
import Mathlib.Tactic.NormNum
import Mathlib.Tactic.Positivity
import Mathlib.Tactic.Ring
import NodeInventory.Json.Double

/-!
# What is held can be read again

A number that was in range when it was read is in range again when it is read as it is written
(`Number.inRange_held`), so a value that is sound stays so (`isSound_held`). Integers of 64 bits are
held as they are.

The digits of a number in double precision differ from it by no more than half a unit of its last
place (`Double.digits_le`), and to read them adds no more than two roundings to 53 bits. So they
stay below infinity, unless the number is one of the two greatest; these two are looked at.
-/

namespace NodeInventory.Json

variable {n m p q digits : ℕ} {e : ℤ}

/-! ## Rounding to 53 bits -/

theorem exists_unit (hn : 0 < n) : ∃ unit, 0 < unit ∧ (unit = 1 ∨ 2 ^ 52 * unit ≤ n) ∧
    ((round53 n = n / unit * unit ∧ 2 * (n % unit) ≤ unit) ∨
      (round53 n = n / unit * unit + unit ∧ unit ≤ 2 * (n % unit))) := by
  refine ⟨Nat.pow 2 (n.log2 + 1 - 53), Nat.two_pow_pos _, ?_, ?_⟩
  · obtain hle | hlt := le_or_gt (n.log2 + 1) 53
    · left
      rw [Nat.sub_eq_zero_of_le hle]
    · right
      calc 2 ^ 52 * 2 ^ (n.log2 + 1 - 53) = 2 ^ n.log2 := by
            rw [← pow_add]
            congr 1
            omega
        _ ≤ n := Nat.log2_self_le hn.ne'
  · simp only [round53, Bool.or_eq_true, Bool.and_eq_true, decide_eq_true_eq, beq_iff_eq]
    split
    · next hup => exact .inr ⟨Nat.succ_mul .., by omega⟩
    · next hdown => exact .inl ⟨rfl, by omega⟩

theorem round53_le (n : ℕ) : 2 ^ 53 * round53 n ≤ (2 ^ 53 + 1) * n := by
  obtain rfl | hn := Nat.eq_zero_or_pos n
  · decide
  obtain ⟨unit, hpos, hunit, hround⟩ := exists_unit hn
  have hdiv := Nat.div_add_mod' n unit
  have hmod := Nat.mod_lt n hpos
  generalize n / unit * unit = low at *
  rcases hround with ⟨hround, hhalf⟩ | ⟨hround, hhalf⟩ <;> omega

theorem round53_pos (hn : 0 < n) : 0 < round53 n := by
  obtain ⟨unit, hpos, hunit, hround⟩ := exists_unit hn
  have hle : unit ≤ n := by omega
  have hlow : 0 < n / unit * unit := Nat.mul_pos (Nat.div_pos hle hpos) hpos
  rcases hround with ⟨hround, -⟩ | ⟨hround, -⟩ <;> omega

/-! ## Digits that fit a word -/

theorem fitWord_fst_le (digits : ℕ) (e : ℤ) : (fitWord digits e).1 ≤ maxWord := by
  fun_induction fitWord digits e with
  | case1 digits e h => exact h
  | case2 digits e h ih => exact ih

theorem fitWord_le (digits : ℕ) (e : ℤ) :
    ((fitWord digits e).1 : ℚ) * 10 ^ (fitWord digits e).2 ≤ digits * 10 ^ e := by
  fun_induction fitWord digits e with
  | case1 digits e h => exact le_rfl
  | case2 digits e h ih =>
    refine ih.trans ?_
    have hdiv : ((digits / 10 : ℕ) : ℚ) * 10 ≤ digits := by
      exact_mod_cast Nat.div_mul_le_self digits 10
    calc ((digits / 10 : ℕ) : ℚ) * 10 ^ (e + 1) = (digits / 10 : ℕ) * 10 * 10 ^ e := by
          rw [zpow_add_one₀ (by norm_num)]; ring
      _ ≤ digits * 10 ^ e := by gcongr

/-- A bound below which two roundings do not lead to infinity. -/
def safeBound : ℕ := (2 ^ 54 - 5) * 2 ^ 970

theorem mul_safeBound_lt :
    (2 ^ 53 + 1) * (2 ^ 53 + 1) * safeBound < 2 ^ 53 * 2 ^ 53 * overflowBound := by
  decide +kernel

theorem safeBound_lt_ten_pow : safeBound < 10 ^ 154 * 10 ^ 155 := by decide +kernel

theorem scalesInRange_of_le (h : (digits : ℚ) * 10 ^ e ≤ safeBound) :
    scalesInRange digits e = true := by
  have hfit := (fitWord_le digits e).trans h
  rw [scalesInRange]
  generalize fitWord digits e = w at hfit ⊢
  obtain ⟨s, k⟩ := w
  simp only [Bool.or_eq_true, Bool.and_eq_true, decide_eq_true_eq, beq_iff_eq, or_assoc]
  dsimp only at hfit
  rcases Nat.eq_zero_or_pos s with rfl | hs
  · exact .inl rfl
  rcases lt_or_ge k 0 with hk | hk
  · exact .inr (.inl hk)
  obtain ⟨k, rfl⟩ := Int.eq_ofNat_of_zero_le hk
  rw [Int.toNat_natCast]
  replace hfit : s * 10 ^ k ≤ safeBound := by exact_mod_cast hfit
  refine .inr (.inr ⟨?_, ?_⟩)
  · by_contra hlt
    obtain ⟨j, rfl⟩ := Nat.exists_eq_add_of_le (show 154 + 155 ≤ k by omega)
    rw [pow_add, pow_add] at hfit
    have hpow := Nat.le_mul_of_pos_right (10 ^ 154 * 10 ^ 155) (show 0 < 10 ^ j by positivity)
    exact absurd (hpow.trans (Nat.le_mul_of_pos_left _ hs))
      (hfit.trans_lt safeBound_lt_ten_pow).not_ge
  · have hproduct := Nat.mul_le_mul (round53_le s) (round53_le (10 ^ k))
    have hbound := mul_safeBound_lt
    rw [Nat.mul_mul_mul_comm, Nat.mul_mul_mul_comm (2 ^ 53 + 1)] at hproduct
    change round53 s * round53 (10 ^ k) < _
    generalize round53 s * round53 (10 ^ k) = product at *
    generalize s * 10 ^ k = exact at *
    omega

/-! ## The nearest number -/

theorem zpow_eq_div {b : ℚ} (e : ℤ) : b ^ e = b ^ e.toNat / b ^ (-e).toNat := by
  obtain ⟨k, rfl | rfl⟩ := e.eq_nat_or_neg <;> simp

theorem lt_two_zpow_log2Ratio (hq : 0 < q) : (p : ℚ) / q < 2 ^ (log2Ratio p q + 1) := by
  have hp : (p : ℚ) < 2 ^ ((p.log2 : ℤ) + 1) := by exact_mod_cast Nat.lt_log2_self
  have hq' : (2 : ℚ) ^ (q.log2 : ℤ) ≤ q := by exact_mod_cast Nat.log2_self_le hq.ne'
  have hlt : (p : ℚ) / q < 2 ^ ((p.log2 : ℤ) - q.log2 + 1) := by
    rw [show (p.log2 : ℤ) - q.log2 + 1 = p.log2 + 1 - q.log2 by ring, zpow_sub₀ two_ne_zero]
    gcongr
  rw [log2Ratio]
  generalize (p.log2 : ℤ) - q.log2 = k at hlt ⊢
  split
  · exact hlt
  · next h =>
    rw [sub_add_cancel, zpow_eq_div, div_lt_div_iff₀ (by positivity) (by positivity),
      mul_comm _ (q : ℚ)]
    exact_mod_cast Nat.lt_of_not_le h

theorem two_zpow_log2Ratio_le (hp : 0 < p) (hq : 0 < q) :
    2 ^ log2Ratio p q ≤ (p : ℚ) / q := by
  have hp' : (2 : ℚ) ^ (p.log2 : ℤ) ≤ p := by exact_mod_cast Nat.log2_self_le hp.ne'
  have hq' : (q : ℚ) < 2 ^ ((q.log2 : ℤ) + 1) := by exact_mod_cast Nat.lt_log2_self
  have hle : 2 ^ ((p.log2 : ℤ) - q.log2 - 1) ≤ (p : ℚ) / q := by
    rw [show (p.log2 : ℤ) - q.log2 - 1 = p.log2 - (q.log2 + 1) by ring, zpow_sub₀ two_ne_zero]
    gcongr
  rw [log2Ratio]
  generalize (p.log2 : ℤ) - q.log2 = k at hle ⊢
  split
  · next h =>
    rw [zpow_eq_div, div_le_div_iff₀ (by positivity) (by positivity), mul_comm _ (q : ℚ)]
    exact_mod_cast h
  · exact hle

theorem exists_half {a b : ℕ} (hb : 0 < b) :
    ∃ m, (if 2 * (a % b) > b || (2 * (a % b) == b && a / b % 2 == 1) then a / b + 1
        else a / b) = m ∧ m ≤ a / b + 1 ∧ (m - 1 / 2 : ℚ) ≤ a / b ∧ (a : ℚ) / b ≤ m + 1 / 2 := by
  refine ⟨_, rfl, by split <;> omega, ?_⟩
  have hdiv := Nat.div_add_mod' a b
  have hmod := Nat.mod_lt a hb
  have hb' : (0 : ℚ) < b := by exact_mod_cast hb
  rw [le_div_iff₀ hb', div_le_iff₀ hb']
  simp only [Bool.or_eq_true, Bool.and_eq_true, decide_eq_true_eq, beq_iff_eq]
  generalize a / b = c at *
  generalize a % b = r at *
  have ha : (a : ℚ) = c * b + r := by exact_mod_cast hdiv.symm
  have hr : (r : ℚ) < b := by exact_mod_cast hmod
  have hr' : (0 : ℚ) ≤ r := Nat.cast_nonneg r
  split
  · have hup : (b : ℚ) ≤ 2 * r := by exact_mod_cast (by omega : b ≤ 2 * r)
    push_cast
    constructor <;> linarith
  · have hdown : (2 * r : ℚ) ≤ b := by exact_mod_cast (by omega : 2 * r ≤ b)
    constructor <;> linarith

/-- The number of units that a ratio is rounded to, before a full mantissa is shortened. -/
theorem exists_nearest (p : ℕ) (hq : 0 < q) : ∃ (m : ℕ) (e : ℤ),
    e = max (-1074) (log2Ratio p q - 52) ∧
    nearest p q = (if m = 2 ^ 53 then ⟨2 ^ 52, e + 1⟩ else ⟨m, e⟩) ∧ m ≤ 2 ^ 53 ∧
    (m - 1 / 2) * 2 ^ e ≤ (p : ℚ) / q ∧ (p : ℚ) / q ≤ (m + 1 / 2) * 2 ^ e := by
  obtain ⟨e, he⟩ : ∃ e, e = max (-1074) (log2Ratio p q - 52) := ⟨_, rfl⟩
  have hb : 0 < q * 2 ^ e.toNat := Nat.mul_pos hq (Nat.two_pow_pos _)
  obtain ⟨m, hm, hle, hlow, hhigh⟩ := exists_half (a := p * 2 ^ (-e).toNat) hb
  have hunits : ((p * 2 ^ (-e).toNat : ℕ) : ℚ) / (q * 2 ^ e.toNat : ℕ) = p / q / 2 ^ e := by
    rw [zpow_eq_div]
    push_cast
    field_simp
  have hpos : (0 : ℚ) < 2 ^ e := by positivity
  rw [hunits] at hlow hhigh
  rw [le_div_iff₀ hpos] at hlow
  rw [div_le_iff₀ hpos] at hhigh
  refine ⟨m, e, he, ?_, ?_, hlow, hhigh⟩
  · rw [← hm, he]
    rfl
  · refine hle.trans (Nat.succ_le_of_lt ((Nat.div_lt_iff_lt_mul hb).mpr ?_))
    have hlt : ((p * 2 ^ (-e).toNat : ℕ) : ℚ) / (q * 2 ^ e.toNat : ℕ) < 2 ^ 53 := by
      rw [hunits, div_lt_iff₀ hpos]
      calc (p : ℚ) / q < 2 ^ (log2Ratio p q + 1) := lt_two_zpow_log2Ratio hq
        _ ≤ 2 ^ (53 + e) := zpow_le_zpow_right₀ one_le_two (by omega)
        _ = 2 ^ 53 * 2 ^ e := zpow_add₀ two_ne_zero ..
    rw [div_lt_iff₀ (by exact_mod_cast hb)] at hlt
    exact_mod_cast hlt

/-- A number in double precision, below infinity. -/
structure Double.IsFinite (d : Double) : Prop where
  mantissa_lt : d.mantissa < 2 ^ 53
  exponent_le : d.exponent ≤ 971

theorem mantissa_nearest_lt (p : ℕ) (hq : 0 < q) : (nearest p q).mantissa < 2 ^ 53 := by
  obtain ⟨m, e, -, hnearest, hle, -⟩ := exists_nearest p hq
  rw [hnearest]
  split
  · exact Nat.pow_lt_pow_right (by decide) (by decide)
  · next hne => exact Nat.lt_of_le_of_ne hle hne

theorem le_nearest (p : ℕ) (hq : 0 < q) :
    (p : ℚ) / q ≤ ((nearest p q).mantissa + 1 / 2) * 2 ^ (nearest p q).exponent := by
  obtain ⟨m, e, -, hnearest, hle, -, hhigh⟩ := exists_nearest p hq
  rw [hnearest]
  split
  · next hm =>
    subst hm
    refine hhigh.trans ?_
    have hpos : (0 : ℚ) < 2 ^ e := by positivity
    rw [zpow_add_one₀ two_ne_zero]
    push_cast
    nlinarith
  · exact hhigh

theorem two_mul_overflowBound : ∀ n, n = 971 → 2 * overflowBound + 2 ^ n = 2 ^ 54 * 2 ^ n := by
  rintro _ rfl
  decide +kernel

theorem exists_overflowBound_eq :
    ∃ n : ℤ, n = 971 ∧ (overflowBound : ℚ) = (2 ^ 53 - 1 / 2) * 2 ^ n := by
  obtain ⟨n, hn⟩ : ∃ n : ℕ, n = 971 := ⟨_, rfl⟩
  have htwo := two_mul_overflowBound n hn
  refine ⟨n, by rw [hn]; rfl, ?_⟩
  clear hn
  generalize overflowBound = bound at *
  have htwo : (2 : ℚ) * bound + 2 ^ n = 2 ^ 54 * 2 ^ n := by exact_mod_cast htwo
  rw [zpow_natCast]
  linarith

theorem isFinite_nearest (hq : 0 < q) (h : p < overflowBound * q) : (nearest p q).IsFinite := by
  refine ⟨mantissa_nearest_lt p hq, ?_⟩
  obtain ⟨n, hn, hbound⟩ := exists_overflowBound_eq
  generalize overflowBound = bound at *
  have hlt : (p : ℚ) / q < (2 ^ 53 - 1 / 2) * 2 ^ n := by
    rw [← hbound, div_lt_iff₀ (by exact_mod_cast hq)]
    exact_mod_cast h
  have hpos : 0 ≤ n := by omega
  rw [← hn]
  clear hn hbound h
  obtain ⟨m, e, he, hnearest, -, hlow, -⟩ := exists_nearest p hq
  have hle : e ≤ n := by
    suffices hlog : log2Ratio p q ≤ n + 52 by omega
    obtain rfl | hp := Nat.eq_zero_or_pos p
    · have hzero : log2Ratio 0 q ≤ 0 := by
        rw [log2Ratio, Nat.log2_zero]
        split <;> omega
      omega
    · have hpow : (2 : ℚ) ^ log2Ratio p q < 2 ^ (53 + n) := by
        refine (two_zpow_log2Ratio_le hp hq).trans_lt (hlt.trans ?_)
        rw [zpow_add₀ two_ne_zero]
        gcongr
        norm_num
      have := (zpow_lt_zpow_iff_right₀ one_lt_two).mp hpow
      omega
  rw [hnearest]
  split
  · next hm =>
    refine Int.add_one_le_of_lt (lt_of_le_of_ne hle fun heq ↦ ?_)
    rw [hm, heq] at hlow
    push_cast at hlow
    exact absurd (hlow.trans_lt hlt) (lt_irrefl _)
  · exact hle

theorem isFinite_scale (h : scalesInRange digits e = true) : (scale digits e).IsFinite := by
  have hle := fitWord_fst_le digits e
  rw [scalesInRange] at h
  rw [scale]
  generalize fitWord digits e = w at h hle
  have hpower (k : ℤ) : 0 < round53 (Nat.pow 10 k.toNat) := round53_pos (Nat.pow_pos Nat.ofNat_pos)
  have hdiv {p q : ℕ} (hq : 0 < q) (hp : p ≤ 2 * maxWord) : (nearest p q).IsFinite := by
    have hbound : 2 * maxWord < overflowBound := by decide +kernel
    exact isFinite_nearest hq (hp.trans_lt (hbound.trans_le (Nat.le_mul_of_pos_right _ hq)))
  have hround : round53 w.1 ≤ 2 * maxWord := by
    have := round53_le w.1
    omega
  dsimp only
  split
  · exact ⟨by norm_num, by norm_num⟩
  next hzero =>
  split
  · next hk =>
    refine isFinite_nearest Nat.one_pos ?_
    rw [Nat.mul_one]
    simp only [Bool.or_eq_true, Bool.and_eq_true, decide_eq_true_eq, beq_iff_eq] at h hzero
    omega
  · split
    · exact hdiv (hpower _) hround
    · have hmantissa := mantissa_nearest_lt (round53 w.1) (hpower 308)
      have hword : 2 ^ 53 ≤ maxWord := by decide
      exact hdiv (Nat.mul_pos (Nat.two_pow_pos _) (hpower _)) (by omega)

/-! ## The digits of a number -/

namespace Double

variable {d : Double}

theorem le_of_isTold {c : ℕ} {k : ℤ} (h : d.isTold c k = true) :
    (c : ℚ) * 10 ^ k ≤ (d.mantissa + 1 / 2) * 2 ^ d.exponent := by
  have hnear := le_nearest (c * 10 ^ k.toNat) (q := 10 ^ (-k).toNat) (by positivity)
  have hd : nearest (c * 10 ^ k.toNat) (10 ^ (-k).toNat) = d := of_decide_eq_true h
  rw [hd] at hnear
  rw [zpow_eq_div, ← mul_div_assoc]
  exact_mod_cast hnear

theorem isTold_of_digitsAt {k : ℤ} {w : ℕ × ℤ} (h : d.digitsAt k = some w) :
    d.isTold w.1 w.2 = true := by
  obtain ⟨c, hc, rfl⟩ := Option.map_eq_some_iff.mp h
  exact List.find?_some (p := fun c ↦ d.isTold c k) hc

theorem allDigits_eq (d : Double) :
    (d.allDigits.1 : ℚ) * 10 ^ d.allDigits.2 = d.mantissa * 2 ^ d.exponent := by
  rw [allDigits]
  split
  · next he =>
    obtain ⟨k, hk⟩ := Int.eq_ofNat_of_zero_le he
    simp [hk]
  · next he =>
    obtain ⟨k, hk⟩ := Int.exists_eq_neg_ofNat (Int.le_of_lt (Int.not_le.mp he))
    have hten : (10 : ℚ) ^ k = 5 ^ k * 2 ^ k := by rw [← mul_pow]; norm_num
    simp only [hk, neg_neg, Int.toNat_natCast, zpow_neg, zpow_natCast, Nat.pow_eq, hten]
    push_cast
    field_simp

/-- The digits of a number are no more than half a unit above it. -/
theorem digits_le (d : Double) :
    (d.digits.1 : ℚ) * 10 ^ d.digits.2 ≤ (d.mantissa + 1 / 2) * 2 ^ d.exponent := by
  rw [digits]
  cases hfound : (List.range 650).findSome? fun (i : ℕ) ↦ d.digitsAt (309 - i) with
  | some w =>
    obtain ⟨i, -, hi⟩ := List.exists_of_findSome?_eq_some hfound
    exact le_of_isTold (isTold_of_digitsAt hi)
  | none =>
    have hpos : (0 : ℚ) < 2 ^ d.exponent := by positivity
    rw [Option.getD_none, allDigits_eq, add_mul]
    linarith

end Double

theorem safeBound_eq : ∀ n, n = 970 → safeBound + 5 * 2 ^ n = 2 ^ 54 * 2 ^ n := by
  rintro _ rfl
  decide +kernel

theorem Double.IsFinite.le_safeBound {d : Double} (h : d.IsFinite)
    (hgreat : ¬(d.exponent = 971 ∧ 2 ^ 53 - 2 ≤ d.mantissa)) :
    ((d.mantissa : ℚ) + 1 / 2) * 2 ^ d.exponent ≤ safeBound := by
  obtain ⟨hlt, hle⟩ := h
  obtain ⟨m, e⟩ := d
  dsimp only at hlt hle hgreat ⊢
  obtain ⟨n, hn⟩ : ∃ n : ℕ, n = 970 := ⟨_, rfl⟩
  have hbound := safeBound_eq n hn
  replace hle : e ≤ n + 1 := by omega
  replace hgreat : e = n + 1 → m < 2 ^ 53 - 2 := by omega
  clear hn
  generalize safeBound = bound at *
  have hbound : (bound : ℚ) + 5 * 2 ^ (n : ℤ) = 2 ^ 54 * 2 ^ (n : ℤ) := by
    rw [zpow_natCast]
    exact_mod_cast hbound
  have hpos : (0 : ℚ) < 2 ^ (n : ℤ) := by positivity
  rcases lt_or_eq_of_le hle with hlt' | rfl
  · have hm : (m : ℚ) + 1 / 2 ≤ 2 ^ 53 := by
      have : (m : ℚ) + 1 ≤ 2 ^ 53 := by exact_mod_cast hlt
      linarith
    have he : (2 : ℚ) ^ e ≤ 2 ^ (n : ℤ) := zpow_le_zpow_right₀ one_le_two (by omega)
    have hmul := mul_le_mul hm he (by positivity) (by positivity)
    linarith
  · have hm : (m : ℚ) + 3 ≤ 2 ^ 53 := by exact_mod_cast (by omega : m + 3 ≤ 2 ^ 53)
    rw [zpow_add_one₀ two_ne_zero]
    nlinarith

/-- A number in double precision is in range as it is written. Of the two greatest this is seen only
from their digits. -/
theorem Double.IsFinite.inRange_written {d : Double} (h : d.IsFinite) (negative : Bool) :
    (d.written negative).inRange = true := by
  by_cases hgreat : d.exponent = 971 ∧ 2 ^ 53 - 2 ≤ d.mantissa
  · obtain ⟨m, e⟩ := d
    obtain ⟨hlt, -⟩ := h
    obtain ⟨rfl, hge⟩ := hgreat
    dsimp only at hlt hge
    obtain rfl | rfl : m = 2 ^ 53 - 2 ∨ m = 2 ^ 53 - 1 := by omega
    · cases negative <;> decide +kernel
    · cases negative <;> decide +kernel
  rw [Double.written]
  split
  · refine scalesInRange_of_le ?_
    rw [Nat.cast_zero, zero_mul]
    exact Nat.cast_nonneg _
  have hle := d.digits_le.trans (h.le_safeBound hgreat)
  generalize d.digits = w at hle
  obtain ⟨c, k⟩ := w
  dsimp only at hle ⊢
  split
  · next hk =>
    obtain ⟨k, rfl⟩ := Int.eq_ofNat_of_zero_le hk.1
    refine scalesInRange_of_le (hle.trans' (le_of_eq ?_))
    simp only [Int.toNat_natCast, Nat.pow_eq, pow_succ]
    push_cast
    rw [zpow_neg_one, zpow_natCast]
    field_simp
  · exact scalesInRange_of_le hle

/-! ## What is held -/

/-- What is held of a number in range is in range. -/
theorem Number.inRange_held {n : Number} (h : n.inRange = true) : n.held.inRange = true := by
  unfold Number.held
  split
  · exact h
  · cases n with
    | integer negative digits => exact (isFinite_scale h).inRange_written negative
    | decimal negative digits exponent => exact (isFinite_scale h).inRange_written negative

mutual

/-- What is held of a sound value is sound. -/
theorem isSound_held {depth : ℕ} : ∀ {v : Json}, v.isSound depth = true →
    v.held.isSound depth = true
  | null, _ => rfl
  | bool _, _ => rfl
  | string _, h => h
  | number _, h => Number.inRange_held h
  | array items, h => by
    rw [isSound, Bool.and_eq_true] at h
    rw [held, isSound, h.1, areSound_heldItems h.2, Bool.and_self]
  | object members, h => by
    rw [isSound, Bool.and_eq_true] at h
    rw [held, isSound, h.1, membersSound_heldMembers h.2, Bool.and_self]

theorem areSound_heldItems {depth : ℕ} : ∀ {l : List Json}, areSound depth l = true →
    areSound depth (heldItems l) = true
  | [], _ => rfl
  | v :: vs, h => by
    rw [areSound, Bool.and_eq_true] at h
    rw [heldItems, areSound, isSound_held h.1, areSound_heldItems h.2, Bool.and_self]

theorem membersSound_heldMembers {depth : ℕ} : ∀ {l : List (Option String × Json)},
    membersSound depth l = true → membersSound depth (heldMembers l) = true
  | [], _ => rfl
  | (k, v) :: ms, h => by
    rw [membersSound, Bool.and_eq_true, Bool.and_eq_true] at h
    rw [heldMembers, membersSound, h.1.1, isSound_held h.1.2, membersSound_heldMembers h.2,
      Bool.and_self, Bool.and_self]

end

/-- What is held of a number in double precision may be read as its neighbour. -/
example : Number.held (.decimal false 9622463907656829 (-16)) =
    .decimal false 9622463907656827 (-16) := by decide +kernel

mutual

theorem held_eq_self : ∀ {v : Json}, (∀ n ∈ v.numbers, n.isWord = true) → v.held = v
  | null, _ => rfl
  | bool _, _ => rfl
  | string _, _ => rfl
  | number n, h => by
    have hword : n.isWord = true := h n List.mem_cons_self
    rw [held]
    exact congrArg number (if_pos hword)
  | array items, h => by rw [held, heldItems_eq_self h]
  | object members, h => by rw [held, heldMembers_eq_self h]

theorem heldItems_eq_self : ∀ {l : List Json}, (∀ n ∈ numbersOfItems l, n.isWord = true) →
    heldItems l = l
  | [], _ => rfl
  | v :: vs, h => by
    rw [numbersOfItems, List.forall_mem_append] at h
    rw [heldItems, held_eq_self h.1, heldItems_eq_self h.2]

theorem heldMembers_eq_self : ∀ {l : List (Option String × Json)},
    (∀ n ∈ numbersOfMembers l, n.isWord = true) → heldMembers l = l
  | [], _ => rfl
  | (k, v) :: ms, h => by
    rw [numbersOfMembers, List.forall_mem_append] at h
    rw [heldMembers, held_eq_self h.1, heldMembers_eq_self h.2]

end

theorem isNull_held (v : Json) : v.held.isNull = v.isNull := by
  cases v <;> rfl

end NodeInventory.Json
