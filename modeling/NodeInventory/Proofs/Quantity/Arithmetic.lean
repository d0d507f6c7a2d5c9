import Mathlib.Data.Rat.Floor
import Mathlib.Tactic.Linarith
import NodeInventory.Quantity.Basic

/-!
# Division in words

Amounts are divided in words of 128 bits, and rounded up from a sum. The sum has room if the number
and the divisor together do, and nothing else in the division can leave the word: the quotient is no
greater than the sum. So a division comes to the rational number, rounded up, just if there is room
for that (`ceilDiv_eq`). Away from zero the same holds of the magnitude (`divAway_eq`); the least
amount, whose magnitude has no room, is covered by this.
-/

namespace NodeInventory.Quantity

open Calculation

variable {n d : ℤ} {q : Quantity}

theorem le_maxNanos_iff : n ≤ maxNanos ↔ n < 2 ^ 127 := by
  rw [show maxNanos = 2 ^ 127 - 1 by decide, Int.le_sub_one_iff]

theorem neg_maxNanos_eq : -maxNanos = minNanos + 1 := by decide

theorem holds_long_iff : long.Holds n ↔ minNanos ≤ n ∧ n ≤ maxNanos := Iff.rfl

theorem holds_of_abs_le (h : |n| ≤ maxNanos) : long.Holds n := by
  have hmin := neg_maxNanos_eq
  have hn := abs_le.mp h
  rw [holds_long_iff]
  omega

theorem holds_of_nonneg (hn : 0 ≤ n) (hmax : n ≤ maxNanos) : long.Holds n :=
  holds_of_abs_le ((abs_of_nonneg hn).trans_le hmax)

theorem holds_neg (hn : 0 ≤ n) (hmax : n ≤ maxNanos) : long.Holds (-n) :=
  holds_of_abs_le (by rwa [abs_neg, abs_of_nonneg hn])

/-! ## Rounding up -/

theorem ediv_eq_ceil (n : ℤ) (hd : 0 < d) : (n + d - 1) / d = ⌈(n / d : ℚ)⌉ := by
  have hd' : (0 : ℚ) < d := Int.cast_pos.mpr hd
  have hdiv : d * ((n + d - 1) / d) + (n + d - 1) % d = n + d - 1 := Int.mul_ediv_add_emod ..
  have hnonneg := Int.emod_nonneg (n + d - 1) hd.ne'
  have hlt := Int.emod_lt_of_pos (n + d - 1) hd
  symm
  rw [Int.ceil_eq_iff, lt_div_iff₀ hd', div_le_iff₀ hd']
  constructor
  · have hbelow : ((n + d - 1) / d - 1) * d < n := by linarith
    exact_mod_cast hbelow
  · have habove : n ≤ (n + d - 1) / d * d := by linarith
    exact_mod_cast habove

theorem ceil_div_mem (hn : 0 ≤ n) (hd : 0 < d) :
    0 ≤ ⌈(n / d : ℚ)⌉ ∧ ⌈(n / d : ℚ)⌉ < n + d := by
  have hsum : 0 ≤ n + d - 1 := by omega
  have hle := Int.ediv_le_self d hsum
  have hnonneg := Int.ediv_nonneg hsum hd.le
  rw [← ediv_eq_ceil n hd]
  omega

/-- A division comes to the number rounded up if there is room for the dividend and the divisor
together, and it stops otherwise. -/
theorem ceilDiv_eq (hn : 0 ≤ n) (hd : 0 < d) :
    ceilDiv n d = if n + d ≤ maxNanos then .exact ⌈(n / d : ℚ)⌉ else .overrun := by
  unfold ceilDiv
  split
  · next hsum =>
    have hup : long.Holds (n + d) := holds_of_nonneg (by omega) hsum
    have hdown : long.Holds (n + d - 1) := holds_of_nonneg (by omega) (by omega)
    have hquotient : (n + d - 1).tdiv d = ⌈(n / d : ℚ)⌉ := by
      rw [Int.tdiv_eq_ediv_of_nonneg (by omega), ediv_eq_ceil n hd]
    obtain ⟨hnonneg, hlt⟩ := ceil_div_mem hn hd
    rw [operate_of_holds hup, exact_bind, operate_of_holds hdown, exact_bind, hquotient]
    exact operate_of_holds (holds_of_nonneg hnonneg (by omega))
  · next hsum =>
    rw [operate, if_neg fun h ↦ hsum h.2]
    rfl

/-! ## Rounding away from zero -/

/-- The nearest integer that is not closer to zero. -/
def awayFromZero (x : ℚ) : ℤ := if 0 ≤ x then ⌈x⌉ else ⌊x⌋

theorem awayFromZero_of_neg (hn : n < 0) (hd : 0 < d) :
    awayFromZero (n / d) = -⌈((-n : ℤ) / d : ℚ)⌉ := by
  have hneg : (n / d : ℚ) < 0 :=
    div_neg_of_neg_of_pos (Int.cast_lt_zero.mpr hn) (Int.cast_pos.mpr hd)
  rw [awayFromZero, if_neg hneg.not_ge, Int.cast_neg, neg_div, Int.ceil_neg, neg_neg]

/-- A division comes to the number rounded away from zero if there is room for the magnitude and the
divisor together, and it stops otherwise. -/
theorem divAway_eq (n : ℤ) (hd : 0 < d) :
    divAway n d = if |n| + d ≤ maxNanos then .exact (awayFromZero (n / d)) else .overrun := by
  unfold divAway
  by_cases hn : 0 ≤ n
  · have hnonneg : (0 : ℚ) ≤ n / d := div_nonneg (Int.cast_nonneg hn) (Int.cast_nonneg hd.le)
    rw [if_pos hn, ceilDiv_eq hn hd, abs_of_nonneg hn, awayFromZero, if_pos hnonneg]
  · have hpos : 0 ≤ -n := by omega
    rw [if_neg hn, abs_of_neg (not_le.mp hn)]
    split
    · next hsum =>
      obtain ⟨hnonneg, hlt⟩ := ceil_div_mem hpos hd
      rw [operate_of_holds (holds_of_nonneg hpos (by omega)), exact_bind, ceilDiv_eq hpos hd,
        if_pos hsum, exact_bind, awayFromZero_of_neg (not_le.mp hn) hd]
      exact operate_of_holds (holds_neg hnonneg (by omega))
    · next hsum =>
      rw [operate]
      split
      · rw [exact_bind, ceilDiv_eq hpos hd, if_neg hsum, overrun_bind]
      · rfl

theorem milliValue_eq (q : Quantity) :
    q.milliValue = if |q.nanos| + 10 ^ 6 ≤ maxNanos then .exact (awayFromZero (q.nanos / 10 ^ 6))
      else .overrun := by
  rw [milliValue, divAway_eq _ (by decide), nanosPerMilli]
  norm_num

theorem value_eq (q : Quantity) :
    q.value = if |q.nanos| + 10 ^ 9 ≤ maxNanos then .exact (awayFromZero (q.nanos / 10 ^ 9))
      else .overrun := by
  rw [value, divAway_eq _ (by decide), nanosPerUnit]
  norm_num

end NodeInventory.Quantity
