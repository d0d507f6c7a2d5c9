import NodeInventory.Proofs.Quantity.Arithmetic
import NodeInventory.Proofs.Quantity.Numeral

/-!
# Scaling to nano units

A number of so many places is scaled with integers alone: it is multiplied first and divided last,
and the division starts from a sum that makes it round up. It is refused exactly if the scaling does
not fit, and stops exactly if the scaling fits and the sum does not; otherwise it comes to the
rational number, rounded up (`scaled?_eq`).

Nothing else can leave a word. The net exponent cannot, since no suffix names a scale beyond 10³⁰
(`Suffix.bounded_scale`) and no number has more than thirty places.

One case is told by comparison and not by division: a power of ten that no word holds. The number
itself is held by a word, so it is the lesser of the two, and of their quotient only matters
whether it is zero.
-/

namespace NodeInventory.Quantity

open Calculation Word.Kind

/-! ## Scales -/

/-- A scale no greater than the greatest that a suffix names. -/
def Scale.Bounded : Scale → Prop
  | binary shift => shift ≤ 60
  | decimal exp => -30 ≤ exp ∧ exp ≤ 30

/-- Every suffix names a scale that is bounded. -/
theorem Suffix.bounded_scale (suffix : Suffix) : suffix.scale.Bounded := by
  cases suffix with
  | decimal power =>
    have hlt := power.isLt
    rw [scale, Scale.Bounded]
    omega
  | binary power =>
    have hlt := power.isLt
    rw [scale, Scale.Bounded]
    omega
  | exponent letter exp isLetter inRange => exact inRange

variable {mantissa places shift : ℕ} {exp : ℤ}

/-- The number of units that a number of so many places comes to on a scale. -/
def Scale.amount (mantissa places : ℕ) (scale : Scale) : ℚ :=
  mantissa / 10 ^ places * scale.factor

theorem fits_binary_iff :
    (Scale.binary shift).Fits mantissa places ↔
      (mantissa * Nat.pow 2 shift * nanosPerUnit : ℤ) ≤ maxNanos := by
  rw [le_maxNanos_iff, nanosPerUnit]
  change mantissa * 2 ^ shift * 10 ^ 9 < 2 ^ 127 ↔ _
  rw [← Nat.cast_lt (α := ℤ)]
  push_cast
  rfl

theorem overruns_binary_iff :
    (Scale.binary shift).Overruns mantissa places ↔
      ¬ (mantissa * Nat.pow 2 shift * nanosPerUnit + Nat.pow 10 places : ℤ) ≤ maxNanos := by
  rw [le_maxNanos_iff, not_lt, nanosPerUnit]
  change 2 ^ 127 ≤ mantissa * 2 ^ shift * 10 ^ 9 + 10 ^ places ↔ _
  rw [← Nat.cast_le (α := ℤ)]
  push_cast
  rfl

theorem fits_decimal_iff :
    (Scale.decimal exp).Fits mantissa places ↔
      (0 ≤ exp + 9 - places → (Nat.pow 10 (exp + 9 - places).toNat : ℤ) ≤ maxNanos ∧
        (mantissa * Nat.pow 10 (exp + 9 - places).toNat : ℤ) ≤ maxNanos) := by
  rw [le_maxNanos_iff, le_maxNanos_iff, Scale.Fits, ← Nat.cast_lt (α := ℤ), ← Nat.cast_lt (α := ℤ)]
  push_cast
  rfl

theorem overruns_decimal_iff :
    (Scale.decimal exp).Overruns mantissa places ↔
      exp + 9 - places < 0 ∧ (Nat.pow 10 (-(exp + 9 - places)).toNat : ℤ) ≤ maxNanos ∧
        ¬ (mantissa + Nat.pow 10 (-(exp + 9 - places)).toNat : ℤ) ≤ maxNanos := by
  rw [le_maxNanos_iff, le_maxNanos_iff, not_lt, neg_sub, Scale.Overruns]
  rw [← Nat.cast_lt (α := ℤ), ← Nat.cast_le (α := ℤ)]
  push_cast
  rfl

/-! ## Powers of ten -/

theorem amount_decimal_eq (exp : ℤ) :
    (Scale.decimal exp).amount mantissa places * 10 ^ 9 =
      (mantissa * 10 ^ (exp + 9 - places) : ℚ) := by
  rw [Scale.amount, Scale.factor, zpow_sub₀ (by norm_num), zpow_add₀ (by norm_num), zpow_natCast]
  simp only [zpow_ofNat]
  ring

theorem mul_zpow_eq {k : ℤ} (hk : 0 ≤ k) :
    (mantissa * 10 ^ k : ℚ) = ((mantissa * Nat.pow 10 k.toNat : ℤ) : ℚ) := by
  obtain ⟨j, rfl⟩ := Int.eq_ofNat_of_zero_le hk
  rw [zpow_natCast, Int.toNat_natCast, Nat.pow_eq]
  push_cast
  rfl

theorem mul_zpow_neg_eq {k : ℤ} (hk : k < 0) :
    (mantissa * 10 ^ k : ℚ) = (mantissa : ℤ) / ((10 ^ (-k).toNat : ℕ) : ℤ) := by
  obtain ⟨j, rfl⟩ : ∃ j : ℕ, k = -j := ⟨(-k).toNat, by omega⟩
  rw [zpow_neg, zpow_natCast, neg_neg, Int.toNat_natCast]
  push_cast
  rw [div_eq_mul_inv]

theorem ceil_div_of_lt {n d : ℕ} (hlt : n < d) :
    ⌈((n : ℤ) / (d : ℤ) : ℚ)⌉ = if 0 < n then 1 else 0 := by
  split
  · next hpos =>
    have hd : (0 : ℚ) < d := by exact_mod_cast hpos.trans hlt
    rw [Int.ceil_eq_iff]
    push_cast
    rw [sub_self, div_le_one hd]
    exact ⟨div_pos (by exact_mod_cast hpos) hd, by exact_mod_cast hlt.le⟩
  · next hpos =>
    rw [Nat.eq_zero_of_not_pos hpos]
    simp

theorem holds_pow {base k top : ℕ} (hbase : 0 < base) (hk : k ≤ top)
    (htop : (Nat.pow base top : ℤ) ≤ maxNanos) : long.Holds (Nat.pow base k) :=
  holds_of_nonneg (Int.natCast_nonneg _)
    ((Int.ofNat_le.mpr (Nat.pow_le_pow_right hbase hk)).trans htop)

theorem checked_bind_checked {a : ℤ} {f : ℤ → ℤ} (ha : 0 ≤ a) (hf : 0 ≤ f a) :
    ((long.checked a).bind fun n ↦ long.checked (f n)) =
      if a ≤ maxNanos ∧ f a ≤ maxNanos then some (f a) else none := by
  split
  · next hfits =>
    rw [checked, if_pos (holds_of_nonneg ha hfits.1), Option.bind_some, checked,
      if_pos (holds_of_nonneg hf hfits.2)]
  · next hfits =>
    rw [Option.bind_eq_none_iff]
    intro n hn
    obtain ⟨hholds, rfl⟩ := checked_eq_some_iff.mp hn
    exact if_neg fun h ↦ hfits ⟨hholds.2, h.2⟩

/-! ## Scaling -/

open Classical in
theorem scaled?_binary_eq (hplaces : places ≤ 30) (hshift : shift ≤ 60) :
    scaled? mantissa places (.binary shift) =
      if (Scale.binary shift).Fits mantissa places then
        if (Scale.binary shift).Overruns mantissa places then .overrun
        else .exact (some ⌈(Scale.binary shift).amount mantissa places * 10 ^ 9⌉)
      else .exact none := by
  have hfactor : long.Holds (Nat.pow 2 shift) := holds_pow (by decide) hshift (by decide)
  have hd : long.Holds (Nat.pow 10 places) := holds_pow (by decide) hplaces (by decide)
  have hpos : (0 : ℤ) < Nat.pow 10 places := by exact_mod_cast Nat.pow_pos (by decide)
  have hinner : (0 : ℤ) ≤ mantissa * Nat.pow 2 shift := by positivity
  have hproduct : (0 : ℤ) ≤ mantissa * Nat.pow 2 shift * nanosPerUnit :=
    mul_nonneg hinner (by decide)
  -- there is room for the first product if there is for the second
  have hle : (mantissa * Nat.pow 2 shift : ℤ) ≤ mantissa * Nat.pow 2 shift * nanosPerUnit :=
    le_mul_of_one_le_right hinner (by decide)
  have hamount : ((mantissa * Nat.pow 2 shift * nanosPerUnit : ℤ) / (Nat.pow 10 places : ℤ) : ℚ) =
      (Scale.binary shift).amount mantissa places * 10 ^ 9 := by
    simp only [Scale.amount, Scale.factor, nanosPerUnit, Nat.pow_eq]
    push_cast
    ring
  rw [scaled?, operate_of_holds hfactor, exact_bind,
    checked_bind_checked (f := (· * nanosPerUnit)) hinner hproduct]
  simp only [and_iff_right_of_imp hle.trans, fits_binary_iff, overruns_binary_iff, ite_not]
  by_cases hfits : (mantissa * Nat.pow 2 shift * nanosPerUnit : ℤ) ≤ maxNanos
  · simp only [if_pos hfits]
    rw [operate_of_holds hd, exact_bind, ceilDiv_eq hproduct hpos, hamount]
    split <;> rfl
  · simp only [if_neg hfits]
    rfl

open Classical in
theorem scaled?_decimal_eq (hmantissa : mantissa < 2 ^ 127) (hplaces : places ≤ 30)
    (hexp : -30 ≤ exp ∧ exp ≤ 30) :
    scaled? mantissa places (.decimal exp) =
      if (Scale.decimal exp).Fits mantissa places then
        if (Scale.decimal exp).Overruns mantissa places then .overrun
        else .exact (some ⌈(Scale.decimal exp).amount mantissa places * 10 ^ 9⌉)
      else .exact none := by
  have hshort {n : ℤ} (hn : -60 ≤ n ∧ n ≤ 60) : short.Holds n :=
    ⟨.trans (by decide) hn.1, hn.2.trans (by decide)⟩
  rw [scaled?, operate_of_holds (hshort (by omega)), exact_bind,
    operate_of_holds (hshort (by omega)), exact_bind, amount_decimal_eq, fits_decimal_iff,
    overruns_decimal_iff]
  generalize exp + 9 - (places : ℤ) = shift
  by_cases hshift : 0 ≤ shift
  · -- nothing is divided, so nothing is rounded
    have hamount : (mantissa * 10 ^ shift : ℚ) = _ := mul_zpow_eq hshift
    have hno : ¬ (shift < 0 ∧ (Nat.pow 10 (-shift).toNat : ℤ) ≤ maxNanos ∧
        ¬ (mantissa + Nat.pow 10 (-shift).toNat : ℤ) ≤ maxNanos) :=
      fun h ↦ hshift.not_gt h.1
    rw [if_pos hshift, forall_prop_of_true hshift, if_neg hno, hamount, Int.ceil_intCast,
      checked_bind_checked (f := (mantissa * ·)) (Int.natCast_nonneg _) (by positivity)]
    split <;> rfl
  · have hpos : (0 : ℤ) < Nat.pow 10 (-shift).toNat := by exact_mod_cast Nat.pow_pos (by decide)
    have hamount : (mantissa * 10 ^ shift : ℚ) = _ := mul_zpow_neg_eq (not_le.mp hshift)
    rw [if_neg hshift, if_pos fun h ↦ absurd h hshift, hamount]
    by_cases hd : (Nat.pow 10 (-shift).toNat : ℤ) ≤ maxNanos
    · simp only [not_le.mp hshift, hd, true_and, ite_not]
      rw [checked, if_pos (holds_of_nonneg hpos.le hd)]
      dsimp only
      rw [ceilDiv_eq (Int.natCast_nonneg _) hpos, Nat.pow_eq]
      split <;> rfl
    · -- there is no room for the power, and the number is only compared with zero
      simp only [hd, false_and, and_false, if_false]
      rw [checked, if_neg fun h ↦ hd h.2]
      rw [le_maxNanos_iff, not_lt] at hd
      rw [ceil_div_of_lt (hmantissa.trans_le (by exact_mod_cast hd))]
      rfl

open Classical in
/-- A number is refused if its scaling does not fit, and otherwise scaled exactly and rounded up to
a nano unit, unless there is no room for the sum by which it is rounded. -/
theorem scaled?_eq (hmantissa : mantissa < 2 ^ 127) (hplaces : places ≤ 30) {scale : Scale}
    (hscale : scale.Bounded) :
    scaled? mantissa places scale =
      if scale.Fits mantissa places then
        if scale.Overruns mantissa places then .overrun
        else .exact (some ⌈scale.amount mantissa places * 10 ^ 9⌉)
      else .exact none := by
  cases scale with
  | binary shift => exact scaled?_binary_eq hplaces hscale
  | decimal exp => exact scaled?_decimal_eq hmantissa hplaces hscale

theorem ceil_le_maxNanos (hmantissa : mantissa < 2 ^ 127) {scale : Scale}
    (hfits : scale.Fits mantissa places) :
    ⌈scale.amount mantissa places * 10 ^ 9⌉ ≤ maxNanos := by
  have hbound {n : ℕ} (hn : n < 2 ^ 127) {x : ℚ} (hx : x ≤ n) : ⌈x⌉ ≤ maxNanos := by
    rw [le_maxNanos_iff]
    have hceil : ⌈x⌉ ≤ n := Int.ceil_le.mpr (by exact_mod_cast hx)
    exact hceil.trans_lt (by exact_mod_cast hn)
  cases scale with
  | binary shift =>
    have hproduct : mantissa * 2 ^ shift * 10 ^ 9 < 2 ^ 127 := hfits
    refine hbound hproduct ?_
    simp only [Nat.cast_mul, Nat.cast_pow, Nat.cast_ofNat]
    have hdiv : (mantissa / 10 ^ places : ℚ) ≤ mantissa :=
      div_le_self (Nat.cast_nonneg _) (one_le_pow₀ (by norm_num))
    rw [Scale.amount, Scale.factor]
    gcongr
  | decimal exp =>
    rw [amount_decimal_eq]
    by_cases hshift : 0 ≤ exp + 9 - places
    · refine hbound (hfits hshift).2 ?_
      push_cast
      rw [← zpow_natCast, Int.toNat_of_nonneg hshift]
    · have hpower : (10 ^ (exp + 9 - places) : ℚ) ≤ 1 :=
        zpow_le_one_of_nonpos₀ (by norm_num) (not_le.mp hshift).le
      exact hbound hmantissa (mul_le_of_le_one_right (Nat.cast_nonneg _) hpower)

end NodeInventory.Quantity
