import NodeInventory.Proofs.Quantity.Exactness
import NodeInventory.Quantity.Writing

/-!
# Quantities survive being written

A quantity is written as an integer and a suffix, with the largest step that leaves the integer
whole, and the text is read as the same amount again (`quantities_survive_writing`). Records hold
quantities as such texts and are compared by them, so it matters that amounts of one family are
written alike just if they are equal.

The family is kept where the suffix tells it. A whole number of units that is no multiple of 1024
has no suffix of the binary family, and one that is no multiple of 1000 none of the exponents; such
texts are read in the decimal family. So is a binary quantity with a fraction of a unit, which is
written in the decimal family.

To write a quantity needs no more room than the quantity does (`exists_render`): amounts only become
smaller, and the steps are few. To read one, no more either, since what is written is read without a
division, or divided by one; and there is room for one more than a whole number of units.

One amount is excepted. The least amount has a magnitude that the word does not hold, and a
magnitude is what is read before the sign is put before it.
-/

namespace NodeInventory.Quantity

open Text Calculation

/-! ## Quantities that come about -/

/-- The quantities that come about: by reading, by adding, and the zero from which sums start. -/
inductive Obtained : Quantity → Prop
  | zero : Obtained zero
  | read {s : String} {q : Quantity} (h : parse s = .exact (.ok q)) : Obtained q
  | sum {a b c : Quantity} (ha : Obtained a) (hb : Obtained b) (h : a.add? b = some c) : Obtained c

theorem abs_nanos_le_of_parse {s : String} {q : Quantity} (h : parse s = .exact (.ok q)) :
    |q.nanos| ≤ maxNanos := by
  obtain ⟨w, -, hfits, rfl⟩ := exists_numeral_of_parse h
  obtain ⟨hnonneg, hmax⟩ := Numeral.nanos_mem hfits
  rwa [Numeral.quantity, Sign.abs_apply, abs_of_nonneg hnonneg]

theorem holds_of_add? {a b c : Quantity} (h : a.add? b = some c) : long.Holds c.nanos := by
  unfold add? at h
  dsimp only at h
  split at h
  · next hbounds => cases h; exact hbounds
  · cases h

theorem Obtained.holds {q : Quantity} (hq : Obtained q) : long.Holds q.nanos := by
  cases hq with
  | zero => decide
  | read h => exact holds_of_abs_le (abs_nanos_le_of_parse h)
  | sum _ _ h => exact holds_of_add? h

theorem Obtained.abs_nanos_le {q : Quantity} (hq : Obtained q) (hleast : q.nanos ≠ minNanos) :
    |q.nanos| ≤ maxNanos := by
  have hbounds := holds_long_iff.mp hq.holds
  rw [abs_le, neg_maxNanos_eq]
  omega

/-! ## Integers with a suffix -/

/-- The numeral of an integer and a suffix. -/
def Numeral.ofInt (m : ℤ) (suffix : Suffix) : Numeral where
  sign := (SignedDigits.ofInt m).sign
  digits := ⟨(SignedDigits.ofInt m).digits, none, by simpa using (SignedDigits.ofInt m).isDigit,
    by simpa using (SignedDigits.ofInt m).ne_nil⟩
  suffix := suffix

theorem Numeral.chars_ofInt (m : ℤ) (suffix : Suffix) :
    (ofInt m suffix).chars = (toString m).toList ++ suffix.chars :=
  congrArg (· ++ suffix.chars) (SignedDigits.chars_ofInt m)

/-- A scale that multiplies by so many nano units. -/
structure Scale.IsStep (scale : Scale) (unit : ℕ) : Prop where
  pos : 0 < unit
  factor_eq : scale.factor * 10 ^ 9 = unit
  fits {n : ℕ} (h : n * unit < 2 ^ 127) : scale.Fits n 0
  not_overruns {n : ℕ} (h : n * unit < 2 ^ 127) : ¬ scale.Overruns n 0

theorem Scale.isStep_decimal {k : ℕ} (hk : k ≤ 9) : (decimal (3 * k - 9)).IsStep (1000 ^ k) where
  pos := Nat.pow_pos (by decide)
  factor_eq := by
    rw [factor, ← zpow_natCast (10 : ℚ) 9, ← zpow_add₀ (by norm_num), Nat.cast_ofNat,
      Int.sub_add_cancel, zpow_mul, zpow_natCast]
    norm_num
  fits := by
    intro n hn _
    have hshift : ((3 * k - 9 : ℤ) + 9 - (0 : ℕ)).toNat = 3 * k := by omega
    rw [hshift, Nat.pow_mul]
    refine ⟨?_, hn⟩
    calc (10 ^ 3) ^ k ≤ (10 ^ 3) ^ 9 := Nat.pow_le_pow_right (by decide) hk
      _ < 2 ^ 127 := by decide
  not_overruns := by
    rintro n - ⟨hneg, -⟩
    omega

theorem Scale.isStep_binary (k : ℕ) : (binary (10 * k)).IsStep (1024 ^ k * 10 ^ 9) where
  pos := by positivity
  factor_eq := by
    rw [factor, pow_mul]
    norm_num
  fits := by
    intro n hn
    change n * 2 ^ (10 * k) * 10 ^ 9 < 2 ^ 127
    rwa [Nat.pow_mul, Nat.mul_assoc]
  not_overruns := by
    intro n hn hsum
    change 2 ^ 127 ≤ n * 2 ^ (10 * k) * 10 ^ 9 + 10 ^ 0 at hsum
    have hunits : n * 2 ^ (10 * k) * 10 ^ 9 < 2 ^ 127 := by rwa [Nat.pow_mul, Nat.mul_assoc]
    -- the end of the word is not a whole number of units
    omega

section Steps

variable {m : ℤ} {suffix : Suffix} {unit : ℕ}

theorem Numeral.mantissa_ofInt : (ofInt m suffix).digits.mantissa = m.natAbs := by
  simp [PointedDigits.mantissa, PointedDigits.places, ofInt, SignedDigits.ofInt]

theorem Numeral.fits_ofInt (hstep : suffix.scale.IsStep unit) (hm : m.natAbs * unit < 2 ^ 127) :
    (ofInt m suffix).Fits := by
  rw [Fits, mantissa_ofInt]
  exact ⟨(Nat.le_mul_of_pos_right _ hstep.pos).trans_lt hm, Nat.zero_le _, hstep.fits hm⟩

theorem Numeral.not_overruns_ofInt (hstep : suffix.scale.IsStep unit)
    (hm : m.natAbs * unit < 2 ^ 127) : ¬ (ofInt m suffix).Overruns := by
  rw [Overruns, mantissa_ofInt]
  exact hstep.not_overruns hm

theorem Numeral.quantity_ofInt (hstep : suffix.scale.IsStep unit) :
    (ofInt m suffix).quantity = ⟨m * unit, some suffix.family⟩ := by
  have hplaces : (ofInt m suffix).digits.places.length = 0 := rfl
  have hmagnitude : (ofInt m suffix).magnitude * 10 ^ 9 = ((m.natAbs * unit : ℕ) : ℚ) := by
    rw [magnitude, mantissa_ofInt, hplaces, pow_zero, div_one, mul_assoc]
    change (m.natAbs * (suffix.scale.factor * 10 ^ 9) : ℚ) = _
    rw [hstep.factor_eq, Nat.cast_mul]
  have hsign : (ofInt m suffix).sign.apply m.natAbs = m := Sign.apply_ofInt m
  rw [quantity, hmagnitude, Int.ceil_natCast, Nat.cast_mul, Sign.apply_mul, hsign]
  rfl

theorem parse_of_isStep {text : String} (hstep : suffix.scale.IsStep unit)
    (htext : text.toList = (toString m).toList ++ suffix.chars) (hm : |m * unit| ≤ maxNanos) :
    parse text = .exact (.ok ⟨m * unit, some suffix.family⟩) := by
  have hbound : m.natAbs * unit < 2 ^ 127 := by
    rw [le_maxNanos_iff, Int.abs_eq_natAbs, Int.natAbs_mul, Int.natAbs_natCast] at hm
    exact_mod_cast hm
  have hwritten : (Numeral.ofInt m suffix).WrittenIn text :=
    ⟨[], [], by simp, by simp, by rw [htext, Numeral.chars_ofInt, List.nil_append, List.append_nil]⟩
  rw [Numeral.parse_of_fits hwritten (Numeral.fits_ofInt hstep hbound)
    (Numeral.not_overruns_ofInt hstep hbound), Numeral.quantity_ofInt hstep]

end Steps

/-! ## The largest step -/

/-- An integer and the suffix of the largest step, of so many powers of a base, that leaves it
whole. -/
def InLargestStep (base steps : ℕ) (suffix : ℕ → String) (n : ℤ) (text : String) : Prop :=
  ∃ m k, IsGreatest {j | j ≤ steps ∧ (base : ℤ) ^ j ∣ n} k ∧ m * base ^ k = n ∧
    text = toString m ++ suffix k

theorem holds_tmod {d : ℤ} (hd : 0 < d) (hmax : d ≤ maxNanos) (n : ℤ) : long.Holds (n.tmod d) := by
  have hlt := Int.tmod_lt_of_pos n hd
  have hgt := Int.lt_tmod_of_pos n hd
  exact holds_of_abs_le (abs_le.mpr ⟨by omega, by omega⟩)

theorem holds_tdiv {d n : ℤ} (hd : 0 < d) (hn : long.Holds n) (hdvd : d ∣ n) :
    long.Holds (n.tdiv d) := by
  obtain ⟨m, rfl⟩ := hdvd
  have hmin := neg_maxNanos_eq
  have hmax : 0 < maxNanos := by decide
  rw [Int.mul_tdiv_cancel_left _ hd.ne']
  rw [holds_long_iff] at hn ⊢
  rcases le_total 0 m with hm | hm
  · have hle : m ≤ d * m := le_mul_of_one_le_left hm hd
    omega
  · have hge : d * m ≤ 1 * m := Int.mul_le_mul_of_nonpos_right hd hm
    omega

/-- The greatest power that divides a product by its base is one more than that which divides the
other factor. -/
theorem isGreatest_succ {base steps k : ℕ} {m : ℤ} (hbase : 0 < base)
    (hk : IsGreatest {j | j ≤ steps ∧ (base : ℤ) ^ j ∣ m} k) :
    IsGreatest {j | j ≤ steps + 1 ∧ (base : ℤ) ^ j ∣ base * m} (k + 1) := by
  have hdiv (j : ℕ) : (base : ℤ) ^ (j + 1) ∣ base * m ↔ (base : ℤ) ^ j ∣ m := by
    rw [pow_succ', Int.mul_dvd_mul_iff_left (by exact_mod_cast hbase.ne')]
  obtain ⟨⟨hle, hdvd⟩, hgreatest⟩ := hk
  refine ⟨⟨Nat.succ_le_succ hle, (hdiv k).mpr hdvd⟩, ?_⟩
  rintro (_ | j) ⟨hj, hdvd⟩
  · exact Nat.zero_le _
  · exact Nat.succ_le_succ (hgreatest ⟨Nat.le_of_succ_le_succ hj, (hdiv j).mp hdvd⟩)

/-- The greatest power is factored out of an amount, and no operation leaves its word if there is
room for the count of all steps. -/
theorem exists_factorOut {base : ℕ} (hbase : 0 < base) (hmax : (base : ℤ) ≤ maxNanos)
    {kind : Word.Kind} {step : ℤ} (hstep : 0 ≤ step) {rounds : ℕ} {n count : ℤ}
    (hn : long.Holds n) (hleast : kind.least ≤ count)
    (hgreatest : count + step * rounds ≤ kind.greatest) :
    ∃ (m : ℤ) (k : ℕ), factorOut base kind step rounds n count = .exact (m, count + step * k) ∧
      IsGreatest {j | j ≤ rounds ∧ (base : ℤ) ^ j ∣ n} k ∧ m * base ^ k = n := by
  have hpos : (0 : ℤ) < base := by exact_mod_cast hbase
  induction rounds generalizing n count with
  | zero =>
    refine ⟨n, 0, ?_, ⟨⟨le_refl 0, by simp⟩, fun j hj ↦ hj.1⟩, by simp⟩
    rw [factorOut, Nat.cast_zero, mul_zero, add_zero, pure_eq]
  | succ rounds ih =>
    rw [factorOut, operate_of_holds (holds_tmod hpos hmax n), exact_bind]
    by_cases hzero : n.tmod base = 0
    · have hdvd : (base : ℤ) ∣ n := Int.dvd_of_tmod_eq_zero hzero
      have hquotient := holds_tdiv hpos hn hdvd
      have htotal (k : ℕ) : count + step * (k + 1 : ℕ) = count + step + step * k := by
        push_cast
        ring
      have hrest : 0 ≤ step * rounds := by positivity
      rw [htotal] at hgreatest
      have hcount : kind.Holds (count + step) := ⟨by omega, by omega⟩
      rw [if_pos hzero, operate_of_holds hquotient, exact_bind, operate_of_holds hcount, exact_bind]
      obtain ⟨m, k, hfactored, hk, hm⟩ := ih hquotient hcount.1 hgreatest
      refine ⟨m, k + 1, by rw [htotal, hfactored], ?_, ?_⟩
      · have hsucc := isGreatest_succ hbase hk
        rwa [Int.mul_tdiv_cancel' hdvd] at hsucc
      · rw [pow_succ, ← mul_assoc, hm, Int.tdiv_mul_cancel hdvd]
    · refine ⟨n, 0, ?_, ⟨⟨Nat.zero_le _, by simp⟩, ?_⟩, by simp⟩
      · rw [if_neg hzero, Nat.cast_zero, mul_zero, add_zero, pure_eq]
      · rintro (_ | j) ⟨-, hdvd⟩
        · exact le_refl 0
        · exact absurd (Int.tmod_eq_zero_of_dvd ((dvd_pow_self _ j.succ_ne_zero).trans hdvd)) hzero

/-- The word for a power of 1000 of a nano unit among the exponents. -/
def exponentWord (k : ℕ) : String := if k = 3 then "" else "e" ++ toString (3 * (k : ℤ) - 9)

section Writing

variable {n : ℤ}

theorem decimalSuffix_eq {k : ℕ} (hk : k ≤ 9) :
    decimalSuffix (-9 + 3 * k) = decimalSuffixes.getD k "" := by
  have hall : ∀ k : Fin 10, decimalSuffix (-9 + 3 * (k : ℕ)) = decimalSuffixes.getD k "" := by
    decide
  exact hall ⟨k, by omega⟩

theorem exists_decimalParts (hn : long.Holds n) :
    ∃ (m : ℤ) (k : ℕ), decimalParts n = .exact (m, -9 + 3 * k) ∧
      IsGreatest {j | j ≤ 9 ∧ (1000 : ℤ) ^ j ∣ n} k ∧ m * 1000 ^ k = n :=
  exists_factorOut (by decide : 0 < 1000) (by decide) (by decide) hn (by decide) (by decide)

theorem exists_renderDecimal (hn : long.Holds n) :
    ∃ text, renderDecimal n = .exact text ∧
      InLargestStep 1000 9 (decimalSuffixes.getD · "") n text := by
  obtain ⟨m, k, hparts, hk, hm⟩ := exists_decimalParts hn
  refine ⟨_, ?_, m, k, hk, hm, rfl⟩
  rw [renderDecimal, hparts, exact_bind]
  dsimp only
  rw [decimalSuffix_eq hk.1.1, pure_eq]

theorem exists_renderExponent (hn : long.Holds n) :
    ∃ text, renderExponent n = .exact text ∧ InLargestStep 1000 9 exponentWord n text := by
  obtain ⟨m, k, hparts, hk, hm⟩ := exists_decimalParts hn
  refine ⟨_, ?_, m, k, hk, hm, rfl⟩
  have hexp : -9 + 3 * (k : ℤ) = 3 * k - 9 := by omega
  have hunit : 3 * (k : ℤ) - 9 = 0 ↔ k = 3 := by omega
  rw [renderExponent, hparts, exact_bind, exponentWord, hexp]
  simp only [hunit, pure_eq]
  split
  · rw [String.append_empty]
  · rw [String.append_assoc]

theorem exists_renderBinary (hn : long.Holds n) :
    ∃ text, renderBinary n = .exact text ∧
      if nanosPerUnit ∣ n then InLargestStep 1024 6 (binarySuffixes.getD · "") (n / nanosPerUnit) text
      else InLargestStep 1000 9 (decimalSuffixes.getD · "") n text := by
  have hpos : 0 < nanosPerUnit := by decide
  rw [renderBinary, operate_of_holds (holds_tmod hpos (by decide) n), exact_bind]
  by_cases hdvd : nanosPerUnit ∣ n
  · have hunits := holds_tdiv hpos hn hdvd
    obtain ⟨m, k, hfactored, hk, hm⟩ : ∃ (m : ℤ) (k : ℕ),
        factorOut 1024 place 1 6 (n.tdiv nanosPerUnit) 0 = .exact (m, 0 + 1 * k) ∧ _ :=
      exists_factorOut (by decide) (by decide) (by decide) hunits (by decide) (by decide)
    simp only [if_pos hdvd]
    rw [if_pos (Int.tmod_eq_zero_of_dvd hdvd), operate_of_holds hunits, exact_bind, hfactored,
      exact_bind]
    rw [Int.tdiv_eq_ediv_of_dvd hdvd] at hk hm
    refine ⟨_, ?_, m, k, hk, hm, rfl⟩
    rw [zero_add, one_mul, Int.toNat_natCast, pure_eq]
  · simp only [if_neg hdvd]
    rw [if_neg fun h ↦ hdvd (Int.dvd_of_tmod_eq_zero h)]
    exact exists_renderDecimal hn

end Writing

/-! ## Suffixes that tell the family -/

/-- A text that ends in a word of the binary family or in an exponent. -/
def NamesItsStep (text : String) : Prop :=
  (∃ word ∈ binarySuffixes.tail, word.toList <:+ text.toList) ∨
    ∃ exp : ℤ, ("e" ++ toString exp).toList <:+ text.toList

variable {text : String} {m : ℤ} {k : ℕ}

theorem toList_suffix_append (s t : String) : t.toList <:+ (s ++ t).toList := by
  rw [String.toList_append]
  exact List.suffix_append ..

theorem NamesItsStep.mem (h : NamesItsStep text) : 'i' ∈ text.toList ∨ 'e' ∈ text.toList := by
  obtain ⟨word, hword, hsuffix⟩ | ⟨exp, hsuffix⟩ := h
  · have hi : ∀ word ∈ binarySuffixes.tail, 'i' ∈ word.toList := by decide
    exact .inl (hsuffix.subset (hi word hword))
  · exact .inr (hsuffix.subset (by simp))

theorem not_mem_toString {c : Char} (hdigit : ¬ c.isDigit) (hc : c ≠ '-') (m : ℤ) :
    c ∉ (toString m).toList := by
  rw [← SignedDigits.chars_ofInt, SignedDigits.chars, List.mem_append, not_or]
  refine ⟨?_, fun h ↦ hdigit ((SignedDigits.ofInt m).isDigit c h)⟩
  rw [SignedDigits.ofInt, Sign.ofInt]
  split
  · exact fun h ↦ hc (List.mem_singleton.mp h)
  · exact List.not_mem_nil

theorem not_mem_decimal_chars (power : Fin 10) :
    'i' ∉ (Suffix.decimal power).chars ∧ 'e' ∉ (Suffix.decimal power).chars := by
  decide +revert

theorem not_namesItsStep_decimal (power : Fin 10)
    (htext : text.toList = (toString m).toList ++ (Suffix.decimal power).chars) :
    ¬ NamesItsStep text := by
  intro h
  have hmem := h.mem
  rw [htext, List.mem_append, List.mem_append] at hmem
  obtain (hi | hi) | (he | he) := hmem
  · exact not_mem_toString (by decide) (by decide) m hi
  · exact (not_mem_decimal_chars power).1 hi
  · exact not_mem_toString (by decide) (by decide) m he
  · exact (not_mem_decimal_chars power).2 he

/-- A text that is read as the amount, and in the family if it tells it. -/
def ReadsBack (text : String) (nanos : ℤ) (family : Option Family) : Prop :=
  ∃ q, parse text = .exact (.ok q) ∧ q.nanos = nanos ∧
    (NamesItsStep text → q.family = family) ∧ (¬ NamesItsStep text → q.family = some .decimal)

theorem readsBack_decimal (hk : k ≤ 9) (family : Option Family)
    (htext : text = toString m ++ decimalSuffixes.getD k "") (hm : |m * 1000 ^ k| ≤ maxNanos) :
    ReadsBack text (m * 1000 ^ k) family := by
  let power : Fin 10 := ⟨k, by omega⟩
  have hchars : text.toList = (toString m).toList ++ (Suffix.decimal power).chars := by
    rw [htext, String.toList_append]
    rfl
  have hstep : (Suffix.decimal power).scale.IsStep (1000 ^ k) := Scale.isStep_decimal hk
  have hread := parse_of_isStep hstep hchars (by exact_mod_cast hm)
  refine ⟨_, hread, by push_cast; rfl, ?_, fun _ ↦ rfl⟩
  exact fun h ↦ absurd h (not_namesItsStep_decimal power hchars)

theorem readsBack_binary (hk : k ≤ 6) (htext : text = toString m ++ binarySuffixes.getD k "")
    (hm : |m * 1024 ^ k * 10 ^ 9| ≤ maxNanos) :
    ReadsBack text (m * 1024 ^ k * 10 ^ 9) (some .binary) := by
  cases k with
  | zero =>
    -- whole units without a suffix are read in the decimal family
    rw [pow_zero, mul_one] at hm ⊢
    exact readsBack_decimal (k := 3) (by decide) _ htext hm
  | succ k =>
    let power : Fin 6 := ⟨k, by omega⟩
    have hchars : text.toList = (toString m).toList ++ (Suffix.binary power).chars := by
      rw [htext, String.toList_append]
      rfl
    have hstep : (Suffix.binary power).scale.IsStep _ := Scale.isStep_binary (k + 1)
    have hread := parse_of_isStep hstep hchars (by push_cast; rwa [← mul_assoc])
    refine ⟨_, hread, by push_cast; rw [mul_assoc], fun _ ↦ rfl, fun h ↦ absurd ?_ h⟩
    have hword : ∀ power : Fin 6, binarySuffixes.getD (power + 1) "" ∈ binarySuffixes.tail := by
      decide
    exact .inl ⟨_, hword power, htext ▸ toList_suffix_append ..⟩

theorem namesItsStep_exponentWord (hk : k ≠ 3) : NamesItsStep (toString m ++ exponentWord k) := by
  rw [exponentWord, if_neg hk]
  exact .inr ⟨3 * k - 9, toList_suffix_append ..⟩

theorem readsBack_exponent (hk : k ≤ 9) (htext : text = toString m ++ exponentWord k)
    (hm : |m * 1000 ^ k| ≤ maxNanos) : ReadsBack text (m * 1000 ^ k) (some .exponent) := by
  by_cases hunit : k = 3
  · subst hunit
    exact readsBack_decimal hk _ htext hm
  · let exp := SignedDigits.ofInt (3 * k - 9)
    have hexp : exp.value = 3 * k - 9 := SignedDigits.value_ofInt _
    let suffix : Suffix := .exponent 'e' exp (.inl rfl) (by omega)
    have hchars : text.toList = (toString m).toList ++ suffix.chars := by
      rw [htext, String.toList_append, exponentWord, if_neg hunit, String.toList_append,
        ← SignedDigits.chars_ofInt (3 * k - 9)]
      rfl
    have hstep : suffix.scale.IsStep (1000 ^ k) := by
      change (Scale.decimal exp.value).IsStep _
      rw [hexp]
      exact Scale.isStep_decimal hk
    have hread := parse_of_isStep hstep hchars (by exact_mod_cast hm)
    refine ⟨_, hread, by push_cast; rfl, fun _ ↦ rfl, fun h ↦ absurd ?_ h⟩
    exact htext ▸ namesItsStep_exponentWord hunit

/-! ## Writing and reading -/

/-- A text of a quantity that is in its largest step: of 1024 for whole units of the binary family,
and otherwise of 1000. -/
def InItsLargestStep (q : Quantity) (text : String) : Prop :=
  if q.family = some .binary ∧ nanosPerUnit ∣ q.nanos then
    InLargestStep 1024 6 (binarySuffixes.getD · "") (q.nanos / nanosPerUnit) text
  else if q.family = some .exponent then InLargestStep 1000 9 exponentWord q.nanos text
  else InLargestStep 1000 9 (decimalSuffixes.getD · "") q.nanos text

/-- A quantity for which there is room is written without leaving a word, and in its largest step
unless it is zero. -/
theorem exists_render {q : Quantity} (hq : long.Holds q.nanos) :
    ∃ text, q.render = .exact text ∧ (q.nanos ≠ 0 → q.InItsLargestStep text) := by
  unfold InItsLargestStep render
  by_cases hzero : q.nanos = 0
  · exact ⟨"0", if_pos hzero, absurd hzero⟩
  · rw [if_neg hzero]
    cases hfamily : q.family with
    | none =>
      obtain ⟨text, htext, hstep⟩ := exists_renderDecimal hq
      exact ⟨text, htext, fun _ ↦ hstep⟩
    | some family =>
      cases family with
      | decimal =>
        obtain ⟨text, htext, hstep⟩ := exists_renderDecimal hq
        exact ⟨text, htext, fun _ ↦ hstep⟩
      | exponent =>
        obtain ⟨text, htext, hstep⟩ := exists_renderExponent hq
        exact ⟨text, htext, fun _ ↦ hstep⟩
      | binary =>
        obtain ⟨text, htext, hstep⟩ := exists_renderBinary hq
        refine ⟨text, htext, fun _ ↦ ?_⟩
        simp only [true_and, reduceCtorEq, Option.some.injEq, if_false]
        exact hstep

theorem readsBack_render {q : Quantity} {text : String} (hq : |q.nanos| ≤ maxNanos)
    (htext : q.render = .exact text) : ReadsBack text q.nanos q.family := by
  obtain ⟨_, hrender, hstep⟩ := exists_render (holds_of_abs_le hq)
  cases htext.symm.trans hrender
  by_cases hzero : q.nanos = 0
  · rw [render, if_pos hzero] at htext
    cases htext
    rw [hzero]
    exact readsBack_decimal (m := 0) (k := 3) (by decide) _ rfl (by decide)
  · have hstep := hstep hzero
    unfold InItsLargestStep at hstep
    split at hstep
    · next hwhole =>
      obtain ⟨m, k, hk, hm, htext⟩ := hstep
      have hnanos : m * 1024 ^ k * 10 ^ 9 = q.nanos := by
        rw [← Int.ediv_mul_cancel hwhole.2, ← hm]
        rfl
      rw [hwhole.1, ← hnanos]
      exact readsBack_binary hk.1.1 htext (hnanos ▸ hq)
    · split at hstep
      · next hexponent =>
        obtain ⟨m, k, hk, hm, htext⟩ := hstep
        rw [hexponent, ← hm]
        exact readsBack_exponent hk.1.1 htext (hm ▸ hq)
      · obtain ⟨m, k, hk, hm, htext⟩ := hstep
        rw [← hm]
        exact readsBack_decimal hk.1.1 _ htext (hm ▸ hq)

theorem renderDecimal_of_renderExponent {n : ℤ} (hn : long.Holds n)
    (htext : renderExponent n = .exact text) (h : ¬ NamesItsStep text) :
    renderDecimal n = .exact text := by
  obtain ⟨_, hexponent, m, k, hk, hm, rfl⟩ := exists_renderExponent hn
  obtain ⟨_, hdecimal, m', k', hk', hm', rfl⟩ := exists_renderDecimal hn
  cases htext.symm.trans hexponent
  obtain rfl : k = k' := hk.unique hk'
  obtain rfl : m = m' := mul_right_cancel₀ (by positivity) (hm.trans hm'.symm)
  have hunit : k = 3 := by
    by_contra hunit
    exact h (namesItsStep_exponentWord hunit)
  rw [hdecimal, hunit]
  rfl

/-- What is read of a text that is not in the binary family is written with that text again. -/
theorem render_of_reads {q q' : Quantity} (hq : long.Holds q.nanos)
    (htext : q.render = .exact text) (hnanos : q'.nanos = q.nanos)
    (hnamed : NamesItsStep text → q'.family = q.family)
    (hunnamed : ¬ NamesItsStep text → q'.family = some .decimal)
    (hfamily : q.family = some .decimal ∨ q.family = some .exponent) :
    q'.render = .exact text := by
  by_cases hnames : NamesItsStep text
  · rwa [render, hnanos, hnamed hnames]
  · unfold render at htext ⊢
    rw [hnanos, hunnamed hnames]
    by_cases hzero : q.nanos = 0
    · rwa [if_pos hzero] at htext ⊢
    · rw [if_neg hzero] at htext ⊢
      obtain hdecimal | hexponent := hfamily
      · rwa [hdecimal] at htext
      · rw [hexponent] at htext
        exact renderDecimal_of_renderExponent hq htext hnames

/-- A quantity that comes about, other than the least one, is read from its own text as the same
amount. It is of its own family again if the text names its step, and of the decimal family
otherwise, and where the family is not the binary one, it is written with the same text again. The
text is in the largest step that leaves the number whole, and two quantities of one family are
written alike just if their amounts are equal. -/
theorem quantities_survive_writing {q : Quantity} (hq : Obtained q) (hleast : q.nanos ≠ minNanos) :
    ∃ text, q.render = .exact text ∧
    (∃ q', parse text = .exact (.ok q') ∧ q'.nanos = q.nanos ∧
      (NamesItsStep text → q'.family = q.family) ∧
      (¬ NamesItsStep text → q'.family = some .decimal) ∧
      (q.family = some .decimal ∨ q.family = some .exponent → q'.render = .exact text)) ∧
    (q.nanos ≠ 0 → q.InItsLargestStep text) ∧
    ∀ p, Obtained p → p.nanos ≠ minNanos → p.family = q.family →
      (p.render = .exact text ↔ p.nanos = q.nanos) := by
  obtain ⟨text, htext, hstep⟩ := exists_render hq.holds
  obtain ⟨q', hread, hnanos, hnamed, hunnamed⟩ := readsBack_render (hq.abs_nanos_le hleast) htext
  refine ⟨text, htext, ⟨q', hread, hnanos, hnamed, hunnamed, ?_⟩, hstep, ?_⟩
  · exact render_of_reads hq.holds htext hnanos hnamed hunnamed
  intro p hp hpleast hfamily
  constructor
  · intro htextp
    obtain ⟨p', hreadp, hnanosp, -⟩ := readsBack_render (hp.abs_nanos_le hpleast) htextp
    cases hread.symm.trans hreadp
    exact hnanosp.symm.trans hnanos
  · intro hnanosp
    rwa [render, hnanosp, hfamily]

/-- One and a half `Mi` are written in `Ki`, and are read from that text as the same amount. -/
theorem one_and_a_half_mebi_survives :
    ∃ q, parse "1536Ki" = .exact (.ok q) ∧ q.nanos = 1572864000000000 ∧
      q.family = some .binary := by
  obtain ⟨text, htext, ⟨q, hread, hnanos, hnamed, -⟩, -⟩ := quantities_survive_writing
    (q := ⟨1572864000000000, some .binary⟩) (.read (s := "1.5Mi") (by decide)) (by decide)
  have hwritten : render ⟨1572864000000000, some .binary⟩ = .exact "1536Ki" := by decide
  cases htext.symm.trans hwritten
  exact ⟨q, hread, hnanos, hnamed (.inl ⟨"Ki", by decide, by decide⟩)⟩

end NodeInventory.Quantity
