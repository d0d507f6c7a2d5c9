import NodeInventory.Proofs.Quantity.Scaling

/-!
# Numerals are read exactly

A quantity is read from a numeral with blanks around it and from no other text, and what is read is
the quantity that the numeral stands for (`numerals_are_read_exactly`). A numeral is refused if it
does not fit, and only then. One that fits is not read either if it is rounded from a sum that
leaves the word (`Numeral.parse_of_overruns`).

The reader cuts the text at the first character that can belong to no number. That is where the
suffix of a numeral begins, since no suffix begins with a digit or a point, so each part is read as
what it was written as. Back from what was read, each part is found to be written as it must be:
the number because it has at most one point, the suffix because it is a word of the tables or a
letter before a small integer.
-/

namespace NodeInventory.Quantity

open Text Calculation

/-! ## Numbers -/

theorem isNumberChar_iff {c : Char} : isNumberChar c ↔ c.isDigit ∨ c = '.' := by
  simp [isNumberChar, Char.isDigit, Char.le_def]

/-- Digits are read as the number that they spell, unless no word holds it. -/
theorem readMantissa_eq {digits : List Char} {acc : ℕ} (hacc : acc ≤ maxMantissa) :
    readMantissa acc digits =
      if Nat.ofDigitChars 10 digits acc ≤ maxMantissa then some (Nat.ofDigitChars 10 digits acc)
      else none := by
  induction digits generalizing acc with
  | nil => rw [readMantissa, Nat.ofDigitChars_nil, if_pos hacc]
  | cons c digits ih =>
    rw [readMantissa, Nat.ofDigitChars_cons, Nat.mul_comm 10]
    split
    · next hle => exact ih hle
    · next hlt =>
      have hge := le_ofDigitChars digits (acc * 10 + (c.toNat - '0'.toNat))
      rw [if_neg (by omega)]

theorem le_maxMantissa_iff {n : ℕ} : n ≤ maxMantissa ↔ n < 2 ^ 127 := by
  rw [show maxMantissa = 2 ^ 127 - 1 by decide]
  omega

namespace PointedDigits

variable (d : PointedDigits)

theorem isNumberChar_of_mem : ∀ c ∈ d.chars, isNumberChar c := fun _ hc ↦
  isNumberChar_iff.mpr (isDigit_or_eq_point_of_mem hc)

theorem ne_point_of_mem {c : Char} (hc : c ∈ d.whole ++ d.places) : c ≠ '.' := by
  rintro rfl
  exact absurd (d.isDigit _ hc) (by decide)

theorem takeWhile_chars : d.chars.takeWhile (· != '.') = d.whole := by
  have hwhole : ∀ c ∈ d.whole, (c != '.') = true := fun c hc ↦
    bne_iff_ne.mpr (d.ne_point_of_mem (List.mem_append_left _ hc))
  unfold chars
  split
  · exact List.takeWhile_eq_self_iff.mpr hwhole
  · exact takeWhile_append_of_stop hwhole (by simp)

theorem drop_dropWhile_chars : (d.chars.dropWhile (· != '.')).drop 1 = d.places := by
  have hwhole : ∀ c ∈ d.whole, (c != '.') = true := fun c hc ↦
    bne_iff_ne.mpr (d.ne_point_of_mem (List.mem_append_left _ hc))
  unfold chars places
  split
  · next h => rw [List.dropWhile_eq_nil_iff.mpr hwhole, h]; rfl
  · next h => rw [dropWhile_append_of_stop hwhole (by simp), h]; rfl

/-- Digits with a point are read as the number of all digits and the count of places. -/
theorem readNumber_chars :
    readNumber d.chars =
      if d.mantissa < 2 ^ 127 then
        if d.places.length ≤ 30 then .ok (d.mantissa, d.places.length)
        else .error .tooManyFractionDigits
      else .error .tooManyDigits := by
  have hne : ¬ (d.whole.isEmpty && d.places.isEmpty) = true := by
    rw [Bool.and_eq_true, List.isEmpty_iff, List.isEmpty_iff, ← List.append_eq_nil_iff]
    exact d.ne_nil
  have hpoint : ¬ d.places.contains '.' = true := by
    rw [List.contains_iff_mem]
    exact fun h ↦ d.ne_point_of_mem (List.mem_append_right _ h) rfl
  unfold readNumber mantissa
  simp only [takeWhile_chars, drop_dropWhile_chars]
  rw [if_neg hne, if_neg hpoint, readMantissa_eq (Nat.zero_le _)]
  simp only [le_maxMantissa_iff]
  by_cases hfits : Nat.ofDigitChars 10 (d.whole ++ d.places) 0 < 2 ^ 127
  · simp only [if_pos hfits]
  · simp only [if_neg hfits]

end PointedDigits

theorem exists_chars_of_readNumber {cs : List Char} (hcs : ∀ c ∈ cs, isNumberChar c)
    {r : ℕ × ℕ} (h : readNumber cs = .ok r) : ∃ d : PointedDigits, d.chars = cs := by
  unfold readNumber at h
  dsimp only at h
  split at h
  · cases h
  next hne =>
  split at h
  · cases h
  next hpoint =>
  have hsplit := List.takeWhile_append_dropWhile (p := (· != '.')) (l := cs)
  have hwhole : ∀ c ∈ cs.takeWhile (· != '.'), c.isDigit := fun c hc ↦
    (isNumberChar_iff.mp (hcs c ((List.takeWhile_prefix _).subset hc))).resolve_right
      (by simpa using List.mem_takeWhile_imp hc)
  rw [Bool.and_eq_true, List.isEmpty_iff, List.isEmpty_iff] at hne
  rw [List.contains_iff_mem] at hpoint
  generalize cs.takeWhile (· != '.') = whole at *
  -- the number has a point if the run before it is not all there is
  cases hrest : cs.dropWhile (· != '.') with
  | nil =>
    rw [hrest] at hne hsplit
    rw [List.append_nil] at hsplit
    exact ⟨⟨whole, none, by simpa using hwhole, by simpa using hne⟩, hsplit⟩
  | cons c places =>
    obtain rfl : c = '.' := by
      have hc := List.head?_dropWhile_not (· != '.') cs
      rw [hrest] at hc
      simpa using hc
    rw [hrest] at hne hsplit hpoint
    have hplaces : ∀ c ∈ places, c.isDigit := fun c hc ↦
      (isNumberChar_iff.mp (hcs c (by simp [← hsplit, hc]))).resolve_right
        (by rintro rfl; exact hpoint hc)
    refine ⟨⟨whole, some places, ?_, ?_⟩, hsplit⟩
    · exact fun c hc ↦ (List.mem_append.mp hc).elim (hwhole c) (hplaces c)
    · exact fun h ↦ hne (List.append_eq_nil_iff.mp h)

/-! ## Suffixes -/

theorem mem_of_fixedSuffix? {s : String} {r : Family × Scale} (h : fixedSuffix? s = some r) :
    s ∈ decimalSuffixes ++ binarySuffixes := by
  unfold fixedSuffix? at h
  split at h <;> first | decide | cases h

theorem eq_of_mem_tail_suffixes {s : String} (hs : s ∈ decimalSuffixes ++ binarySuffixes) {c : Char}
    (hc : c ∈ s.toList.tail) : c = 'i' := by
  have hall : (decimalSuffixes ++ binarySuffixes).all fun s ↦ s.toList.tail.all (· == 'i') := by
    decide
  exact eq_of_beq (List.all_eq_true.mp (List.all_eq_true.mp hall s hs) c hc)

namespace Suffix

theorem exists_chars_of_mem {s : String} (hs : s ∈ decimalSuffixes ++ binarySuffixes) :
    ∃ suffix : Suffix, suffix.chars = s.toList := by
  rw [List.mem_append] at hs
  obtain hs | hs := hs
  · obtain ⟨k, hk, rfl⟩ := List.mem_iff_getElem.mp hs
    exact ⟨.decimal ⟨k, hk⟩, by simp [chars, hk]⟩
  · obtain ⟨k, hk, rfl⟩ := List.mem_iff_getElem.mp hs
    cases k with
    | zero => exact ⟨.decimal 3, rfl⟩
    | succ k => exact ⟨.binary ⟨k, Nat.lt_of_succ_lt_succ hk⟩, by simp [chars, hk]⟩

theorem readSuffix_decimal (power : Fin 10) :
    readSuffix (decimal power).chars = .ok ((decimal power).family, (decimal power).scale) := by
  decide +revert

theorem readSuffix_binary (power : Fin 6) :
    readSuffix (binary power).chars = .ok ((binary power).family, (binary power).scale) := by
  decide +revert

theorem fixedSuffix?_exponent (letter : Char) (exp : SignedDigits) :
    fixedSuffix? (String.ofList (letter :: exp.chars)) = none := by
  rw [Option.eq_none_iff_forall_ne_some]
  intro r h
  obtain ⟨c, digits, hdigits⟩ := List.exists_cons_of_ne_nil exp.ne_nil
  have hc : c ∈ exp.digits := hdigits ▸ List.mem_cons_self
  have htail : c ∈ (String.ofList (letter :: exp.chars)).toList.tail := by
    rw [String.toList_ofList]
    exact List.mem_append_right _ hc
  obtain rfl := eq_of_mem_tail_suffixes (mem_of_fixedSuffix? h) htail
  exact absurd (exp.isDigit _ hc) (by decide)

theorem readSuffix_chars (suffix : Suffix) :
    readSuffix suffix.chars = .ok (suffix.family, suffix.scale) := by
  cases suffix with
  | decimal power => exact readSuffix_decimal power
  | binary power => exact readSuffix_binary power
  | exponent letter exp isLetter inRange =>
    have hread : readInt exponentLimit (String.ofList exp.chars) = .ok exp.value := by
      refine readInt_eq_ok_iff.mpr ⟨exp, String.toList_ofList, rfl, ?_⟩
      rw [show exponentLimit = 2 ^ 31 - 1 by decide]
      omega
    have hexponent (s : String) :
        readExponent s exp.chars = .ok (.exponent, .decimal exp.value) := by
      rw [readExponent, hread]
      exact if_pos inRange
    unfold readSuffix
    rw [chars, fixedSuffix?_exponent]
    obtain rfl | rfl := isLetter
    · exact hexponent _
    · exact hexponent _

end Suffix

theorem exists_chars_of_readSuffix {cs : List Char} {r : Family × Scale}
    (h : readSuffix cs = .ok r) : ∃ suffix : Suffix, suffix.chars = cs := by
  have hexponent {s : String} {letter : Char} {digits : List Char}
      (hletter : letter = 'e' ∨ letter = 'E') (h : readExponent s digits = .ok r) :
      ∃ suffix : Suffix, suffix.chars = letter :: digits := by
    unfold readExponent at h
    split at h
    · cases h
    next n hread =>
    split at h
    · next hrange =>
      obtain ⟨exp, hexp, rfl, -⟩ := readInt_eq_ok_iff.mp hread
      rw [String.toList_ofList] at hexp
      exact ⟨.exponent letter exp hletter hrange, by rw [Suffix.chars, hexp]⟩
    · cases h
  unfold readSuffix at h
  split at h
  · next hfixed =>
    obtain ⟨suffix, hsuffix⟩ := Suffix.exists_chars_of_mem (mem_of_fixedSuffix? hfixed)
    exact ⟨suffix, hsuffix.trans String.toList_ofList⟩
  · split at h
    · exact hexponent (.inl rfl) h
    · exact hexponent (.inr rfl) h
    · cases h

/-! ## Numerals -/

theorem Suffix.not_isNumberChar_head (suffix : Suffix) :
    ∀ c ∈ suffix.chars.head?, ¬ isNumberChar c := by
  have hall : suffix.chars.head?.all fun c ↦ !isNumberChar c := by
    cases suffix with
    | decimal power => decide +revert
    | binary power => decide +revert
    | exponent letter exp isLetter inRange => obtain rfl | rfl := isLetter <;> rfl
  exact fun c hc ↦ by simpa using (Option.all_eq_true _ _).mp hall c hc

namespace Numeral

variable (w : Numeral)

theorem takeWhile_isNumberChar :
    (w.digits.chars ++ w.suffix.chars).takeWhile isNumberChar = w.digits.chars :=
  takeWhile_append_of_stop w.digits.isNumberChar_of_mem w.suffix.not_isNumberChar_head

theorem dropWhile_isNumberChar :
    (w.digits.chars ++ w.suffix.chars).dropWhile isNumberChar = w.suffix.chars :=
  dropWhile_append_of_stop w.digits.isNumberChar_of_mem w.suffix.not_isNumberChar_head

open Classical in
/-- What becomes of a numeral without its sign: it is refused if it does not fit, and it stops if it
is rounded from a sum that leaves the word. -/
theorem readUnsigned_chars (input : String) :
    (¬ w.Fits → ∃ f, readUnsigned input (w.digits.chars ++ w.suffix.chars) = .exact (.error f)) ∧
    (w.Fits → readUnsigned input (w.digits.chars ++ w.suffix.chars) =
      if w.Overruns then .overrun else .exact (.ok (⌈w.magnitude * 10 ^ 9⌉, w.suffix.family))) := by
  unfold readUnsigned
  rw [takeWhile_isNumberChar, dropWhile_isNumberChar, PointedDigits.readNumber_chars]
  by_cases hmantissa : w.digits.mantissa < 2 ^ 127
  · by_cases hplaces : w.digits.places.length ≤ 30
    · rw [if_pos hmantissa, if_pos hplaces, Suffix.readSuffix_chars]
      dsimp only
      rw [scaled?_eq hmantissa hplaces w.suffix.bounded_scale]
      constructor
      · intro hfits
        rw [if_neg fun h ↦ hfits ⟨hmantissa, hplaces, h⟩]
        exact ⟨_, rfl⟩
      · rintro ⟨-, -, hscale⟩
        rw [if_pos hscale, Overruns]
        split <;> rfl
    · rw [if_pos hmantissa, if_neg hplaces]
      exact ⟨fun _ ↦ ⟨_, rfl⟩, fun h ↦ absurd h.2.1 hplaces⟩
  · rw [if_neg hmantissa]
    exact ⟨fun _ ↦ ⟨_, rfl⟩, fun h ↦ absurd h.1 hmantissa⟩

end Numeral

theorem exists_chars_of_readUnsigned {input : String} {cs : List Char}
    (h : ∀ f, readUnsigned input cs ≠ .exact (.error f)) :
    ∃ (d : PointedDigits) (suffix : Suffix), cs = d.chars ++ suffix.chars := by
  unfold readUnsigned at h
  cases hnumber : readNumber (cs.takeWhile isNumberChar) with
  | error f => exact absurd (by rw [hnumber]; rfl) (h (.number input f))
  | ok n =>
    cases hsuffix : readSuffix (cs.dropWhile isNumberChar) with
    | error f => exact absurd (by rw [hnumber, hsuffix]; rfl) (h (.suffix input f))
    | ok r =>
      obtain ⟨d, hd⟩ := exists_chars_of_readNumber (fun c ↦ List.mem_takeWhile_imp) hnumber
      obtain ⟨suffix, hs⟩ := exists_chars_of_readSuffix hsuffix
      exact ⟨d, suffix, by rw [hd, hs, List.takeWhile_append_dropWhile]⟩

/-! ## Signs and blanks -/

theorem not_isBlank_of_isDigit {c : Char} (hc : c.isDigit) : ¬ isBlank c := by
  have hrange : 48 ≤ c.toNat ∧ c.toNat ≤ 57 := by
    simpa [Char.isDigit, Char.le_def, UInt32.le_iff_toNat_le] using hc
  simp only [isBlank, Bool.or_eq_true, Bool.and_eq_true, decide_eq_true_eq, beq_iff_eq]
  omega

theorem not_isBlank_of_mem_sign (sign : Sign) : ∀ c ∈ sign.chars, ¬ isBlank c := by
  have hall : sign.chars.all fun c ↦ !isBlank c := by cases sign <;> decide
  exact fun c hc ↦ by simpa using List.all_eq_true.mp hall c hc

theorem Suffix.not_isBlank_of_mem (suffix : Suffix) : ∀ c ∈ suffix.chars, ¬ isBlank c := by
  have hword {word : List Char} (hall : word.all fun c ↦ !isBlank c) :
      ∀ c ∈ word, ¬ isBlank c :=
    fun c hc ↦ by simpa using List.all_eq_true.mp hall c hc
  cases suffix with
  | decimal power => exact hword (by decide +revert)
  | binary power => exact hword (by decide +revert)
  | exponent letter exp isLetter inRange =>
    rw [chars, List.forall_mem_cons]
    constructor
    · obtain rfl | rfl := isLetter <;> decide
    · intro c hc
      exact (List.mem_append.mp hc).elim (not_isBlank_of_mem_sign _ c)
        fun hc ↦ not_isBlank_of_isDigit (exp.isDigit c hc)

theorem PointedDigits.exists_chars_eq_cons (d : PointedDigits) :
    ∃ c cs, d.chars = c :: cs ∧ c ≠ '-' ∧ c ≠ '+' := by
  obtain ⟨c, cs, h⟩ := List.exists_cons_of_ne_nil d.chars_ne_nil
  have hc : c.isDigit ∨ c = '.' := isDigit_or_eq_point_of_mem (h ▸ List.mem_cons_self)
  refine ⟨c, cs, h, ?_, ?_⟩ <;> rintro rfl <;> exact absurd hc (by decide)

namespace Numeral

theorem not_isBlank_of_mem (w : Numeral) : ∀ c ∈ w.chars, ¬ isBlank c := by
  intro c hc
  rw [chars, List.mem_append, List.mem_append] at hc
  obtain (hc | hc) | hc := hc
  · exact not_isBlank_of_mem_sign _ c hc
  · obtain hdigit | rfl := PointedDigits.isDigit_or_eq_point_of_mem hc
    · exact not_isBlank_of_isDigit hdigit
    · decide
  · exact w.suffix.not_isBlank_of_mem c hc

theorem parse_of_writtenIn {w : Numeral} {s : String} (h : w.WrittenIn s) :
    parse s = readUnsigned s (w.digits.chars ++ w.suffix.chars) >>= withSign (w.sign == .minus) := by
  obtain ⟨before, after, hbefore, hafter, hs⟩ := h
  have htrim := trim_append hbefore w.not_isBlank_of_mem hafter
  rw [← hs, chars, List.append_assoc] at htrim
  unfold parse
  rw [htrim]
  cases w.sign with
  | absent =>
    obtain ⟨c, cs, hcs, hminus, hplus⟩ := w.digits.exists_chars_eq_cons
    change _ = _ >>= withSign false
    simp only [hcs, Sign.chars, List.nil_append, List.cons_append]
    split <;> simp_all
  | plus => rfl
  | minus => rfl

theorem magnitude_nonneg (w : Numeral) : 0 ≤ w.magnitude := by
  have hfactor : 0 ≤ w.suffix.scale.factor := by
    cases w.suffix.scale with
    | binary shift => exact pow_nonneg (by norm_num) shift
    | decimal exp => exact zpow_nonneg (by norm_num) exp
  rw [magnitude]
  positivity

theorem nanos_mem {w : Numeral} (hfits : w.Fits) :
    0 ≤ ⌈w.magnitude * 10 ^ 9⌉ ∧ ⌈w.magnitude * 10 ^ 9⌉ ≤ maxNanos :=
  ⟨Int.ceil_nonneg (mul_nonneg w.magnitude_nonneg (by norm_num)),
    ceil_le_maxNanos hfits.1 hfits.2.2⟩

end Numeral

theorem withSign_eq {n : ℤ} (hn : 0 ≤ n) (hmax : n ≤ maxNanos) (sign : Sign) (family : Family) :
    withSign (sign == .minus) (.ok (n, family)) = .exact (.ok ⟨sign.apply n, some family⟩) := by
  cases sign with
  | absent | plus => rfl
  | minus =>
    change operate long (-n) >>= _ = _
    rw [operate_of_holds (holds_neg hn hmax)]
    rfl

namespace Numeral

variable {w : Numeral} {s : String}

/-- A numeral that fits is read as the quantity that it stands for, if the sum by which it is
rounded has room. -/
theorem parse_of_fits (hs : w.WrittenIn s) (hfits : w.Fits) (hsum : ¬ w.Overruns) :
    parse s = .exact (.ok w.quantity) := by
  obtain ⟨hn, hmax⟩ := nanos_mem hfits
  rw [parse_of_writtenIn hs, (w.readUnsigned_chars s).2 hfits, if_neg hsum, exact_bind,
    withSign_eq hn hmax, quantity]

/-- A numeral that fits is not read if the sum by which it is rounded has no room. -/
theorem parse_of_overruns (hs : w.WrittenIn s) (hfits : w.Fits) (hsum : w.Overruns) :
    parse s = .overrun := by
  rw [parse_of_writtenIn hs, (w.readUnsigned_chars s).2 hfits, if_pos hsum, overrun_bind]

theorem parse_of_not_fits (hs : w.WrittenIn s) (hfits : ¬ w.Fits) :
    ∃ f, parse s = .exact (.error f) := by
  obtain ⟨f, hf⟩ := (w.readUnsigned_chars s).1 hfits
  rw [parse_of_writtenIn hs, hf]
  exact ⟨f, rfl⟩

end Numeral

theorem exists_writtenIn_of_parse {s : String} (h : ∀ f, parse s ≠ .exact (.error f)) :
    ∃ w : Numeral, w.WrittenIn s := by
  obtain ⟨before, after, hbefore, hafter, hs⟩ := exists_eq_append_trim s.toList
  have hwritten (sign : Sign) {negative : Bool} {cs : List Char}
      (htrim : trim s.toList = sign.chars ++ cs)
      (hread : ∀ f, readUnsigned s cs >>= withSign negative ≠ .exact (.error f)) :
      ∃ w : Numeral, w.WrittenIn s := by
    have hunsigned : ∀ f, readUnsigned s cs ≠ .exact (.error f) := by
      intro f hf
      rw [hf] at hread
      exact hread f rfl
    obtain ⟨d, suffix, rfl⟩ := exists_chars_of_readUnsigned hunsigned
    refine ⟨⟨sign, d, suffix⟩, before, after, hbefore, hafter, ?_⟩
    rw [hs, htrim, Numeral.chars, List.append_assoc sign.chars]
  unfold parse at h
  split at h
  · exact absurd rfl (h .empty)
  · next htrim => exact hwritten .minus htrim h
  · next htrim => exact hwritten .plus htrim h
  · exact hwritten .absent rfl h

theorem exists_numeral_of_parse {s : String} {q : Quantity} (h : parse s = .exact (.ok q)) :
    ∃ w : Numeral, w.WrittenIn s ∧ w.Fits ∧ q = w.quantity := by
  obtain ⟨w, hw⟩ := exists_writtenIn_of_parse fun f hf ↦ by rw [h] at hf; cases hf
  have hfits : w.Fits := by
    by_contra hfits
    obtain ⟨f, hf⟩ := Numeral.parse_of_not_fits hw hfits
    rw [h] at hf
    cases hf
  have hsum : ¬ w.Overruns := fun hsum ↦ by
    rw [Numeral.parse_of_overruns hw hfits hsum] at h
    cases h
  rw [Numeral.parse_of_fits hw hfits hsum] at h
  cases h
  exact ⟨w, hw, hfits, rfl⟩

/-- A quantity is read from a numeral with blanks around it and from nothing else, and the quantity
that is read is the one that the numeral stands for. A numeral that does not fit is refused, as is
a text without a numeral, and every other one is read. Only where a word holds a number and not the
sum by which it is rounded, nothing is said of whether it is read. -/
theorem numerals_are_read_exactly (s : String) :
    (∀ q, parse s = .exact (.ok q) → ∃ w : Numeral, w.WrittenIn s ∧ w.Fits ∧ q = w.quantity) ∧
    ((¬ ∃ w : Numeral, w.WrittenIn s) → ∃ f, parse s = .exact (.error f)) ∧
    ∀ w : Numeral, w.WrittenIn s →
      (w.Fits → ¬ w.Overruns → parse s = .exact (.ok w.quantity)) ∧
      (¬ w.Fits → ∃ f, parse s = .exact (.error f)) := by
  refine ⟨fun q ↦ exists_numeral_of_parse, fun hnone ↦ ?_, fun w hw ↦ ?_⟩
  · by_contra hread
    exact hnone (exists_writtenIn_of_parse fun f hf ↦ hread ⟨f, hf⟩)
  · exact ⟨Numeral.parse_of_fits hw, Numeral.parse_of_not_fits hw⟩

/-- One unit and half a nano unit, with a sign before it. -/
def beyondOne : Numeral where
  sign := .minus
  digits := ⟨['1'], some "0000000005".toList, List.all_eq_true.mp (by decide), by decide⟩
  suffix := .decimal 3

/-- Half a nano unit more than one unit is rounded away from zero. -/
theorem beyondOne_is_rounded_away :
    parse "\u2003-1.0000000005\n" = .exact (.ok ⟨-1000000001, some .decimal⟩) := by
  have hs : beyondOne.WrittenIn "\u2003-1.0000000005\n" :=
    ⟨['\u2003'], ['\n'], List.forall_mem_singleton.mpr rfl, List.forall_mem_singleton.mpr rfl,
      by decide⟩
  have hfits : beyondOne.Fits := ⟨by decide, by decide, fun h ↦ absurd h (by decide)⟩
  have hword : ¬ beyondOne.Overruns := fun h ↦ absurd h.2.2 (by decide)
  have hvalue : ⌈beyondOne.magnitude * 10 ^ 9⌉ = 1000000001 := by
    have hmantissa : beyondOne.digits.mantissa = 10000000005 := by decide
    have hplaces : beyondOne.digits.places.length = 10 := by decide
    have hscale : beyondOne.suffix.scale.factor = 1 := zpow_zero 10
    rw [Int.ceil_eq_iff, Numeral.magnitude, hmantissa, hplaces, hscale]
    norm_num
  rw [((numerals_are_read_exactly _).2.2 beyondOne hs).1 hfits hword, Numeral.quantity, hvalue]
  rfl

end NodeInventory.Quantity
