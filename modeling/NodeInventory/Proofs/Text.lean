import Mathlib.Algebra.Order.Ring.Int
import Mathlib.Data.List.TakeWhile
import NodeInventory.Text.Blank
import NodeInventory.Text.Integer

/-!
# Texts without blanks, and integers as they are written

What is read of a text with blanks around it is the text without them: blanks may be put before and
after a text that has none of its own, and none of them is read (`trim_append`), and whatever is
trimmed off are blanks (`exists_eq_append_trim`).

An integer is read from a sign and digits, and from nothing else (`readInt_eq_ok_iff`). The digits
may begin with any number of zeros, so an integer is written in many ways; the one without needless
signs and zeros is the one in which integers are written out (`SignedDigits.ofInt`).
-/

namespace NodeInventory.Text

/-! ## Runs of characters -/

section Runs

variable {α : Type} {p : α → Bool} {run rest : List α}

theorem takeWhile_append_of_stop (hrun : ∀ a ∈ run, p a) (hrest : ∀ a ∈ rest.head?, ¬ p a) :
    (run ++ rest).takeWhile p = run := by
  rw [List.takeWhile_append_of_pos hrun]
  cases rest with
  | nil => rw [List.takeWhile_nil, List.append_nil]
  | cons a rest => rw [List.takeWhile_cons_of_neg (hrest a rfl), List.append_nil]

theorem dropWhile_append_of_stop (hrun : ∀ a ∈ run, p a) (hrest : ∀ a ∈ rest.head?, ¬ p a) :
    (run ++ rest).dropWhile p = rest := by
  rw [List.dropWhile_append_of_pos hrun]
  cases rest with
  | nil => rfl
  | cons a rest => exact List.dropWhile_cons_of_neg (hrest a rfl)

end Runs

/-! ## Blanks -/

variable {before cs after : List Char}

theorem dropWhile_isBlank_append (hbefore : ∀ c ∈ before, isBlank c)
    (hcs : ∀ c ∈ cs, ¬ isBlank c) (hafter : ∀ c ∈ after, isBlank c) :
    (before ++ (cs ++ after)).dropWhile isBlank = if cs = [] then [] else cs ++ after := by
  cases cs with
  | nil =>
    rw [if_pos rfl, List.nil_append, List.dropWhile_eq_nil_iff]
    exact fun c hc ↦ (List.mem_append.mp hc).elim (hbefore c) (hafter c)
  | cons c cs =>
    rw [if_neg (List.cons_ne_nil c cs)]
    exact dropWhile_append_of_stop hbefore fun d hd ↦ by
      cases hd
      exact hcs c List.mem_cons_self

/-- Blanks around a text without blanks do not count. -/
theorem trim_append (hbefore : ∀ c ∈ before, isBlank c) (hcs : ∀ c ∈ cs, ¬ isBlank c)
    (hafter : ∀ c ∈ after, isBlank c) : trim (before ++ cs ++ after) = cs := by
  rw [trim, List.append_assoc, dropWhile_isBlank_append hbefore hcs hafter]
  split
  · next h => rw [h]; rfl
  · have hback : (after.reverse ++ (cs.reverse ++ [])).dropWhile isBlank = _ :=
      dropWhile_isBlank_append (fun c hc ↦ hafter c (List.mem_reverse.mp hc))
        (fun c hc ↦ hcs c (List.mem_reverse.mp hc)) (fun c hc ↦ by cases hc)
    rw [List.append_nil, if_neg (mt List.reverse_eq_nil_iff.mp ‹_›)] at hback
    rw [List.reverse_append, hback, List.reverse_reverse]

/-- A text is what is left of it when it is trimmed, with blanks around it. -/
theorem exists_eq_append_trim (cs : List Char) :
    ∃ before after, (∀ c ∈ before, isBlank c) ∧ (∀ c ∈ after, isBlank c) ∧
      cs = before ++ trim cs ++ after := by
  refine ⟨cs.takeWhile isBlank, ((cs.dropWhile isBlank).reverse.takeWhile isBlank).reverse,
    fun c ↦ List.mem_takeWhile_imp, fun c hc ↦ List.mem_takeWhile_imp (List.mem_reverse.mp hc), ?_⟩
  rw [trim, List.append_assoc, ← List.reverse_append, List.takeWhile_append_dropWhile,
    List.reverse_reverse, List.takeWhile_append_dropWhile]

/-! ## Digits -/

theorem digitValue?_eq (c : Char) :
    digitValue? c = if c.isDigit then some (c.toNat - '0'.toNat) else none := by
  simp [digitValue?, Char.isDigit, Char.le_def]

theorem le_ofDigitChars (digits : List Char) (n : ℕ) : n ≤ Nat.ofDigitChars 10 digits n := by
  induction digits generalizing n with
  | nil => exact le_refl n
  | cons c digits ih =>
    rw [Nat.ofDigitChars_cons]
    exact le_trans (by omega) (ih _)

/-- Digits are read as the number that they spell, unless it exceeds the limit. -/
theorem readDigits_eq_ok_iff {limit : ℕ} {fault : IntegerFault} {digits : List Char} {acc n : ℕ}
    (hacc : acc ≤ limit) :
    readDigits limit fault acc digits = .ok n ↔
      (∀ c ∈ digits, c.isDigit) ∧ Nat.ofDigitChars 10 digits acc = n ∧ n ≤ limit := by
  induction digits generalizing acc with
  | nil =>
    rw [readDigits, Except.ok.injEq]
    refine ⟨fun h ↦ ⟨fun c hc ↦ absurd hc List.not_mem_nil, h, h ▸ hacc⟩, fun h ↦ h.2.1⟩
  | cons c digits ih =>
    rw [readDigits, digitValue?_eq, List.forall_mem_cons, Nat.ofDigitChars_cons, Nat.mul_comm 10]
    by_cases hc : c.isDigit
    · rw [if_pos hc, and_iff_right hc]
      dsimp only
      split
      · next hle => exact ih hle
      · next hlt =>
        -- what follows cannot make the number smaller again
        have hge := le_ofDigitChars digits (acc * 10 + (c.toNat - '0'.toNat))
        simp only [reduceCtorEq, false_iff]
        omega
    · simp [hc]

/-! ## Integers -/

/-- What may stand before the digits of a number. -/
inductive Sign
  | absent
  | plus
  | minus
deriving DecidableEq, Repr

namespace Sign

/-- How a sign is written. -/
def chars : Sign → List Char
  | absent => []
  | plus => ['+']
  | minus => ['-']

/-- The number with the given sign and magnitude. -/
def apply : Sign → ℤ → ℤ
  | absent | plus => id
  | minus => Neg.neg

/-- The sign that is written before an integer. -/
def ofInt (n : ℤ) : Sign := if n < 0 then minus else absent

@[simp] theorem apply_ofInt (n : ℤ) : (ofInt n).apply n.natAbs = n := by
  unfold ofInt
  split
  · change -(n.natAbs : ℤ) = n
    omega
  · change (n.natAbs : ℤ) = n
    omega

theorem apply_mul (sign : Sign) (m n : ℤ) : sign.apply (m * n) = sign.apply m * n := by
  cases sign with
  | absent | plus => rfl
  | minus => exact (Int.neg_mul m n).symm

@[simp] theorem abs_apply (sign : Sign) (n : ℤ) : |sign.apply n| = |n| := by
  cases sign with
  | absent | plus => rfl
  | minus => exact abs_neg n

end Sign

/-- A sign and digits. -/
structure SignedDigits where
  sign : Sign
  digits : List Char
  isDigit : ∀ c ∈ digits, c.isDigit
  ne_nil : digits ≠ []

namespace SignedDigits

/-- How signed digits are written. -/
def chars (i : SignedDigits) : List Char := i.sign.chars ++ i.digits

/-- The integer that signed digits spell. -/
def value (i : SignedDigits) : ℤ := i.sign.apply (Nat.ofDigitChars 10 i.digits 0)

/-- An integer written out. -/
def ofInt (n : ℤ) : SignedDigits where
  sign := .ofInt n
  digits := Nat.toDigits 10 n.natAbs
  isDigit _ := Nat.isDigit_of_mem_toDigits (by decide) (by decide)
  ne_nil := Nat.toDigits_ne_nil

@[simp] theorem value_ofInt (n : ℤ) : (ofInt n).value = n := by
  rw [value, ofInt, Nat.ofDigitChars_ten_toDigits, Sign.apply_ofInt]

theorem chars_ofInt (n : ℤ) : (ofInt n).chars = (toString n).toList := by
  cases n with
  | ofNat n =>
    have hsign : Sign.ofInt (Int.ofNat n) = .absent := if_neg (Int.natCast_nonneg n).not_gt
    rw [chars, ofInt, hsign]
    simp [Sign.chars, Int.toString_eq_repr, Int.repr]
  | negSucc n =>
    have hsign : Sign.ofInt (Int.negSucc n) = .minus := if_pos (Int.negSucc_lt_zero n)
    rw [chars, ofInt, hsign]
    simp [Sign.chars, Int.toString_eq_repr, Int.repr]

end SignedDigits

/-- What is made of digits that are read. -/
theorem map_readDigits_eq_ok_iff {limit : ℕ} {fault : IntegerFault} {digits : List Char}
    {f : ℕ → ℤ} {n : ℤ} :
    (readDigits limit fault 0 digits).map f = .ok n ↔
      (∀ c ∈ digits, c.isDigit) ∧ f (Nat.ofDigitChars 10 digits 0) = n ∧
        Nat.ofDigitChars 10 digits 0 ≤ limit := by
  cases h : readDigits limit fault 0 digits with
  | error e =>
    refine ⟨fun hread ↦ (by cases hread), fun ⟨hdigits, _, hle⟩ ↦ ?_⟩
    rw [(readDigits_eq_ok_iff (Nat.zero_le _)).mpr ⟨hdigits, rfl, hle⟩] at h
    cases h
  | ok m =>
    obtain ⟨hdigits, rfl, hle⟩ := (readDigits_eq_ok_iff (Nat.zero_le _)).mp h
    exact ⟨fun hread ↦ ⟨hdigits, Except.ok.inj hread, hle⟩, fun hread ↦ congrArg _ hread.2.1⟩

/-- An integer is read by its sign. -/
theorem readInt_of_toList {limit : ℕ} {s : String} (i : SignedDigits) (hs : s.toList = i.chars) :
    readInt limit s =
      match i.sign with
      | .absent | .plus => (readDigits limit .tooLarge 0 i.digits).map Int.ofNat
      | .minus => (readDigits (limit + 1) .tooSmall 0 i.digits).map fun n : ℕ ↦ (-n : ℤ) := by
  obtain ⟨sign, digits, hdigits, hne⟩ := i
  obtain ⟨d, ds, rfl⟩ := List.exists_cons_of_ne_nil hne
  unfold readInt
  rw [hs]
  cases sign with
  | absent =>
    -- a digit is no sign
    have hplus : d ≠ '+' := by rintro rfl; exact absurd (hdigits _ List.mem_cons_self) (by decide)
    have hminus : d ≠ '-' := by rintro rfl; exact absurd (hdigits _ List.mem_cons_self) (by decide)
    simp only [SignedDigits.chars, Sign.chars, List.nil_append]
    split <;> simp_all
  | plus => rfl
  | minus =>
    simp only [SignedDigits.chars, Sign.chars, List.singleton_append]
    cases readDigits (limit + 1) .tooSmall 0 (d :: ds) <;> rfl

theorem exists_chars_of_readInt {limit : ℕ} {s : String} {n : ℤ} (h : readInt limit s = .ok n) :
    ∃ i : SignedDigits, s.toList = i.chars := by
  unfold readInt at h
  split at h
  · cases h
  · cases h
  · cases h
  · next digits hne hs =>
    cases hread : readDigits (limit + 1) .tooSmall 0 digits with
    | error => rw [hread] at h; cases h
    | ok m => exact ⟨⟨.minus, digits, ((readDigits_eq_ok_iff (Nat.zero_le _)).mp hread).1, hne⟩, hs⟩
  · next digits hne hs => exact ⟨⟨.plus, digits, (map_readDigits_eq_ok_iff.mp h).1, hne⟩, hs⟩
  · next hne _ _ _ _ => exact ⟨⟨.absent, s.toList, (map_readDigits_eq_ok_iff.mp h).1, hne⟩, rfl⟩

/-- An integer is read from signed digits that spell it, if it lies within the limit, and from
nothing else. -/
theorem readInt_eq_ok_iff {limit : ℕ} {s : String} {n : ℤ} :
    readInt limit s = .ok n ↔
      ∃ i : SignedDigits, s.toList = i.chars ∧ i.value = n ∧ -(limit + 1 : ℤ) ≤ n ∧ n ≤ limit := by
  have hvalue (i : SignedDigits) (hs : s.toList = i.chars) :
      readInt limit s = .ok n ↔ i.value = n ∧ -(limit + 1 : ℤ) ≤ n ∧ n ≤ limit := by
    rw [readInt_of_toList i hs, SignedDigits.value]
    cases i.sign with
    | absent | plus =>
      refine map_readDigits_eq_ok_iff.trans ?_
      rw [and_iff_right i.isDigit]
      refine and_congr_right fun hn ↦ ?_
      have hn : (Nat.ofDigitChars 10 i.digits 0 : ℤ) = n := hn
      omega
    | minus =>
      refine map_readDigits_eq_ok_iff.trans ?_
      rw [and_iff_right i.isDigit]
      refine and_congr_right fun hn ↦ ?_
      omega
  constructor
  · intro h
    obtain ⟨i, hs⟩ := exists_chars_of_readInt h
    exact ⟨i, hs, (hvalue i hs).mp h⟩
  · rintro ⟨i, hs, hn⟩
    exact (hvalue i hs).mpr hn

end NodeInventory.Text
