import NodeInventory.Proofs.Text
import NodeInventory.Text.Timestamp

/-!
# Points in time are kept to the second

The text of a point in time is read as the same point in time with the fraction of its second left
out (`parse_render`), whatever its year is and even if it lies in a leap second. So what has no
fraction is kept, and what has one is changed just once.

A part of the text is digits that end where they have to: there are as many as are taken at most, or
none follow them (`readNumber_append`).
-/

namespace NodeInventory.Text.Timestamp

/-! ## Numbers -/

theorem not_isBlank_of_isDigit {c : Char} (h : c.isDigit) : ¬ isBlank c := by
  have hc : 48 ≤ c.toNat ∧ c.toNat ≤ 57 := by
    simpa [Char.isDigit, UInt32.le_iff_toNat_le] using h
  simp [isBlank]
  omega

variable {most width n : ℕ} {ds rest : List Char}

/-- Digits are read whole if no digit could follow them. -/
theorem readNumber_append (hdigits : ∀ d ∈ ds, d.isDigit) (hne : ds ≠ []) (hmost : ds.length ≤ most)
    (hstop : ds.length = most ∨ ∀ c ∈ rest.head?, ¬ c.isDigit) :
    readNumber most (ds ++ rest) = some (Nat.ofDigitChars 10 ds 0, rest) := by
  have htake : ((ds ++ rest).take most).takeWhile Char.isDigit = ds := by
    rw [List.take_append, List.take_of_length_le hmost]
    refine takeWhile_append_of_stop hdigits fun c hc ↦ ?_
    rcases hstop with rfl | hstop
    · simp at hc
    · rw [List.head?_take] at hc
      split at hc
      · cases hc
      · exact hstop c hc
  rw [readNumber, htake, if_neg (by simpa using hne), List.drop_left]

theorem length_padded (hwidth : 0 < width) (h : n < 10 ^ width) : (padded width n).length = width := by
  have hle : (Nat.toDigits 10 n).length ≤ width :=
    (Nat.length_toDigits_le_iff (by decide) hwidth).mpr h
  rw [padded, List.length_append, List.length_replicate]
  omega

theorem isDigit_of_mem_padded {c : Char} (h : c ∈ padded width n) : c.isDigit := by
  rcases List.mem_append.mp h with h | h
  · rw [List.eq_of_mem_replicate h]
    rfl
  · exact Nat.isDigit_of_mem_toDigits (by decide) (by decide) h

theorem padded_ne_nil : padded width n ≠ [] :=
  List.append_ne_nil_of_right_ne_nil _ Nat.toDigits_ne_nil

@[simp] theorem ofDigitChars_padded : Nat.ofDigitChars 10 (padded width n) 0 = n := by
  rw [padded, Nat.ofDigitChars_append, Nat.ofDigitChars_replicate_zero, Nat.mul_zero,
    Nat.ofDigitChars_ten_toDigits]

theorem isDigit_of_mem_head?_padded {c : Char} (h : c ∈ (padded width n ++ rest).head?) :
    c.isDigit := by
  have hne : padded width n ≠ [] := padded_ne_nil
  obtain ⟨d, ds, hds⟩ := List.exists_cons_of_ne_nil hne
  rw [hds] at h
  cases h
  exact isDigit_of_mem_padded (hds ▸ List.mem_cons_self)

theorem dropWhile_isBlank_padded :
    (padded width n ++ rest).dropWhile isBlank = padded width n ++ rest := by
  rw [← List.nil_append (padded width n ++ rest)]
  exact dropWhile_append_of_stop (by simp) fun _ hc ↦
    not_isBlank_of_isDigit (isDigit_of_mem_head?_padded hc)

theorem readPart_padded (h : n < 100) : readPart (padded 2 n ++ rest) = some (n, rest) := by
  have hlength : (padded 2 n).length = 2 := length_padded (by decide) h
  rw [readPart, dropWhile_isBlank_padded, readNumber_append (fun _ ↦ isDigit_of_mem_padded)
    padded_ne_nil hlength.le (.inl hlength), ofDigitChars_padded]

theorem readMark_cons {mark : Char} (h : ¬ isBlank mark) : readMark mark (mark :: rest) = some rest := by
  rw [readMark, List.dropWhile_cons_of_neg h]
  exact if_pos rfl

theorem readYear_writeYear (year : ℤ) (hstop : ∀ c ∈ rest.head?, ¬ c.isDigit) :
    readYear (writeYear year ++ rest) = some (year, rest) := by
  have hsigned : readNumber (padded 4 year.natAbs ++ rest).length (padded 4 year.natAbs ++ rest) =
      some (year.natAbs, rest) := by
    rw [readNumber_append (fun _ ↦ isDigit_of_mem_padded) padded_ne_nil (by simp) (.inr hstop),
      ofDigitChars_padded]
  rw [writeYear]
  split
  · next h =>
    have hlength : (padded 4 year.natAbs).length = 4 := length_padded (by decide) (by omega)
    have hread : readNumber 4 (padded 4 year.natAbs ++ rest) = some (year.natAbs, rest) := by
      rw [readNumber_append (fun _ ↦ isDigit_of_mem_padded) padded_ne_nil hlength.le (.inl hlength),
        ofDigitChars_padded]
    have hnatAbs : (year.natAbs : ℤ) = year := by omega
    have hdigit : ∀ c ∈ (padded 4 year.natAbs ++ rest).head?, c.isDigit := fun _ ↦
      isDigit_of_mem_head?_padded
    rw [readYear, dropWhile_isBlank_padded]
    split
    · next hcs => exact absurd (hdigit '-' (by rw [hcs]; rfl)) (by decide)
    · next hcs => exact absurd (hdigit '+' (by rw [hcs]; rfl)) (by decide)
    · rw [hread, Option.map_some, hnatAbs]
  · next h =>
    rw [readYear]
    by_cases hneg : year < 0
    · have hnatAbs : -(year.natAbs : ℤ) = year := by omega
      rw [if_pos hneg, List.cons_append, List.dropWhile_cons_of_neg (by decide)]
      simp only [hsigned, Option.map_some, hnatAbs]
    · have hnatAbs : (year.natAbs : ℤ) = year := by omega
      rw [if_neg hneg, List.cons_append, List.dropWhile_cons_of_neg (by decide)]
      simp only [hsigned, Option.map_some, hnatAbs]

/-! ## Points in time -/

/-- A point in time without the fraction of its second. -/
def wholeSeconds (t : Timestamp) : Timestamp := { t with nanosecond := 0 }

@[simp] theorem wholeSeconds_wholeSeconds (t : Timestamp) :
    t.wholeSeconds.wholeSeconds = t.wholeSeconds := rfl

theorem monthLength_le (year : ℤ) (month : ℕ) : monthLength year month ≤ 31 := by
  unfold monthLength
  split
  · split <;> omega
  · split <;> omega

theorem ofNumbers_eq (t : Timestamp) :
    ofNumbers t.date.year t.date.month t.date.day (t.minute.val / 60) (t.minute.val % 60) t.second 0
      0 = some t.wholeSeconds := by
  obtain ⟨date, minute, second, nanosecond⟩ := t
  have hdate : Date.ofNumbers date.year date.month date.day = some date := dif_pos date.isDate
  have hhour : minute.val / 60 < 24 := by omega
  have hminute : minute.val % 60 < 60 := by omega
  have hminutes : ((minute.val / 60 : ℕ) * 60 + (minute.val % 60 : ℕ) - 0 : ℤ) = minute.val := by
    omega
  have hday : Fin.ofNat 1440 ((minute.val : ℤ) % 1440).toNat = minute := by
    ext
    simp only [Fin.val_ofNat]
    omega
  have hpast : ¬ (minute.val : ℤ) < 0 := by omega
  have hnext : (minute.val : ℤ) < 1440 := by omega
  simp only [ofNumbers, hdate, Option.bind_eq_bind, Option.bind_some, hminutes, hday]
  rw [dif_pos ⟨second.isLt, by decide⟩, if_pos (by simp only [hhour, hminute, decide_true,
    Bool.and_self]), if_neg hpast, if_pos hnext]
  rfl

/-- The text of a point in time is read as the point in time, to the second. -/
theorem parse_render (t : Timestamp) : parse t.render = some t.wholeSeconds := by
  have hmonth : t.date.month < 100 := by have := t.date.isDate; unfold IsDate at this; omega
  have hday : t.date.day < 100 := by
    have := t.date.isDate
    have := monthLength_le t.date.year t.date.month
    unfold IsDate at *
    omega
  have hhour : t.minute.val / 60 < 100 := by omega
  have hminute : t.minute.val % 60 < 100 := by omega
  have hsecond : t.second.val < 100 := by omega
  rw [parse, render, String.toList_ofList]
  refine Option.bind_eq_some_iff.mpr ⟨_, readYear_writeYear _ (by simp), ?_⟩
  refine Option.bind_eq_some_iff.mpr ⟨_, readMark_cons (by decide), ?_⟩
  refine Option.bind_eq_some_iff.mpr ⟨_, readPart_padded hmonth, ?_⟩
  refine Option.bind_eq_some_iff.mpr ⟨_, readMark_cons (by decide), ?_⟩
  refine Option.bind_eq_some_iff.mpr ⟨_, readPart_padded hday, ?_⟩
  refine Option.bind_eq_some_iff.mpr ⟨_, rfl, ?_⟩
  refine Option.bind_eq_some_iff.mpr ⟨_, readPart_padded hhour, ?_⟩
  refine Option.bind_eq_some_iff.mpr ⟨_, readMark_cons (by decide), ?_⟩
  refine Option.bind_eq_some_iff.mpr ⟨_, readPart_padded hminute, ?_⟩
  refine Option.bind_eq_some_iff.mpr ⟨_, readMark_cons (by decide), ?_⟩
  refine Option.bind_eq_some_iff.mpr ⟨_, readPart_padded hsecond, ?_⟩
  refine Option.bind_eq_some_iff.mpr ⟨_, rfl, ?_⟩
  refine Option.bind_eq_some_iff.mpr ⟨_, rfl, ?_⟩
  exact ofNumbers_eq t

end NodeInventory.Text.Timestamp
