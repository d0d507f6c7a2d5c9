import NodeInventory.Proofs.Quantity.RoundTrip

/-!
# Where quantities leave their words

A numeral is read exactly, or refused, unless the sum by which it is rounded leaves the word. The
values of a quantity are exact unless its magnitude and the unit together leave the word, and its
text always is (`exact_unless_rounding_overruns`).

Nothing else can leave a word: not the net exponent, nor the change of a sign that is read, nor the
counting of steps when a quantity is written. But the sum is not looked at before it is formed, and
close to the end of the word numerals that fit are not read, and quantities have no value
(`rounding_overruns_the_word`).
-/

namespace NodeInventory.Quantity

/-- Reading a text leaves a word just if a numeral is written in it that fits while the sum by which
it is rounded does not. -/
theorem parse_eq_overrun_iff {s : String} :
    parse s = .overrun ↔ ∃ w : Numeral, w.WrittenIn s ∧ w.Fits ∧ w.Overruns := by
  constructor
  · intro h
    obtain ⟨w, hw⟩ := exists_writtenIn_of_parse fun f hf ↦ by rw [h] at hf; cases hf
    refine ⟨w, hw, ?_, ?_⟩
    · by_contra hfits
      obtain ⟨f, hf⟩ := Numeral.parse_of_not_fits hw hfits
      rw [h] at hf
      cases hf
    · by_contra hsum
      by_cases hfits : w.Fits
      · rw [Numeral.parse_of_fits hw hfits hsum] at h
        cases h
      · obtain ⟨f, hf⟩ := Numeral.parse_of_not_fits hw hfits
        rw [h] at hf
        cases hf
  · rintro ⟨w, hw, hfits, hsum⟩
    exact Numeral.parse_of_overruns hw hfits hsum

/-- A text is read without leaving a word just if no numeral is written in it that fits while the
sum by which it is rounded does not: then a numeral that fits is read as what it stands for, and one
that does not fit is always refused. The values of a quantity that comes about are exact just if
there is room for its magnitude and the unit together, and its text always is. -/
theorem exact_unless_rounding_overruns (s : String) {q : Quantity} (hq : Obtained q) :
    (parse s = .overrun ↔ ∃ w : Numeral, w.WrittenIn s ∧ w.Fits ∧ w.Overruns) ∧
    (∀ w : Numeral, w.WrittenIn s →
      (¬ w.Fits → ∃ f, parse s = .exact (.error f)) ∧
      (w.Fits → ¬ w.Overruns → parse s = .exact (.ok w.quantity))) ∧
    q.milliValue = (if |q.nanos| + 10 ^ 6 ≤ maxNanos then .exact (awayFromZero (q.nanos / 10 ^ 6))
      else .overrun) ∧
    q.value = (if |q.nanos| + 10 ^ 9 ≤ maxNanos then .exact (awayFromZero (q.nanos / 10 ^ 9))
      else .overrun) ∧
    ∃ text, q.render = .exact text := by
  refine ⟨parse_eq_overrun_iff, fun w hw ↦ ?_, milliValue_eq q, value_eq q, ?_⟩
  · exact ⟨Numeral.parse_of_not_fits hw, Numeral.parse_of_fits hw⟩
  · obtain ⟨text, htext, -⟩ := exists_render hq.holds
    exact ⟨text, htext⟩

/-- The greatest amount of which the value is exact. -/
theorem greatest_exact_value :
    ∃ q, Obtained q ∧ q.nanos + 10 ^ 9 = maxNanos ∧
      q.value = .exact 170141183460469231731687303715 ∧ ∃ text, q.render = .exact text := by
  let text := "170141183460469231731687303714884105727n"
  have hread : Obtained ⟨170141183460469231731687303714884105727, some .decimal⟩ :=
    .read (s := text) (by decide)
  obtain ⟨-, -, -, hvalue, hrender⟩ := exact_unless_rounding_overruns text hread
  refine ⟨_, hread, by decide, ?_, hrender⟩
  rw [hvalue, if_pos (by decide)]
  congr 1
  rw [awayFromZero, if_pos (by norm_num), Int.ceil_eq_iff]
  norm_num

/-- A numeral that fits is not read, since the sum by which it is rounded leaves the word. The
greatest amount is read, and has no values for the same reason; nor has the least, to which two
amounts add up. -/
theorem rounding_overruns_the_word :
    parse "17014118346046923173168730371588410572.7n" = .overrun ∧
    Obtained ⟨maxNanos, some .decimal⟩ ∧
    milliValue ⟨maxNanos, some .decimal⟩ = .overrun ∧ value ⟨maxNanos, some .decimal⟩ = .overrun ∧
    Obtained ⟨minNanos, some .decimal⟩ ∧
    milliValue ⟨minNanos, some .decimal⟩ = .overrun ∧
    value ⟨minNanos, some .decimal⟩ = .overrun := by
  refine ⟨by decide, ?_, by decide, by decide, ?_, by decide, by decide⟩
  · exact .read (s := "170141183460469231731687303715884105727n") (by decide)
  · have hmost : Obtained ⟨-170141183460469231731687303714884105727, some .decimal⟩ :=
      .read (s := "-170141183460469231731687303714884105727n") (by decide)
    have hrest : Obtained ⟨-1000000001, some .decimal⟩ := .read (s := "-1000000001n") (by decide)
    exact .sum hmost hrest (by decide)

end NodeInventory.Quantity
