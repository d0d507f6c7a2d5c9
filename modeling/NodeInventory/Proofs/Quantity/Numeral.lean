import Mathlib.Data.Rat.Floor
import NodeInventory.Proofs.Text
import NodeInventory.Quantity.Reading
import NodeInventory.Quantity.Writing

/-!
# Numerals

A *numeral* is a quantity as it is written: a sign, digits with a point among them or without one,
and a suffix. It says what it stands for on its own account, without being read: its magnitude is
a rational number, and its quantity is that number rounded up to a whole number of nano units, with
the sign put before it (`Numeral.quantity`).

A numeral *fits* if it can be held in a word of 128 bits on the way: its digits as one number, that
number scaled to nano units, and, where the scale is a power of ten, the power itself. It *overruns*
if it is rounded from a sum that such a word does not hold.
-/

namespace NodeInventory.Quantity

/-! ## Digits -/

/-- Digits, at least one, and perhaps a point among them. -/
structure PointedDigits where
  whole : List Char
  /-- The digits after the point, if there is a point. -/
  fraction : Option (List Char)
  isDigit : ∀ c ∈ whole ++ fraction.getD [], c.isDigit
  ne_nil : whole ++ fraction.getD [] ≠ []

namespace PointedDigits

/-- The digits after the point. -/
def places (d : PointedDigits) : List Char := d.fraction.getD []

/-- How digits with a point are written. -/
def chars (d : PointedDigits) : List Char :=
  match d.fraction with
  | none => d.whole
  | some places => d.whole ++ '.' :: places

/-- The number that all digits spell together. -/
def mantissa (d : PointedDigits) : ℕ := Nat.ofDigitChars 10 (d.whole ++ d.places) 0

theorem isDigit_or_eq_point_of_mem {d : PointedDigits} {c : Char} (hc : c ∈ d.chars) :
    c.isDigit ∨ c = '.' := by
  have hdigit := d.isDigit c
  unfold chars at hc
  split at hc
  · next h => exact .inl (hdigit (by simp [h, hc]))
  · next places h =>
    rw [List.mem_append, List.mem_cons] at hc
    obtain hc | rfl | hc := hc
    · exact .inl (hdigit (by simp [hc]))
    · exact .inr rfl
    · exact .inl (hdigit (by simp [h, hc]))

theorem chars_ne_nil (d : PointedDigits) : d.chars ≠ [] := by
  have hne := d.ne_nil
  unfold chars
  split
  · next h => simpa [h] using hne
  · simp

end PointedDigits

/-! ## Suffixes -/

/-- The suffixes of the decimal family, by power of 1000 of a nano unit. -/
def decimalSuffixes : List String := ["n", "u", "m", "", "k", "M", "G", "T", "P", "E"]

/-- What may follow the digits. -/
inductive Suffix
  /-- The word for a power of 1000 of a nano unit. -/
  | decimal (power : Fin 10)
  /-- The word for a power of 1024, the first of them for 1024 itself. -/
  | binary (power : Fin 6)
  /-- A power of ten, written out. -/
  | exponent (letter : Char) (exp : Text.SignedDigits) (isLetter : letter = 'e' ∨ letter = 'E')
      (inRange : -30 ≤ exp.value ∧ exp.value ≤ 30)

namespace Suffix

/-- How a suffix is written. -/
def chars : Suffix → List Char
  | decimal power => (decimalSuffixes.getD power "").toList
  | binary power => (binarySuffixes.getD (power + 1) "").toList
  | exponent letter exp _ _ => letter :: exp.chars

/-- What a suffix multiplies by. -/
def scale : Suffix → Scale
  | decimal power => .decimal (3 * power - 9)
  | binary power => .binary (10 * (power + 1))
  | exponent _ exp _ _ => .decimal exp.value

/-- The family to which a suffix belongs. -/
def family : Suffix → Family
  | decimal _ => .decimal
  | binary _ => .binary
  | exponent _ _ _ _ => .exponent

end Suffix

/-- The number by which a scale multiplies. -/
def Scale.factor : Scale → ℚ
  | binary shift => 2 ^ shift
  | decimal exp => 10 ^ exp

/-! ## Numerals -/

/-- A quantity as it is written. -/
structure Numeral where
  sign : Text.Sign
  digits : PointedDigits
  suffix : Suffix

namespace Numeral

/-- How a numeral is written. -/
def chars (w : Numeral) : List Char := w.sign.chars ++ w.digits.chars ++ w.suffix.chars

/-- A text that holds a numeral, and blanks around it. -/
def WrittenIn (w : Numeral) (s : String) : Prop :=
  ∃ before after, (∀ c ∈ before, Text.isBlank c) ∧ (∀ c ∈ after, Text.isBlank c) ∧
    s.toList = before ++ w.chars ++ after

/-- The number of units that a numeral stands for, apart from its sign. -/
def magnitude (w : Numeral) : ℚ :=
  w.digits.mantissa / 10 ^ w.digits.places.length * w.suffix.scale.factor

/-- The quantity that a numeral stands for. -/
def quantity (w : Numeral) : Quantity :=
  ⟨w.sign.apply ⌈w.magnitude * 10 ^ 9⌉, some w.suffix.family⟩

end Numeral

/-- A number of so many places can be scaled to nano units. Of a power of ten that divides nothing
is asked. -/
def Scale.Fits (mantissa places : ℕ) : Scale → Prop
  | binary shift => mantissa * 2 ^ shift * 10 ^ 9 < 2 ^ 127
  | decimal exp => 0 ≤ exp + 9 - places →
    10 ^ (exp + 9 - places).toNat < 2 ^ 127 ∧ mantissa * 10 ^ (exp + 9 - places).toNat < 2 ^ 127

/-- A number of so many places is scaled by a division, and the sum from which the division starts
to round up leaves the word. -/
def Scale.Overruns (mantissa places : ℕ) : Scale → Prop
  | binary shift => 2 ^ 127 ≤ mantissa * 2 ^ shift * 10 ^ 9 + 10 ^ places
  | decimal exp => exp + 9 - places < 0 ∧ 10 ^ (places - (exp + 9)).toNat < 2 ^ 127 ∧
    2 ^ 127 ≤ mantissa + 10 ^ (places - (exp + 9)).toNat

namespace Numeral

/-- A numeral that can be held in a word at every stage of its reading. -/
def Fits (w : Numeral) : Prop :=
  w.digits.mantissa < 2 ^ 127 ∧ w.digits.places.length ≤ 30 ∧
    w.suffix.scale.Fits w.digits.mantissa w.digits.places.length

/-- A numeral so close to the end of the word that the word does not hold the sum by which it is
rounded. -/
def Overruns (w : Numeral) : Prop :=
  w.suffix.scale.Overruns w.digits.mantissa w.digits.places.length

end Numeral

end NodeInventory.Quantity
