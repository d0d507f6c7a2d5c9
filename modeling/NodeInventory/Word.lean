/-!
# Words

Numbers of a bounded width. A word of so many bits holds as many numbers as there are ways to set
its bits: the natural numbers from zero on, or, with a sign, the integers on both sides of zero, of
which there is one more below than above.
-/

namespace NodeInventory.Word

/-- How many numbers a word of the given width holds. -/
def count (bits : Nat) : Nat := Nat.pow 2 bits

/-- The greatest natural number of a word. -/
def maxNat (bits : Nat) : Nat := count bits - 1

/-- The greatest integer of a word with a sign. -/
def maxInt (bits : Nat) : Nat := count (bits - 1) - 1

/-- The least integer of a word with a sign. -/
def minInt (bits : Nat) : Int := -(count (bits - 1) : Int)

theorem count_pos (bits : Nat) : 0 < count bits := Nat.pow_pos (by decide)

/-- There is one number more below zero than above. -/
theorem minInt_eq (bits : Nat) : minInt bits = -(maxInt bits : Int) - 1 := by
  have := count_pos (bits - 1)
  simp only [minInt, maxInt]
  omega

end NodeInventory.Word
