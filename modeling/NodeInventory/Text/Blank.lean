/-!
# Blank characters

The characters with the property White_Space, and texts without them at either end. The property
holds of more than the ASCII blanks: of NEXT LINE and NO-BREAK SPACE, of the spaces of other
scripts and widths, and of the line and paragraph separators. ZERO WIDTH SPACE and the byte order
mark do not have it.
-/

namespace NodeInventory.Text

/-- Whether a character has the property White_Space. -/
def isBlank (c : Char) : Bool :=
  let n := c.toNat
  (9 ≤ n && n ≤ 13) || n == 0x20 || n == 0x85 || n == 0xA0 || n == 0x1680 ||
    (0x2000 ≤ n && n ≤ 0x200A) || n == 0x2028 || n == 0x2029 || n == 0x202F || n == 0x205F ||
    n == 0x3000

/-- The characters from the first to the last that is not blank. -/
def trim (cs : List Char) : List Char :=
  ((cs.dropWhile isBlank).reverse.dropWhile isBlank).reverse

/-- Every blank of the ASCII range is a blank. -/
theorem isBlank_of_isWhitespace {c : Char} (h : c.isWhitespace = true) : isBlank c = true := by
  simp only [Char.isWhitespace, Bool.or_eq_true, decide_eq_true_eq] at h
  rcases h with ((rfl | rfl) | rfl) | rfl <;> rfl

@[simp] theorem trim_nil : trim [] = [] := rfl

end NodeInventory.Text
