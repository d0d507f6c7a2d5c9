import NodeInventory.Json.Basic
import NodeInventory.Word

/-!
# Sound JSON values

A value that is kept, rather than skipped over, has to be sound: every string literal in it denotes
a text, every number lies in the range of double precision, and it is not nested too deeply.

Whether a number is in range is decided as if it were read digit by digit into a word of 64 bits and
scaled by a power of ten in double precision: digits that no longer fit the word are dropped, and
the scaling rounds to 53 bits. Rounding and range are stated on integers.
-/

namespace NodeInventory.Json

/-! ## The range of double precision -/

/-- `n` rounded to 53 significant bits, a tie going to the even neighbour. -/
def round53 (n : Nat) : Nat :=
  let shift := n.log2 + 1 - 53
  let unit := Nat.pow 2 shift
  let q := n / unit
  let r := n % unit
  if 2 * r > unit || (2 * r == unit && q % 2 == 1) then (q + 1) * unit else q * unit

/-- The greatest number of a word. -/
def maxWord : Nat := Word.maxNat 64

/-- Drops digits at the end until the number fits a word, and raises the exponent by as many. -/
def fitWord (digits : Nat) (exponent : Int) : Nat × Int :=
  if digits ≤ maxWord then (digits, exponent) else fitWord (digits / 10) (exponent + 1)
termination_by digits
decreasing_by
  simp only [maxWord] at *
  omega

/-- The least integer that double precision rounds to infinity. -/
def overflowBound : Nat := Nat.pow 2 1024 - Nat.pow 2 970

/-- Whether the scaled number stays below infinity. -/
def scalesInRange (digits : Nat) (exponent : Int) : Bool :=
  let (s, e) := fitWord digits exponent
  s == 0 || e < 0 || (e ≤ 308 && round53 s * round53 (Nat.pow 10 e.toNat) < overflowBound)

/-- Whether a number is in the range of double precision. -/
def Number.inRange : Number → Bool
  | .integer _ n => scalesInRange n 0
  | .decimal _ n e => scalesInRange n e

/-! ## Soundness -/

mutual

/-- Whether a value is sound and opens at most `depth` arrays and objects around any one place. -/
def isSound (depth : Nat) : Json → Bool
  | null => true
  | bool _ => true
  | number n => n.inRange
  | string s => s.isSome
  | array items => 0 < depth && areSound (depth - 1) items
  | object members => 0 < depth && membersSound (depth - 1) members

/-- Whether all items are sound. -/
def areSound (depth : Nat) : List Json → Bool
  | [] => true
  | v :: vs => isSound depth v && areSound depth vs

/-- Whether all keys denote texts and all values are sound. -/
def membersSound (depth : Nat) : List (Option String × Json) → Bool
  | [] => true
  | (k, v) :: ms => k.isSome && isSound depth v && membersSound depth ms

end

/-- The greatest number of arrays and objects that may be open at once in a text. -/
def maxDepth : Nat := 127

@[simp] theorem isSound_text (depth : Nat) (s : String) : isSound depth (text s) = true := by
  simp [text, isSound]

end NodeInventory.Json
