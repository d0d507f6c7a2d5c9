import NodeInventory.Calculation

/-!
# Quantities

An amount of a resource: a whole number of nano units, together with the family of suffixes in which
it was written. The family says only how the amount is written again; the one quantity without a
family is the zero from which sums start, and it takes over the family of the first quantity that is
added to it.

Amounts are held in words of 128 bits, and a sum that leaves the word is refused. Rounding is always
away from zero, so a request is never made to look smaller than it is. It starts from a sum of its
own, which nobody looks at before it is formed; nor does anybody look at a change of sign. Division
drops the remainder, on both sides of zero.
-/

namespace NodeInventory

/-- The families of suffixes. -/
inductive Quantity.Family
  /-- Powers of 1024, from `Ki` to `Ei`. -/
  | binary
  /-- Powers of 1000, from `n` to `E`. -/
  | decimal
  /-- A power of ten after the letter `e`. -/
  | exponent
deriving DecidableEq, Repr

/-- An amount of a resource. -/
structure Quantity where
  /-- The amount in nano units. -/
  nanos : Int
  family : Option Quantity.Family
deriving DecidableEq, Repr

namespace Quantity

/-- The zero from which sums start. -/
def zero : Quantity := ⟨0, none⟩

instance : Inhabited Quantity := ⟨zero⟩

/-- The greatest amount, in nano units. -/
def maxNanos : Int := Word.maxInt 128

/-- The least amount, in nano units. -/
def minNanos : Int := Word.minInt 128

/-- The number of nano units in one unit. -/
def nanosPerUnit : Int := 1000000000

/-- The number of nano units in one milli unit. -/
def nanosPerMilli : Int := 1000000

/-- Words for amounts. -/
abbrev long : Word.Kind := .signed 128

open Calculation (operate)

/-- `n / d` rounded up, for `n` not negative. -/
def ceilDiv (n d : Int) : Calculation Int := do
  let sum ← operate long (n + d)
  let sum ← operate long (sum - 1)
  operate long (sum.tdiv d)

/-- `n / d` rounded away from zero. -/
def divAway (n d : Int) : Calculation Int :=
  if 0 ≤ n then ceilDiv n d
  else do
    let magnitude ← operate long (-n)
    let quotient ← ceilDiv magnitude d
    operate long (-quotient)

/-- The sum of two quantities, unless it is out of bounds. -/
def add? (a b : Quantity) : Option Quantity :=
  let sum := a.nanos + b.nanos
  if minNanos ≤ sum ∧ sum ≤ maxNanos then some ⟨sum, a.family <|> b.family⟩ else none

/-- Whether the amount is zero. -/
def isZero (q : Quantity) : Bool := q.nanos == 0

/-- The amount in milli units, rounded away from zero. -/
def milliValue (q : Quantity) : Calculation Int := divAway q.nanos nanosPerMilli

/-- The amount in whole units, rounded away from zero. -/
def value (q : Quantity) : Calculation Int := divAway q.nanos nanosPerUnit

/-- A sum holds both amounts and nothing else. -/
theorem nanos_of_add? {a b c : Quantity} (h : a.add? b = some c) : c.nanos = a.nanos + b.nanos := by
  simp only [add?] at h
  split at h
  · cases h; rfl
  · simp at h

end Quantity

end NodeInventory
