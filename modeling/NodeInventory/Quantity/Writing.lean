import NodeInventory.Quantity.Basic

/-!
# Writing quantities

A quantity is written as a whole number and a suffix of its family, with the largest step that
leaves the number whole: powers of 1024 up to `Ei` for the binary family, powers of 1000 from nano
to exa for the others. A binary quantity with a fraction of a unit has no binary suffix that would
do and is written in the decimal family. Zero is written without a suffix.
-/

namespace NodeInventory.Quantity

open Calculation (operate)

/-- Words for places in a table. -/
abbrev place : Word.Kind := .unsigned 64

/-- Divides by `base` while this leaves no remainder, at most the given number of times, and adds a
step to the count each time. -/
def factorOut (base : Nat) (kind : Word.Kind) (step : Int) :
    Nat → Int → Int → Calculation (Int × Int)
  | 0, n, count => pure (n, count)
  | rounds + 1, n, count => do
    let remainder ← operate long (n.tmod base)
    if remainder = 0 then
      let n ← operate long (n.tdiv base)
      let count ← operate kind (count + step)
      factorOut base kind step rounds n count
    else pure (n, count)

/-- The suffixes of the binary family, by power of 1024. -/
def binarySuffixes : List String := ["", "Ki", "Mi", "Gi", "Ti", "Pi", "Ei"]

/-- The suffix of the decimal family for a power of ten. -/
def decimalSuffix : Int → String
  | -9 => "n"
  | -6 => "u"
  | -3 => "m"
  | 3 => "k"
  | 6 => "M"
  | 9 => "G"
  | 12 => "T"
  | 15 => "P"
  | 18 => "E"
  | _ => ""

/-- The mantissa and the power of ten of nano units. -/
def decimalParts (nanos : Int) : Calculation (Int × Int) :=
  factorOut 1000 (.signed 32) 3 9 nanos (-9)

/-- Writes nano units in the decimal family. -/
def renderDecimal (nanos : Int) : Calculation String := do
  let (m, exp) ← decimalParts nanos
  pure (toString m ++ decimalSuffix exp)

/-- Writes nano units with an exponent, which is left out where it is zero. -/
def renderExponent (nanos : Int) : Calculation String := do
  let (m, exp) ← decimalParts nanos
  pure (if exp = 0 then toString m else toString m ++ "e" ++ toString exp)

/-- Writes nano units in the binary family, if they are whole units. -/
def renderBinary (nanos : Int) : Calculation String := do
  let fraction ← operate long (nanos.tmod nanosPerUnit)
  if fraction = 0 then
    let units ← operate long (nanos.tdiv nanosPerUnit)
    let (m, k) ← factorOut 1024 place 1 6 units 0
    pure (toString m ++ binarySuffixes.getD k.toNat "")
  else renderDecimal nanos

/-- The text of a quantity. -/
def render (q : Quantity) : Calculation String :=
  if q.nanos = 0 then pure "0"
  else
    match q.family with
    | some .exponent => renderExponent q.nanos
    | some .binary => renderBinary q.nanos
    | some .decimal | none => renderDecimal q.nanos

end NodeInventory.Quantity
