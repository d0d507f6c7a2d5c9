import NodeInventory.Quantity.Basic
import NodeInventory.Text.Blank
import NodeInventory.Text.Integer
import NodeInventory.Text.Quoted

/-!
# Reading quantities

A quantity is written as a sign, a decimal number and a suffix; blanks around it do not count. The
number is the longest run of digits and points, and all that follows it is the suffix. The number is
scaled by the suffix and rounded up to a nano unit, and the sign is applied last, so negative
quantities are rounded away from zero as well.

Of two faults the one in the number is told, then the one in the suffix, then that the scaled number
is out of range. A decimal scaling is out of range as soon as its power of ten is, whatever the
number. Products and powers of amounts are looked at before they are formed; net exponents and the
sums from which divisions round up are not.
-/

namespace NodeInventory.Quantity

/-- What a suffix multiplies by. -/
inductive Scale
  /-- A power of two. -/
  | binary (shift : Nat)
  /-- A power of ten. -/
  | decimal (exp : Int)
deriving DecidableEq, Repr

/-- Why a number cannot be read. -/
inductive NumberFault
  | missing
  | secondPoint
  | tooManyDigits
  | tooManyFractionDigits
deriving DecidableEq, Repr

/-- Why a suffix cannot be read. -/
inductive SuffixFault
  | unknown (suffix : String)
  | exponentText (suffix : String) (fault : Text.IntegerFault)
  | exponentRange (exp : Int)
deriving DecidableEq, Repr

/-- Why a quantity cannot be read. -/
inductive Fault
  | empty
  | number (input : String) (fault : NumberFault)
  | suffix (input : String) (fault : SuffixFault)
  | outOfRange (input : String)
deriving DecidableEq, Repr

/-- The wording of a fault in the number. -/
def NumberFault.message : NumberFault → String
  | .missing => "missing numeric value"
  | .secondPoint => "more than one decimal point"
  | .tooManyDigits => "too many digits"
  | .tooManyFractionDigits => "too many fractional digits"

/-- The wording of a fault in the suffix, outermost first. -/
def SuffixFault.chain : SuffixFault → List String
  | .unknown s => ["unknown suffix " ++ Text.quoted s]
  | .exponentText s f => ["invalid exponent " ++ Text.quoted s, f.message]
  | .exponentRange n => ["exponent " ++ toString n ++ " is out of range"]

/-- The wording of a fault, outermost first. It quotes the input with the blanks around it. -/
def Fault.chain : Fault → List String
  | .empty => ["empty quantity"]
  | .number s f => ["invalid quantity " ++ Text.quoted s, f.message]
  | .suffix s f => ("invalid quantity suffix in " ++ Text.quoted s) :: f.chain
  | .outOfRange s => ["quantity " ++ Text.quoted s ++ " is out of range"]

/-! ## Numbers -/

/-- A character of a number. -/
def isNumberChar (c : Char) : Bool := ('0' ≤ c && c ≤ '9') || c == '.'

/-- The greatest number that digits may spell, and the most places after the point. -/
def maxMantissa : Nat := Word.maxInt 128

/-- The value of a run of digits, unless it exceeds the greatest number. -/
def readMantissa : Nat → List Char → Option Nat
  | acc, [] => some acc
  | acc, c :: cs =>
    let next := acc * 10 + (c.toNat - '0'.toNat)
    if next ≤ maxMantissa then readMantissa next cs else none

/-- Reads a run of digits and points as the number of all digits and the count of places after the
point. -/
def readNumber (cs : List Char) : Except NumberFault (Nat × Nat) :=
  let whole := cs.takeWhile (· != '.')
  let places := (cs.dropWhile (· != '.')).drop 1
  if whole.isEmpty && places.isEmpty then .error .missing
  else if places.contains '.' then .error .secondPoint
  else
    match readMantissa 0 (whole ++ places) with
    | none => .error .tooManyDigits
    | some mantissa =>
      if places.length ≤ 30 then .ok (mantissa, places.length) else .error .tooManyFractionDigits

/-! ## Suffixes -/

/-- The suffixes that are fixed words. -/
def fixedSuffix? (suffix : String) : Option (Family × Scale) :=
  match suffix with
  | "" => some (.decimal, .decimal 0)
  | "n" => some (.decimal, .decimal (-9))
  | "u" => some (.decimal, .decimal (-6))
  | "m" => some (.decimal, .decimal (-3))
  | "k" => some (.decimal, .decimal 3)
  | "M" => some (.decimal, .decimal 6)
  | "G" => some (.decimal, .decimal 9)
  | "T" => some (.decimal, .decimal 12)
  | "P" => some (.decimal, .decimal 15)
  | "E" => some (.decimal, .decimal 18)
  | "Ki" => some (.binary, .binary 10)
  | "Mi" => some (.binary, .binary 20)
  | "Gi" => some (.binary, .binary 30)
  | "Ti" => some (.binary, .binary 40)
  | "Pi" => some (.binary, .binary 50)
  | "Ei" => some (.binary, .binary 60)
  | _ => none

/-- The greatest exponent that can be written out as such. -/
def exponentLimit : Nat := Word.maxInt 32

/-- Reads what follows the letter of an exponent. -/
def readExponent (suffix : String) (digits : List Char) : Except SuffixFault (Family × Scale) :=
  match Text.readInt exponentLimit (String.ofList digits) with
  | .error f => .error (.exponentText suffix f)
  | .ok n => if -30 ≤ n ∧ n ≤ 30 then .ok (.exponent, .decimal n) else .error (.exponentRange n)

/-- Reads a suffix: a fixed word, or an exponent. -/
def readSuffix (suffix : List Char) : Except SuffixFault (Family × Scale) :=
  match fixedSuffix? (String.ofList suffix) with
  | some r => .ok r
  | none =>
    match suffix with
    | 'e' :: digits | 'E' :: digits => readExponent (String.ofList suffix) digits
    | _ => .error (.unknown (String.ofList suffix))

/-! ## Amounts -/

open Calculation (operate)

/-- Words for exponents. -/
abbrev short : Word.Kind := .signed 32

/-- The number scaled to nano units and rounded up, unless the scaling leaves the range. -/
def scaled? (mantissa places : Nat) : Scale → Calculation (Option Int)
  | .binary shift => do
    let factor ← operate long (Nat.pow 2 shift)
    match (long.checked (mantissa * factor)).bind fun n ↦ long.checked (n * nanosPerUnit) with
    | none => pure none
    | some n => do
      let d ← operate long (Nat.pow 10 places)
      let n ← ceilDiv n d
      pure (some n)
  | .decimal exp => do
    let sum ← operate short (exp + 9)
    let shift ← operate short (sum - places)
    if 0 ≤ shift then
      pure ((long.checked (Nat.pow 10 shift.toNat)).bind fun power ↦
        long.checked (mantissa * power))
    else
      match long.checked (Nat.pow 10 (-shift).toNat) with
      | some d => do
        let n ← ceilDiv mantissa d
        pure (some n)
      -- below one nano unit whatever the number is, so all that matters is whether it is zero
      | none => pure (some (if 0 < mantissa then 1 else 0))

/-- Reads the number and the suffix of a quantity without its sign. -/
def readUnsigned (input : String) (cs : List Char) : Calculation (Except Fault (Int × Family)) :=
  match readNumber (cs.takeWhile isNumberChar) with
  | .error f => pure (.error (.number input f))
  | .ok (mantissa, places) =>
    match readSuffix (cs.dropWhile isNumberChar) with
    | .error f => pure (.error (.suffix input f))
    | .ok (family, scale) => do
      match ← scaled? mantissa places scale with
      | none => pure (.error (.outOfRange input))
      | some n => pure (.ok (n, family))

/-- Puts a sign before what was read without one. -/
def withSign (negative : Bool) :
    Except Fault (Int × Family) → Calculation (Except Fault Quantity)
  | .error f => pure (.error f)
  | .ok (n, family) => do
    let nanos ← if negative then operate long (-n) else pure n
    pure (.ok ⟨nanos, some family⟩)

/-- Reads a quantity. -/
def parse (input : String) : Calculation (Except Fault Quantity) :=
  match Text.trim input.toList with
  | [] => pure (.error .empty)
  | '-' :: cs => readUnsigned input cs >>= withSign true
  | '+' :: cs | cs => readUnsigned input cs >>= withSign false

end NodeInventory.Quantity
