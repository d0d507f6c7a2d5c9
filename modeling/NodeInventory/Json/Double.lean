import NodeInventory.Json.Sound

/-!
# Numbers in double precision

A value that is kept holds its integers of 64 bits as they are, and its other numbers in double
precision. Such a number is read as the range of numbers is decided: a word of digits is rounded,
multiplied or divided by a power of ten that is rounded itself, and the outcome is rounded again. So
the number that is held need not be the nearest to the one that was written.

It is written with as few digits as tell it from its neighbours. They tell it to those who round
once; who reads them as above may find a neighbour.
-/

namespace NodeInventory.Json

/-- A number in double precision: its digits in base two, and the power of two to multiply them
by. -/
structure Double where
  mantissa : Nat
  exponent : Int
deriving DecidableEq, Repr

/-- The power of two at or below `p / q`. -/
def log2Ratio (p q : Nat) : Int :=
  let n : Int := (p.log2 : Int) - q.log2
  if q * Nat.pow 2 n.toNat ≤ p * Nat.pow 2 (-n).toNat then n else n - 1

/-- The number nearest to `p / q`, a tie going to the even neighbour. -/
def nearest (p q : Nat) : Double :=
  let e := max (-1074) (log2Ratio p q - 52)
  let a := p * Nat.pow 2 (-e).toNat
  let b := q * Nat.pow 2 e.toNat
  let m := a / b
  let r := a % b
  let m := if 2 * r > b || (2 * r == b && m % 2 == 1) then m + 1 else m
  if m = Nat.pow 2 53 then ⟨Nat.pow 2 52, e + 1⟩ else ⟨m, e⟩

/-- The number as which the digits are read, with the power of ten to multiply them by. The greatest
power to divide by is the 308th, so it may take two steps. -/
def scale (digits : Nat) (exponent : Int) : Double :=
  let w := fitWord digits exponent
  let power (e : Int) := round53 (Nat.pow 10 e.toNat)
  if w.1 = 0 || w.2 < -616 then ⟨0, -1074⟩
  else if 0 ≤ w.2 then nearest (round53 w.1 * power w.2) 1
  else if -308 ≤ w.2 then nearest (round53 w.1) (power (-w.2))
  else
    let d := nearest (round53 w.1) (power 308)
    nearest d.mantissa (Nat.pow 2 (-d.exponent).toNat * power (-w.2 - 308))

namespace Double

/-- Whether the number is the nearest to a multiple of a power of ten. -/
def isTold (d : Double) (c : Nat) (k : Int) : Bool :=
  nearest (c * Nat.pow 10 k.toNat) (Nat.pow 10 (-k).toNat) = d

/-- The multiple of the power of ten by which the number is told, if it is told by one: the nearer
neighbour, or else the other one. -/
def digitsAt (d : Double) (k : Int) : Option (Nat × Int) :=
  let a := d.mantissa * Nat.pow 2 d.exponent.toNat * Nat.pow 10 (-k).toNat
  let b := Nat.pow 2 (-d.exponent).toNat * Nat.pow 10 k.toNat
  let c := a / b
  let r := a % b
  let neighbours := if 2 * r < b || (2 * r == b && c % 2 == 0) then [c, c + 1] else [c + 1, c]
  (neighbours.find? fun c ↦ d.isTold c k).map fun c ↦ (c, k)

/-- All digits of the number, with the power of ten to multiply them by. -/
def allDigits (d : Double) : Nat × Int :=
  if 0 ≤ d.exponent then (d.mantissa * Nat.pow 2 d.exponent.toNat, 0)
  else (d.mantissa * Nat.pow 5 (-d.exponent).toNat, d.exponent)

/-- The fewest digits that tell the number, with the power of ten to multiply them by. -/
def digits (d : Double) : Nat × Int :=
  ((List.range 650).findSome? fun (i : Nat) ↦ d.digitsAt (309 - i)).getD d.allDigits

/-- The number as it is written. Below the sixteenth power of ten an integer has a point and a
zero. -/
def written (negative : Bool) (d : Double) : Number :=
  let w := d.digits
  if d.mantissa = 0 then .decimal negative 0 (-1)
  else if 0 ≤ w.2 ∧ w.1 * Nat.pow 10 w.2.toNat < Nat.pow 10 16 then
    .decimal negative (w.1 * Nat.pow 10 (w.2.toNat + 1)) (-1)
  else .decimal negative w.1 w.2

end Double

/-! ## What is held -/

/-- Whether a number is an integer of 64 bits, with or without a sign. -/
def Number.isWord : Number → Bool
  | .integer false n => n ≤ maxWord
  | .integer true n => 0 < n && n ≤ Nat.pow 2 63
  | .decimal _ _ _ => false

/-- The number that is held of one that was read, as it is written. -/
def Number.held (n : Number) : Number :=
  if n.isWord then n
  else
    match n with
    | .integer negative digits => (scale digits 0).written negative
    | .decimal negative digits exponent => (scale digits exponent).written negative

mutual

/-- What is held of a value. -/
def held : Json → Json
  | null => null
  | bool b => bool b
  | number n => number n.held
  | string s => string s
  | array items => array (heldItems items)
  | object members => object (heldMembers members)

/-- What is held of items. -/
def heldItems : List Json → List Json
  | [] => []
  | v :: vs => held v :: heldItems vs

/-- What is held of members. -/
def heldMembers : List (Option String × Json) → List (Option String × Json)
  | [] => []
  | (k, v) :: ms => (k, held v) :: heldMembers ms

end

mutual

/-- The numbers in a value. -/
def numbers : Json → List Number
  | number n => [n]
  | array items => numbersOfItems items
  | object members => numbersOfMembers members
  | _ => []

/-- The numbers in items. -/
def numbersOfItems : List Json → List Number
  | [] => []
  | v :: vs => numbers v ++ numbersOfItems vs

/-- The numbers in members. -/
def numbersOfMembers : List (Option String × Json) → List Number
  | [] => []
  | (_, v) :: ms => numbers v ++ numbersOfMembers ms

end

end NodeInventory.Json
