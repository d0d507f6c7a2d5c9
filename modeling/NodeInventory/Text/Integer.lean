/-!
# Integers as text

An integer is written as an optional sign followed by at least one ASCII digit; a minus sign is a
sign only where negative values have a place. Reading stops at the first character that settles the
outcome, from the left: a character that is no digit, or a digit with which the value leaves the
range. So a long run of digits is too large even when something else follows it.
-/

namespace NodeInventory.Text

/-- Why a text is not an integer of the wanted range. -/
inductive IntegerFault
  | empty
  | invalidDigit
  | tooLarge
  | tooSmall
deriving DecidableEq, Repr

/-- The wording of a fault. -/
def IntegerFault.message : IntegerFault → String
  | .empty => "cannot parse integer from empty string"
  | .invalidDigit => "invalid digit found in string"
  | .tooLarge => "number too large to fit in target type"
  | .tooSmall => "number too small to fit in target type"

/-- The value of an ASCII digit. -/
def digitValue? (c : Char) : Option Nat :=
  if '0' ≤ c ∧ c ≤ '9' then some (c.toNat - '0'.toNat) else none

/-- Reads digits onto `acc`, which may not exceed `limit`. -/
def readDigits (limit : Nat) (fault : IntegerFault) (acc : Nat) :
    List Char → Except IntegerFault Nat
  | [] => .ok acc
  | c :: cs =>
    match digitValue? c with
    | none => .error .invalidDigit
    | some d =>
      if acc * 10 + d ≤ limit then readDigits limit fault (acc * 10 + d) cs else .error fault

/-- Reads a natural number of at most `limit`; a plus sign may stand before it. -/
def readNat (limit : Nat) (s : String) : Except IntegerFault Nat :=
  match s.toList with
  | [] => .error .empty
  | ['+'] => .error .invalidDigit
  | '+' :: cs => readDigits limit .tooLarge 0 cs
  | cs => readDigits limit .tooLarge 0 cs

/-- Reads an integer from `-(limit + 1)` to `limit`, with an optional sign. -/
def readInt (limit : Nat) (s : String) : Except IntegerFault Int :=
  match s.toList with
  | [] => .error .empty
  | ['+'] | ['-'] => .error .invalidDigit
  | '-' :: cs => (readDigits (limit + 1) .tooSmall 0 cs).map fun n ↦ -(n : Int)
  | '+' :: cs => (readDigits limit .tooLarge 0 cs).map Int.ofNat
  | cs => (readDigits limit .tooLarge 0 cs).map Int.ofNat

/-- What is read lies within the limit. -/
theorem readDigits_le {limit : Nat} {fault : IntegerFault} :
    ∀ {cs : List Char} {acc n : Nat}, acc ≤ limit →
      readDigits limit fault acc cs = .ok n → n ≤ limit
  | [], acc, n, hacc, h => by
    simp only [readDigits, Except.ok.injEq] at h
    exact h ▸ hacc
  | c :: cs, acc, n, _, h => by
    unfold readDigits at h
    split at h
    · exact absurd h (by simp)
    · split at h
      · next hle => exact readDigits_le hle h
      · exact absurd h (by simp)

end NodeInventory.Text
