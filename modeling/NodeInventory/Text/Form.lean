/-!
# Form encoding

How a value is written into a query: letters, digits and four marks stand for themselves, a plus
sign for a blank, and every other byte is written as a percent sign and two digits in base sixteen.
-/

namespace NodeInventory.Text

/-- A digit in base sixteen, capital letters. -/
def capitalHexDigit (n : Nat) : Char :=
  if n < 10 then Char.ofNat (48 + n) else Char.ofNat (55 + n)

/-- Whether a character stands for itself. -/
def isFormChar (c : Char) : Bool := c.isAlphanum || c == '*' || c == '-' || c == '.' || c == '_'

/-- A byte with a percent sign before it. -/
def percentByte (b : UInt8) : List Char :=
  ['%', capitalHexDigit (b.toNat / 16), capitalHexDigit (b.toNat % 16)]

/-- One character of a value. -/
def formChar (c : Char) : List Char :=
  if isFormChar c then [c]
  else if c == ' ' then ['+']
  else c.toString.toUTF8.toList.flatMap percentByte

/-- A value in form encoding. -/
def formEncode (s : String) : String := String.ofList (s.toList.flatMap formChar)

end NodeInventory.Text
