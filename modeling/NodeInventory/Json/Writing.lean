import NodeInventory.Json.Basic

/-!
# Writing JSON

Values are written without blanks. A string escapes the quote, the backslash and the characters
below U+0020, the common ones of these by a letter; all other characters stand for themselves.
-/

namespace NodeInventory.Json

/-- A digit in base sixteen, small letters. -/
def hexDigit (n : Nat) : Char := if n < 10 then Char.ofNat (48 + n) else Char.ofNat (87 + n)

/-- One character inside a string literal. -/
def escapeChar (c : Char) : List Char :=
  match c with
  | '"' => ['\\', '"']
  | '\\' => ['\\', '\\']
  | '\x08' => ['\\', 'b']
  | '\t' => ['\\', 't']
  | '\n' => ['\\', 'n']
  | '\x0c' => ['\\', 'f']
  | '\r' => ['\\', 'r']
  | c =>
    if c.toNat < 0x20 then
      ['\\', 'u', '0', '0', hexDigit (c.toNat / 16), hexDigit (c.toNat % 16)]
    else [c]

/-- A string literal. A literal that denotes no text is written as a lone surrogate. -/
def writeString : Option String → List Char
  | some s => '"' :: s.toList.flatMap escapeChar ++ ['"']
  | none => "\"\\ud800\"".toList

/-- A sign and digits. -/
def writeNumber : Number → List Char
  | .integer negative n => (if negative then ['-'] else []) ++ Nat.toDigits 10 n
  | .decimal negative n e =>
    (if negative then ['-'] else []) ++ Nat.toDigits 10 n ++ 'e' :: (toString e).toList

mutual

/-- The text of a value. -/
def write : Json → List Char
  | null => "null".toList
  | bool true => "true".toList
  | bool false => "false".toList
  | number n => writeNumber n
  | string s => writeString s
  | array [] => ['[', ']']
  | array (v :: vs) => '[' :: write v ++ writeItems vs
  | object [] => ['\x7b', '\x7d']
  | object ((k, v) :: ms) => '\x7b' :: writeString k ++ ':' :: write v ++ writeMembers ms

/-- The items after the first, and the closing bracket. -/
def writeItems : List Json → List Char
  | [] => [']']
  | v :: vs => ',' :: write v ++ writeItems vs

/-- The members after the first, and the closing brace. -/
def writeMembers : List (Option String × Json) → List Char
  | [] => ['\x7d']
  | (k, v) :: ms => ',' :: writeString k ++ ':' :: write v ++ writeMembers ms

end

/-- The text of a value, as a string. -/
def render (v : Json) : String := String.ofList v.write

end NodeInventory.Json
