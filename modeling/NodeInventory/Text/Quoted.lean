import NodeInventory.Text.Hidden

/-!
# Quoted texts

How a message quotes a text that it found faulty: between double quotes, with a backslash before a
quote or a backslash, with short escapes for line breaks, tabs and NUL, and with the code point in
hexadecimal for every other character that does not show.
-/

namespace NodeInventory.Text

/-- The digits of `n` in base sixteen, small letters. -/
def hex (n : Nat) : List Char := Nat.toDigits 16 n

/-- One character inside quotes. -/
def quoteChar (c : Char) : List Char :=
  match c with
  | '"' => ['\\', '"']
  | '\\' => ['\\', '\\']
  | '\n' => ['\\', 'n']
  | '\r' => ['\\', 'r']
  | '\t' => ['\\', 't']
  | '\x00' => ['\\', '0']
  | c => if isHidden c then ['\\', 'u', '\x7b'] ++ hex c.toNat ++ ['\x7d'] else [c]

/-- A text between quotes. -/
def quoted (s : String) : String :=
  String.ofList ('"' :: s.toList.flatMap quoteChar ++ ['"'])

example : quoted "a\"b\\\n\x07\u200bé" = "\"a\\\"b\\\\\\n\\u\x7b7\x7d\\u\x7b200b\x7dé\"" := by
  decide +kernel

end NodeInventory.Text
