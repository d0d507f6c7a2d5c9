import NodeInventory.Json.Basic

/-!
# Reading JSON

A text is read as one value with blanks around it: spaces, tabs and line breaks, and no other
characters. Numbers have no leading zeros and no bare points, strings no bare characters below
U+0020, arrays and objects no trailing commas.

The reader takes every text that has this form. That escapes of surrogates pair up, that numbers are
in range and that the nesting is shallow is asked of values afterwards, and only of the parts that
are used (`Json.isSound`).
-/

namespace NodeInventory.Json

/-- Drops the blanks at the front. -/
def skipBlanks : List Char → List Char
  | c :: cs => if c == ' ' || c == '\t' || c == '\n' || c == '\r' then skipBlanks cs else c :: cs
  | [] => []

/-! ## Strings -/

/-- A piece of a string literal: a character, or a unit of sixteen bits. -/
inductive Piece
  | char (c : Char)
  | unit (n : Nat)
deriving DecidableEq, Repr

/-- The value of a digit in base sixteen. -/
def hexValue? (c : Char) : Option Nat :=
  if '0' ≤ c ∧ c ≤ '9' then some (c.toNat - 48)
  else if 'a' ≤ c ∧ c ≤ 'f' then some (c.toNat - 87)
  else if 'A' ≤ c ∧ c ≤ 'F' then some (c.toNat - 55)
  else none

/-- The character of an escape of one letter. -/
def unescape? : Char → Option Char
  | '"' => some '"'
  | '\\' => some '\\'
  | '/' => some '/'
  | 'b' => some '\x08'
  | 'f' => some '\x0c'
  | 'n' => some '\n'
  | 'r' => some '\r'
  | 't' => some '\t'
  | _ => none

/-- Reads the pieces of a string literal up to its closing quote. -/
def readPieces : List Char → Option (List Piece × List Char)
  | [] => none
  | '"' :: cs => some ([], cs)
  | '\\' :: 'u' :: a :: b :: c :: d :: cs => do
    let a ← hexValue? a
    let b ← hexValue? b
    let c ← hexValue? c
    let d ← hexValue? d
    let (ps, rest) ← readPieces cs
    some (.unit (((a * 16 + b) * 16 + c) * 16 + d) :: ps, rest)
  | '\\' :: e :: cs => do
    let c ← unescape? e
    let (ps, rest) ← readPieces cs
    some (.char c :: ps, rest)
  | c :: cs =>
    if c.toNat < 0x20 || c == '\\' then none
    else do
      let (ps, rest) ← readPieces cs
      some (.char c :: ps, rest)

/-- Whether a unit is the first of a pair. -/
def isHighSurrogate (n : Nat) : Bool := 0xD800 ≤ n && n < 0xDC00

/-- Whether a unit is the second of a pair. -/
def isLowSurrogate (n : Nat) : Bool := 0xDC00 ≤ n && n < 0xE000

/-- The text of the pieces, if every surrogate has its partner next to it. -/
def assemble : List Piece → Option (List Char)
  | [] => some []
  | .char c :: ps => (assemble ps).map (c :: ·)
  | .unit h :: .unit l :: ps =>
    if isHighSurrogate h && isLowSurrogate l then
      (assemble ps).map (Char.ofNat (0x10000 + (h - 0xD800) * 0x400 + (l - 0xDC00)) :: ·)
    else if isHighSurrogate h || isLowSurrogate h then none
    else (assemble (.unit l :: ps)).map (Char.ofNat h :: ·)
  | .unit n :: ps =>
    if isHighSurrogate n || isLowSurrogate n then none
    else (assemble ps).map (Char.ofNat n :: ·)

/-- Reads a string literal after its opening quote. -/
def readString (cs : List Char) : Option (Option String × List Char) := do
  let (ps, rest) ← readPieces cs
  some ((assemble ps).map String.ofList, rest)

/-! ## Numbers -/

/-- An ASCII digit. -/
def isDigit (c : Char) : Bool := '0' ≤ c && c ≤ '9'

/-- The number that digits spell. -/
def ofDigits (cs : List Char) : Nat := cs.foldl (fun n c ↦ n * 10 + (c.toNat - 48)) 0

/-- Reads at least one digit. -/
def readDigits (cs : List Char) : Option (List Char × List Char) :=
  if (cs.takeWhile isDigit).isEmpty then none else some (cs.takeWhile isDigit, cs.dropWhile isDigit)

/-- Reads the digits before the point: a zero alone, or digits that do not start with one. -/
def readWhole : List Char → Option (List Char × List Char)
  | '0' :: cs => some (['0'], cs)
  | cs => readDigits cs

/-- Reads the digits after a point, if there is one. -/
def readFraction : List Char → Option (Option (List Char) × List Char)
  | '.' :: cs => (readDigits cs).map fun (ds, rest) ↦ (some ds, rest)
  | cs => some (none, cs)

/-- Reads the exponent, if there is one. -/
def readExponent : List Char → Option (Option Int × List Char)
  | 'e' :: cs | 'E' :: cs =>
    match cs with
    | '-' :: cs => (readDigits cs).map fun (ds, rest) ↦ (some (-(ofDigits ds : Int)), rest)
    | '+' :: cs => (readDigits cs).map fun (ds, rest) ↦ (some (ofDigits ds : Int), rest)
    | cs => (readDigits cs).map fun (ds, rest) ↦ (some (ofDigits ds : Int), rest)
  | cs => some (none, cs)

/-- Reads a number without its sign. -/
def readUnsigned (negative : Bool) (cs : List Char) : Option (Number × List Char) := do
  let (whole, cs) ← readWhole cs
  let (fraction, cs) ← readFraction cs
  let (exponent, cs) ← readExponent cs
  match fraction, exponent with
  | none, none => some (.integer negative (ofDigits whole), cs)
  | _, _ =>
    let places := fraction.getD []
    some (.decimal negative (ofDigits (whole ++ places)) (exponent.getD 0 - places.length), cs)

/-- Reads a number. -/
def readNumber : List Char → Option (Number × List Char)
  | '-' :: cs => readUnsigned true cs
  | cs => readUnsigned false cs

/-! ## Values -/

mutual

/-- Reads a value and the blanks before it. -/
def readValue : Nat → List Char → Option (Json × List Char)
  | 0, _ => none
  | fuel + 1, cs =>
    match skipBlanks cs with
    | 'n' :: 'u' :: 'l' :: 'l' :: cs => some (.null, cs)
    | 't' :: 'r' :: 'u' :: 'e' :: cs => some (.bool true, cs)
    | 'f' :: 'a' :: 'l' :: 's' :: 'e' :: cs => some (.bool false, cs)
    | '"' :: cs => (readString cs).map fun (s, rest) ↦ (.string s, rest)
    | '[' :: cs =>
      match skipBlanks cs with
      | ']' :: cs => some (.array [], cs)
      | cs => (readItems fuel cs).map fun (vs, rest) ↦ (.array vs, rest)
    | '\x7b' :: cs =>
      match skipBlanks cs with
      | '\x7d' :: cs => some (.object [], cs)
      | cs => (readMembers fuel cs).map fun (ms, rest) ↦ (.object ms, rest)
    | cs => (readNumber cs).map fun (n, rest) ↦ (.number n, rest)

/-- Reads the items of an array, of which there is at least one, and the closing bracket. -/
def readItems : Nat → List Char → Option (List Json × List Char)
  | 0, _ => none
  | fuel + 1, cs => do
    let (v, cs) ← readValue fuel cs
    match skipBlanks cs with
    | ',' :: cs =>
      let (vs, cs) ← readItems fuel cs
      some (v :: vs, cs)
    | ']' :: cs => some ([v], cs)
    | _ => none

/-- Reads the members of an object, of which there is at least one, and the closing brace. -/
def readMembers : Nat → List Char → Option (List (Option String × Json) × List Char)
  | 0, _ => none
  | fuel + 1, cs =>
    match skipBlanks cs with
    | '"' :: cs => do
      let (k, cs) ← readString cs
      match skipBlanks cs with
      | ':' :: cs =>
        let (v, cs) ← readValue fuel cs
        match skipBlanks cs with
        | ',' :: cs =>
          let (ms, cs) ← readMembers fuel cs
          some ((k, v) :: ms, cs)
        | '\x7d' :: cs => some ([(k, v)], cs)
        | _ => none
      | _ => none
    | _ => none

end

/-- Reads a text as one value. Every step of the reader takes a character or stands between two that
do, so twice the length of the text bounds the depth of the reading. -/
def parse (s : String) : Option Json :=
  match readValue (2 * s.toList.length + 2) s.toList with
  | some (v, rest) => if (skipBlanks rest).isEmpty then some v else none
  | none => none

end NodeInventory.Json
