/-!
# JSON values

A JSON text denotes a value of this type. Two things are kept that a consumer may or may not mind.
A string literal can hold escapes of surrogates that pair up to no character; such a literal denotes
no text. And the members of an object stay in the order in which they were written, repetitions
included, because what a repetition means is for the reader of the object to say.

A number is what was written. Whether it lies in the range of double precision, and what is held of
it there, are questions of their own, asked only of numbers that somebody looks at.
-/

namespace NodeInventory

/-- A number as written: with or without a fraction or an exponent. -/
inductive Json.Number
  | integer (negative : Bool) (magnitude : Nat)
  /-- The digits of the number, without the point, and the power of ten to multiply them by. -/
  | decimal (negative : Bool) (digits : Nat) (exponent : Int)
deriving DecidableEq, Repr

/-- A JSON value. -/
inductive Json
  | null
  | bool (b : Bool)
  | number (n : Json.Number)
  /-- A string literal, and the text it denotes, if it denotes one. -/
  | string (text : Option String)
  | array (items : List Json)
  | object (members : List (Option String × Json))
deriving Inhabited

namespace Json

/-! ## Making values -/

/-- The value of a text. -/
def text (s : String) : Json := .string (some s)

/-- The value of an integer. -/
def int (n : Int) : Json := .number (.integer (n < 0) n.natAbs)

/-- The value of a natural number. -/
def nat (n : Nat) : Json := .number (.integer false n)

/-- The object with the given members. -/
def record (members : List (String × Json)) : Json :=
  .object (members.map fun m ↦ (some m.1, m.2))

/-- A text, or null. -/
def optionText : Option String → Json
  | none => .null
  | some s => text s

/-- The array of texts. -/
def texts (l : List String) : Json := .array (l.map text)

/-! ## Taking values apart -/

/-- The text that a value denotes. -/
def text? : Json → Option String
  | .string s => s
  | _ => none

/-- The truth value that a value denotes. -/
def bool? : Json → Option Bool
  | .bool b => some b
  | _ => none

/-- The integer that a value denotes. A minus sign before zero makes the number fractional. -/
def int? : Json → Option Int
  | .number (.integer false n) => some n
  | .number (.integer true n) => if n = 0 then none else some (-n)
  | _ => none

/-- The items of an array. -/
def items? : Json → Option (List Json)
  | .array items => some items
  | _ => none

/-- The members of an object. -/
def members? : Json → Option (List (Option String × Json))
  | .object members => some members
  | _ => none

/-- Whether a value is null. -/
def isNull : Json → Bool
  | .null => true
  | _ => false

/-- The last member of an object under a key; null where there is none. -/
def get (v : Json) (key : String) : Json :=
  match v with
  | .object members => ((members.reverse.find? fun m ↦ m.1 == some key).map (·.2)).getD .null
  | _ => .null

@[simp] theorem text?_text (s : String) : (text s).text? = some s := rfl

end Json

end NodeInventory
