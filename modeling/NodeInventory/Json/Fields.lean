import NodeInventory.Json.Basic
import NodeInventory.Dict

/-!
# Records, dictionaries and objects in JSON

Three ways in which an array or an object of JSON is taken for something of the program.

A *record* has fields in a declared order. It is written as an object, in which no field occurs
twice and members of other names do not count, or as an array, which gives the fields in order and
may stop early. A *dictionary* is an object in which every member counts and the last of several
members of one key holds. An *open object* is read member by member: the last member of a key holds,
null stands for no member, and unknown members do not count.

In all three every key has to denote a text.
-/

namespace NodeInventory.Json

variable {α : Type}

/-- Whether every key of an object denotes a text. -/
def keysDenote (members : List (Option String × Json)) : Bool := members.all (·.1.isSome)

/-- How often a key occurs. -/
def occurrences (key : String) (members : List (Option String × Json)) : Nat :=
  members.countP (·.1 == some key)

/-! ## Records -/

/-- The values of the fields of the given names, in that order, with `none` for an absent field. -/
def fields? (names : List String) : Json → Option (List (Option Json))
  | .array items =>
    if items.length ≤ names.length then
      some (items.map some ++ List.replicate (names.length - items.length) none)
    else none
  | .object members =>
    if keysDenote members && names.all fun n ↦ occurrences n members ≤ 1 then
      some (names.map fun n ↦ (members.find? (·.1 == some n)).map (·.2))
    else none
  | _ => none

/-- A field that may be absent, and then has a value of its own. -/
def orDefault (default : α) (read : Json → Option α) : Option Json → Option α
  | none => some default
  | some v => read v

/-- There is one value for each field. -/
theorem length_fields? {names : List String} {v : Json} {l : List (Option Json)}
    (h : fields? names v = some l) : l.length = names.length := by
  unfold fields? at h
  split at h
  · split at h
    · cases h
      simp only [List.length_append, List.length_map, List.length_replicate]
      omega
    · simp at h
  · split at h
    · cases h; simp
    · simp at h
  · simp at h

/-! ## Dictionaries and lists -/

/-- Reads an object as a dictionary. -/
def dict? (read : Json → Option α) : Json → Option (Dict α)
  | .object members => do
    let entries ← members.mapM fun m ↦ do
      let k ← m.1
      let v ← read m.2
      pure (k, v)
    pure (Dict.ofList entries)
  | _ => none

/-- Reads an array item by item. -/
def list? (read : Json → Option α) (v : Json) : Option (List α) := do
  let items ← v.items?
  items.mapM read

/-- A dictionary as an object. -/
def ofDict (write : α → Json) (d : Dict α) : Json :=
  record (d.toList.map fun e ↦ (e.1, write e.2))

/-! ## Open objects -/

/-- The members of an object all of whose keys denote texts. -/
def openObject? : Json → Option (List (Option String × Json))
  | .object members => if keysDenote members then some members else none
  | _ => none

/-- Reads the member of a key; null and absence are the same. -/
def member? (read : Json → Option α) (key : String) (members : List (Option String × Json)) :
    Option (Option α) := do
  let values ← (members.filter (·.1 == some key)).mapM fun m ↦
    if m.2.isNull then some none else (read m.2).map some
  pure values.getLast?.join

/-- Whether a member, if present, is the given text. -/
def memberIs (key value : String) (members : List (Option String × Json)) : Bool :=
  (members.filter (·.1 == some key)).all fun m ↦ m.2.text? == some value

/-- A member of an object to be written, left out if there is no value. -/
def optionalMember (key : String) (write : α → Json) : Option α → List (String × Json)
  | none => []
  | some a => [(key, write a)]

end NodeInventory.Json
