import NodeInventory.Record.Basic

/-!
# Listing a dictionary in parts

A part of a listing has the next entries by key, at least one and at most as many as asked for, and
names its last key as the token for the part after it, if anything is left. A token is only a key to
go on from, so a listing goes on whatever happens to the dictionary between two parts.
-/

namespace NodeInventory.Dict

variable {α : Type}

/-- The entries after a token, if there is one. -/
def remaining (d : Dict α) : Option String → List (String × α)
  | none => d.toList
  | some token => d.after token

/-- The part of the listing after a token. -/
def page (d : Dict α) (token : Option String) (limit : Nat) : Page α :=
  let entries := d.remaining token
  let size := max limit 1
  let part := entries.take size
  { items := part.map (·.2)
    next := if entries.length ≤ size then none else (part.getLast?).map (·.1) }

end NodeInventory.Dict
