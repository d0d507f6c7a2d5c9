import NodeInventory.Api.Exchange
import NodeInventory.Record.Reading

/-!
# Listings of the cluster

A listing is a JSON object with metadata, which may name the token for the next part, and items.
What it says of its kind does not count. An empty token stands for none.
-/

namespace NodeInventory.Api

variable {α : Type}

/-- Reads the token for the next part from the metadata of a listing. -/
def nextToken? (v : Json) : Option (Option String) := do
  let ms ← Json.openObject? v
  let token ← Json.member? Json.text? "continue" ms
  let _ ← Json.member? wordInt? "remainingItemCount" ms
  let _ ← Json.member? Json.text? "resourceVersion" ms
  let _ ← Json.member? Json.text? "selfLink" ms
  pure (token.filter (· != ""))

/-- Reads a listing. -/
def page? (read : Json → Option α) (text : String) : Option (Page α) := do
  let v ← Json.parse text
  if v.isSound Json.maxDepth then
    match v, Json.fields? ["metadata", "items"] v with
    | .object _, some [some metadata, some items] =>
      pure ⟨← Json.list? read items, ← nextToken? metadata⟩
    | _, _ => none
  else none

/-- The parameters that ask for a part of a listing. -/
def pageParameters (token : Option String) (limit : Nat) : List (String × String) :=
  ("limit", toString limit) :: (token.map fun t ↦ ("continue", t)).toList

end NodeInventory.Api
