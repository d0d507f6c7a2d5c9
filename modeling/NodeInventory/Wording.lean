import NodeInventory.Json.Basic

/-!
# The words of others

Some failures are told in the words of others: of the reader of JSON, and of the runtime that runs
the items of a batch. What they say is left open.
-/

namespace NodeInventory

/-- What others say of failures. -/
structure Wording where
  /-- Why a text is no envelope of a task. -/
  unreadable : String → String
  /-- Why a payload is no list of names. -/
  unsuitable : Json → String
  /-- That the item of a batch that looks after the node of a name was stopped on the way. -/
  aborted : String → String

/-- What they say on one occasion. -/
instance : Inhabited Wording where
  default :=
    { unreadable := fun _ ↦ "expected value at line 1 column 1"
      unsuitable := fun _ ↦ "invalid type: null, expected a sequence"
      aborted := fun _ ↦ "task 1 panicked with message \"attempt to add with overflow\"" }

end NodeInventory
