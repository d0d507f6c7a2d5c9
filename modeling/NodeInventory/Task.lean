import NodeInventory.Failure
import NodeInventory.Json.Fields
import NodeInventory.Json.Reading
import NodeInventory.Json.Sound
import NodeInventory.Json.Writing
import NodeInventory.Wording

/-!
# Queued tasks

A task travels through the queue as a JSON record of its type and its payload. Reading one can fail
in three ways, told in this order: the envelope is not such a record, nothing handles the type, or
the payload does not suit the type. Of the envelope and of the payload it is told in the words of
the reader of JSON what is wrong with them.

The payload is kept as a JSON value until the type is known, so it has to be sound even where the
type is unknown; other members of the envelope are skipped over.
-/

namespace NodeInventory

/-- A unit of work in the queue. -/
inductive Task
  /-- Bring the records of the named nodes up to date. -/
  | nodeBatch (names : List String)
deriving DecidableEq, Repr

namespace Task

/-- The word for the tasks that name nodes. -/
def nodeBatchType : String := "node_batch"

/-- The word for the type of a task. -/
def type : Task → String
  | nodeBatch _ => nodeBatchType

/-- The payload of a task. -/
def payload : Task → Json
  | nodeBatch names => Json.texts names

/-- The text of a task in the queue. -/
def encode (t : Task) : String :=
  (Json.record [("type", .text t.type), ("payload", t.payload)]).render

/-- The type and the payload of a JSON record that has them; an absent payload is null. -/
def envelope? (v : Json) : Option (String × Json) :=
  match Json.fields? ["type", "payload"] v with
  | some [some type, payload] => do
    let type ← type.text?
    let payload := payload.getD .null
    if payload.isSound (Json.maxDepth - 1) then some (type, payload) else none
  | _ => none

/-- The failure of a text that is no envelope of a task. -/
def envelopeFault (words : Wording) (raw : String) : Failure :=
  .malformedTask ("invalid task envelope: " ++ words.unreadable raw)

/-- The failure of a payload that does not suit the type. -/
def payloadFault (words : Wording) (payload : Json) : Failure :=
  .malformedTask
    (nodeBatchType ++ " payload must be a list of node names: " ++ words.unsuitable payload)

/-- Reads a task from its text in the queue. -/
def decode (words : Wording) (raw : String) : Result Task :=
  match (Json.parse raw).bind envelope? with
  | none => .error (envelopeFault words raw)
  | some (type, payload) =>
    if type = nodeBatchType then
      match Json.list? Json.text? payload with
      | some names => .ok (nodeBatch names)
      | none => .error (payloadFault words payload)
    else .error (.unknownTask type)

end Task

end NodeInventory
