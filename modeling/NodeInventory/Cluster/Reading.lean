import NodeInventory.Cluster.Basic
import NodeInventory.Json.Fields
import NodeInventory.Record.Reading

/-!
# Reading nodes and pods

Nodes and pods, and everything in them, are open objects. An object that says of which version and
kind it is has to say the right ones. Its metadata is read as a whole, like that of a record,
whatever of it is wanted.
-/

namespace NodeInventory

open Json

/-- Reads the members of an object of the given kind. -/
def kindedObject? (kind : String) (v : Json) : Option (List (Option String × Json)) := do
  let ms ← openObject? v
  if memberIs "apiVersion" "v1" ms && memberIs "kind" kind ms then some ms else none

/-- Reads the metadata among the members of an object; absent metadata says nothing. -/
def metadataOf? (members : List (Option String × Json)) : Option Metadata := do
  let metadata ← member? Metadata.ofJson? "metadata" members
  pure (metadata.getD {})

/-- Reads an open object under a key; one that is absent has no members. -/
def nested? (key : String) (members : List (Option String × Json)) :
    Option (List (Option String × Json)) := do
  let inner ← member? openObject? key members
  pure (inner.getD [])

/-! ## Nodes -/

/-- Reads a condition of a node. -/
def Node.Condition.ofJson? (v : Json) : Option Node.Condition := do
  let ms ← openObject? v
  pure ⟨(← member? text? "type" ms).getD "", (← member? text? "status" ms).getD ""⟩

/-- Reads an address of a node. -/
def Node.Address.ofJson? (v : Json) : Option Node.Address := do
  let ms ← openObject? v
  pure ⟨(← member? text? "type" ms).getD "", (← member? text? "address" ms).getD ""⟩

/-- Reads the software of a node. -/
def Node.Software.ofMembers? (ms : List (Option String × Json)) : Option Node.Software := do
  pure {
    kubeletVersion := (← member? text? "kubeletVersion" ms).getD ""
    osImage := (← member? text? "osImage" ms).getD ""
    kernelVersion := (← member? text? "kernelVersion" ms).getD ""
    containerRuntimeVersion := (← member? text? "containerRuntimeVersion" ms).getD "" }

/-- Reads a node. -/
def Node.ofJson? (v : Json) : Option Node := do
  let ms ← kindedObject? "Node" v
  let metadata ← metadataOf? ms
  let spec ← nested? "spec" ms
  let status ← nested? "status" ms
  let software ← nested? "nodeInfo" status
  pure {
    ownName := metadata.name
    generateName := metadata.generateName
    labels := metadata.labels.getD .empty
    unschedulable := (← member? bool? "unschedulable" spec).getD false
    capacity := (← member? (dict? text?) "capacity" status).getD .empty
    allocatable := (← member? (dict? text?) "allocatable" status).getD .empty
    conditions := (← member? (list? Condition.ofJson?) "conditions" status).getD []
    addresses := (← member? (list? Address.ofJson?) "addresses" status).getD []
    software := ← Software.ofMembers? software }

/-! ## Pods -/

/-- Reads what a container requests. -/
def requests? (v : Json) : Option (Dict String) := do
  let ms ← openObject? v
  let resources ← nested? "resources" ms
  pure ((← member? (dict? text?) "requests" resources).getD .empty)

/-- Reads a pod. -/
def Pod.ofJson? (v : Json) : Option Pod := do
  let ms ← kindedObject? "Pod" v
  let metadata ← metadataOf? ms
  let spec ← nested? "spec" ms
  pure {
    ownName := metadata.name
    nodeName := ← member? text? "nodeName" spec
    requests := (← member? (list? requests?) "containers" spec).getD [] }

end NodeInventory
