import NodeInventory.Dict
import NodeInventory.Json.Basic
import NodeInventory.Text.Timestamp

/-!
# Records

What is stored about a node: a spec with the state of the node and the accounting of its resources,
under metadata which belongs to the store. A write of a spec replaces the spec and nothing else, so
the metadata of a record outlives it.
-/

namespace NodeInventory

/-- The accounting of one resource of a node, as text with unit suffixes. -/
structure Accounting where
  /-- What the node has. -/
  total : String
  /-- What it has to give to pods. -/
  allocatable : String
  /-- What the pods bound to it request. -/
  used : String
deriving DecidableEq, Repr

/-- The state of a node, as last seen. -/
structure Spec where
  nodeName : String
  resources : Dict Accounting := .empty
  /-- The conditions that hold, joined by commas. -/
  status : String := ""
  roles : String := ""
  scheduleVersion : String := ""
  internalIp : String := ""
  os : String := ""
  kernelVersion : String := ""
  containerRuntime : String := ""
deriving DecidableEq

/-- An object that a record belongs to. -/
structure Owner where
  apiVersion : String
  kind : String
  name : String
  uid : String
  controller : Option Bool
  blockOwnerDeletion : Option Bool
deriving DecidableEq, Repr

/-- What one writer of a record has written in it. -/
structure FieldManager where
  manager : Option String
  operation : Option String
  apiVersion : Option String
  time : Option Text.Timestamp
  fieldsType : Option String
  fields : Option Json
  subresource : Option String

/-- What the store keeps beside the spec of a record. -/
structure Metadata where
  name : Option String := none
  generateName : Option String := none
  namespaceName : Option String := none
  selfLink : Option String := none
  uid : Option String := none
  resourceVersion : Option String := none
  generation : Option Int := none
  creationTime : Option Text.Timestamp := none
  deletionTime : Option Text.Timestamp := none
  deletionGraceSeconds : Option Int := none
  labels : Option (Dict String) := none
  annotations : Option (Dict String) := none
  owners : Option (List Owner) := none
  finalizers : Option (List String) := none
  fieldManagers : Option (List FieldManager) := none

/-- A record of a node. -/
structure Record where
  metadata : Metadata
  spec : Spec

namespace Record

/-- The name of a record; one that has none counts as unnamed. -/
def name (r : Record) : String := r.metadata.name.getD ""

/-- A new record of a spec, named after its node. -/
def ofSpec (spec : Spec) : Record := ⟨{ name := some spec.nodeName }, spec⟩

@[simp] theorem name_ofSpec (spec : Spec) : (ofSpec spec).name = spec.nodeName := rfl

end Record

/-- Part of a listing, and the token that asks for the next part if there is one. -/
structure Page (α : Type) where
  items : List α
  next : Option String

end NodeInventory
