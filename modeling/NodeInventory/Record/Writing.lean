import NodeInventory.Json.Fields
import NodeInventory.Record.Basic

/-!
# Writing records

Every field of a spec is written, empty or not. Of the metadata those fields are written that have a
value, an empty dictionary or list being one.
-/

namespace NodeInventory

open Json

/-- The accounting of a resource as JSON. -/
def Accounting.toJson (a : Accounting) : Json :=
  record [("total", text a.total), ("allocatable", text a.allocatable), ("used", text a.used)]

/-- A spec as JSON. -/
def Spec.toJson (s : Spec) : Json :=
  record [("nodeName", text s.nodeName), ("resources", ofDict Accounting.toJson s.resources),
    ("status", text s.status), ("roles", text s.roles),
    ("scheduleVersion", text s.scheduleVersion), ("internalIp", text s.internalIp),
    ("os", text s.os), ("kernelVersion", text s.kernelVersion),
    ("containerRuntime", text s.containerRuntime)]

/-- An owner of a record as JSON. -/
def Owner.toJson (o : Owner) : Json :=
  record ([("apiVersion", text o.apiVersion)] ++
    optionalMember "blockOwnerDeletion" Json.bool o.blockOwnerDeletion ++
    optionalMember "controller" Json.bool o.controller ++
    [("kind", text o.kind), ("name", text o.name), ("uid", text o.uid)])

/-- What a writer has written, as JSON. -/
def FieldManager.toJson (m : FieldManager) : Json :=
  record (optionalMember "apiVersion" text m.apiVersion ++
    optionalMember "fieldsType" text m.fieldsType ++ optionalMember "fieldsV1" id m.fields ++
    optionalMember "manager" text m.manager ++ optionalMember "operation" text m.operation ++
    optionalMember "subresource" text m.subresource ++
    optionalMember "time" (fun t ↦ text t.render) m.time)

/-- Metadata as JSON. -/
def Metadata.toJson (m : Metadata) : Json :=
  record (optionalMember "annotations" (ofDict text) m.annotations ++
    optionalMember "creationTimestamp" (fun t ↦ text t.render) m.creationTime ++
    optionalMember "deletionGracePeriodSeconds" int m.deletionGraceSeconds ++
    optionalMember "deletionTimestamp" (fun t ↦ text t.render) m.deletionTime ++
    optionalMember "finalizers" texts m.finalizers ++
    optionalMember "generateName" text m.generateName ++
    optionalMember "generation" int m.generation ++
    optionalMember "labels" (ofDict text) m.labels ++
    optionalMember "managedFields" (fun l ↦ .array (l.map FieldManager.toJson)) m.fieldManagers ++
    optionalMember "name" text m.name ++ optionalMember "namespace" text m.namespaceName ++
    optionalMember "ownerReferences" (fun l ↦ .array (l.map Owner.toJson)) m.owners ++
    optionalMember "resourceVersion" text m.resourceVersion ++
    optionalMember "selfLink" text m.selfLink ++ optionalMember "uid" text m.uid)

/-- The version of the interface to which records belong. -/
def Record.apiVersion : String := "opsflow.io/v1alpha1"

/-- The kind of object that a record is. -/
def Record.kind : String := "NodeResourceInfo"

/-- A record as JSON. -/
def Record.toJson (r : Record) : Json :=
  record [("apiVersion", text Record.apiVersion), ("kind", text Record.kind),
    ("metadata", r.metadata.toJson), ("spec", r.spec.toJson)]

end NodeInventory
