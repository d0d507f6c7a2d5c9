import NodeInventory.Json.Basic

/-!
# The definition of records to the cluster

The object with which a cluster is told of a new kind of object: its names, the columns in which it
is listed, and the schema of its spec. A field with a default may be left out.
-/

namespace NodeInventory.Record

open Json

/-- The schema of a text with a default. -/
private def defaultedText (description : Option String) : Json :=
  record ([("default", text "")] ++ (description.map fun d ↦ ("description", text d)).toList ++
    [("type", text "string")])

/-- The schema of a required text. -/
private def requiredText (description : String) : Json :=
  record [("description", text description), ("type", text "string")]

/-- The schema of the accounting of a resource. -/
private def accountingSchema : Json :=
  record [
    ("description", text "Formatted resource accounting for a single resource name."),
    ("properties", record [
      ("allocatable", requiredText "The node's allocatable amount."),
      ("total", requiredText "The node's capacity."),
      ("used", requiredText "The sum of container requests of the pods bound to the node.")]),
    ("required", texts ["allocatable", "total", "used"]),
    ("type", text "object")]

/-- The schema of a spec. -/
private def specSchema : Json :=
  record [
    ("description", text ("CRD spec for the NodeResourceInfo resource.\n\n" ++
      "One object exists per live cluster node, named after the node.")),
    ("properties", record [
      ("containerRuntime", defaultedText none),
      ("internalIp", defaultedText (some "The node's internal IP address.")),
      ("kernelVersion", defaultedText none),
      ("nodeName", requiredText "The name of the node described by this object."),
      ("os", defaultedText (some "The node's OS image.")),
      ("resources", record [
        ("additionalProperties", accountingSchema),
        ("default", record []),
        ("description", text "Per resource name accounting, only for tracked resource names."),
        ("type", text "object")]),
      ("roles", defaultedText (some "Comma-joined node roles.")),
      ("scheduleVersion", defaultedText (some "The node's kubelet version.")),
      ("status", defaultedText
        (some "Comma-joined true node conditions, `SchedulingDisabled` when cordoned."))]),
    ("required", texts ["nodeName"]),
    ("type", text "object")]

/-- A column of a listing, with the place of its value. -/
private def column (name path : String) : Json :=
  record [("jsonPath", text path), ("name", text name), ("type", text "string")]

/-- The definition of records. -/
def definition : Json :=
  record [
    ("apiVersion", text "apiextensions.k8s.io/v1"),
    ("kind", text "CustomResourceDefinition"),
    ("metadata", record [("name", text "noderesourceinfos.opsflow.io")]),
    ("spec", record [
      ("group", text "opsflow.io"),
      ("names", record [
        ("categories", texts []),
        ("kind", text "NodeResourceInfo"),
        ("plural", text "noderesourceinfos"),
        ("shortNames", texts ["nri"]),
        ("singular", text "noderesourceinfo")]),
      ("scope", text "Cluster"),
      ("versions", .array [record [
        ("additionalPrinterColumns", .array [
          column "Status" ".spec.status",
          column "Roles" ".spec.roles",
          column "Internal IP" ".spec.internalIp",
          column "Version" ".spec.scheduleVersion"]),
        ("name", text "v1alpha1"),
        ("schema", record [("openAPIV3Schema", record [
          ("description",
            text "Auto-generated derived type for NodeResourceInfoSpec via `CustomResource`"),
          ("properties", record [("spec", specSchema)]),
          ("required", texts ["spec"]),
          ("title", text "NodeResourceInfo"),
          ("type", text "object")])]),
        ("served", .bool true),
        ("storage", .bool true),
        ("subresources", record [])]])])]

end NodeInventory.Record
