import NodeInventory.Json.Double
import NodeInventory.Json.Fields
import NodeInventory.Json.Reading
import NodeInventory.Record.Basic
import NodeInventory.Word

/-!
# Reading records

A spec is a JSON record whose first field is required; so are the fields of an accounting. A record
is one as well, of its metadata and its spec; whatever it says of its version and kind does not
count. The metadata is an open object.
-/

namespace NodeInventory

open Json

/-! ## Specs -/

/-- Reads the accounting of a resource. -/
def Accounting.ofJson? (v : Json) : Option Accounting :=
  match fields? ["total", "allocatable", "used"] v with
  | some [some total, some allocatable, some used] => do
    pure ⟨← total.text?, ← allocatable.text?, ← used.text?⟩
  | _ => none

/-- The names of the fields of a spec, in order. -/
def Spec.fieldNames : List String :=
  ["nodeName", "resources", "status", "roles", "scheduleVersion", "internalIp", "os",
    "kernelVersion", "containerRuntime"]

/-- Reads a spec. -/
def Spec.ofJson? (v : Json) : Option Spec :=
  match fields? Spec.fieldNames v with
  | some [some nodeName, resources, status, roles, scheduleVersion, internalIp, os, kernelVersion,
      containerRuntime] => do
    pure {
      nodeName := ← nodeName.text?
      resources := ← orDefault .empty (dict? Accounting.ofJson?) resources
      status := ← orDefault "" text? status
      roles := ← orDefault "" text? roles
      scheduleVersion := ← orDefault "" text? scheduleVersion
      internalIp := ← orDefault "" text? internalIp
      os := ← orDefault "" text? os
      kernelVersion := ← orDefault "" text? kernelVersion
      containerRuntime := ← orDefault "" text? containerRuntime }
  | _ => none

/-- Reads a text as a spec. -/
def Spec.parse (s : String) : Option Spec := (Json.parse s).bind Spec.ofJson?

/-! ## Metadata -/

/-- Reads a whole number of 64 bits. -/
def wordInt? (v : Json) : Option Int := do
  let n ← v.int?
  if Word.minInt 64 ≤ n ∧ n ≤ Word.maxInt 64 then some n else none

/-- Reads a point in time. -/
def timestamp? (v : Json) : Option Text.Timestamp := do
  let s ← v.text?
  Text.Timestamp.parse s

/-- Reads an owner of a record. -/
def Owner.ofJson? (v : Json) : Option Owner := do
  let ms ← openObject? v
  pure {
    apiVersion := (← member? text? "apiVersion" ms).getD ""
    kind := (← member? text? "kind" ms).getD ""
    name := (← member? text? "name" ms).getD ""
    uid := (← member? text? "uid" ms).getD ""
    controller := ← member? bool? "controller" ms
    blockOwnerDeletion := ← member? bool? "blockOwnerDeletion" ms }

/-- The depth that is left for the fields of a writer: around them are open the record, its
metadata, the list of writers and the writer, and around a listed record two more. -/
def fieldsDepth : Nat := maxDepth - 4

/-- Reads what a writer has written. The fields are kept as they are, but for what is held of their
numbers. -/
def FieldManager.ofJson? (v : Json) : Option FieldManager := do
  let ms ← openObject? v
  pure {
    manager := ← member? text? "manager" ms
    operation := ← member? text? "operation" ms
    apiVersion := ← member? text? "apiVersion" ms
    time := ← member? timestamp? "time" ms
    fieldsType := ← member? text? "fieldsType" ms
    fields := ← member? (fun f ↦ if f.isSound fieldsDepth then some f.held else none) "fieldsV1" ms
    subresource := ← member? text? "subresource" ms }

/-- Reads the metadata of a record. -/
def Metadata.ofJson? (v : Json) : Option Metadata := do
  let ms ← openObject? v
  pure {
    name := ← member? text? "name" ms
    generateName := ← member? text? "generateName" ms
    namespaceName := ← member? text? "namespace" ms
    selfLink := ← member? text? "selfLink" ms
    uid := ← member? text? "uid" ms
    resourceVersion := ← member? text? "resourceVersion" ms
    generation := ← member? wordInt? "generation" ms
    creationTime := ← member? timestamp? "creationTimestamp" ms
    deletionTime := ← member? timestamp? "deletionTimestamp" ms
    deletionGraceSeconds := ← member? wordInt? "deletionGracePeriodSeconds" ms
    labels := ← member? (dict? text?) "labels" ms
    annotations := ← member? (dict? text?) "annotations" ms
    owners := ← member? (list? Owner.ofJson?) "ownerReferences" ms
    finalizers := ← member? (list? text?) "finalizers" ms
    fieldManagers := ← member? (list? FieldManager.ofJson?) "managedFields" ms }

/-! ## Records -/

/-- Reads a record. -/
def Record.ofJson? (v : Json) : Option Record :=
  match fields? ["metadata", "spec"] v with
  | some [some metadata, some spec] => do
    pure ⟨← Metadata.ofJson? metadata, ← Spec.ofJson? spec⟩
  | _ => none

/-- Reads a text as a record. -/
def Record.parse (s : String) : Option Record := (Json.parse s).bind Record.ofJson?

end NodeInventory
