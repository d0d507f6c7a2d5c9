import NodeInventory.Cluster.Basic
import NodeInventory.Failure
import NodeInventory.Quantity.Reading
import NodeInventory.Quantity.Writing
import NodeInventory.Record.Basic
import NodeInventory.Text.Separated

/-!
# Snapshots

A snapshot is the spec that a record of a node ought to have: computed from the node and the pods
bound to it. It accounts for the tracked resources of which the node has any. What is used of a
resource is the sum of what all containers request, whatever becomes of their pods; the sum is exact
and is rounded once, when it is written. An amount for which there is no room while it is rounded
stops the calculation.
-/

namespace NodeInventory

/-- Reads a quantity, with a context for a failure. -/
def Quantity.read (context text : String) : Calculation (Result Quantity) := do
  match ← Quantity.parse text with
  | .ok q => pure (.ok q)
  | .error fault => pure (.error (.context context (.ofChain fault.chain)))

/-- How many units make up a unit of memory. -/
def Quantity.unitsPerMebi : Int := 1048576

/-- Writes a quantity in the unit in which a resource is accounted for: milli units of `cpu`, whole
units of 1024 × 1024 of `memory`, and the shortest form for all others. -/
def Quantity.renderAs (resource : String) (q : Quantity) : Calculation String :=
  if resource = "cpu" then do
    let milli ← q.milliValue
    pure (toString milli ++ "m")
  else if resource = "memory" then do
    let units ← q.value
    pure (toString (units.tdiv unitsPerMebi) ++ "Mi")
  else q.render

namespace Snapshot

/-! ## Accounting -/

/-- The requests for a resource of the containers of pods that are bound to the named node. -/
def requests (node resource : String) (pods : List Pod) : List String :=
  (pods.filter (·.nodeName == some node)).flatMap fun p ↦ p.requests.filterMap (·.get? resource)

/-- Adds requests onto a sum. -/
def addRequests (context : String) : Quantity → List String → Calculation (Result Quantity)
  | sum, [] => pure (.ok sum)
  | sum, r :: rs =>
    (Quantity.read context r).andThen fun q ↦
      match sum.add? q with
      | some sum => addRequests context sum rs
      | none => pure (.error (.plain "quantity overflow during addition"))

/-- What the pods bound to a node request of a resource. -/
def used (node resource : String) (pods : List Pod) : Calculation (Result Quantity) :=
  addRequests ("invalid " ++ resource ++ " request on node " ++ node) .zero
    (requests node resource pods)

/-- What a node has of a resource that it can give away; nothing, if it does not say. -/
def allocatable (node : Node) (resource : String) : Calculation (Result Quantity) :=
  match node.allocatable.get? resource with
  | some text => Quantity.read ("invalid " ++ resource ++ " allocatable on node " ++ node.name) text
  | none => pure (.ok .zero)

/-- The accounting of a resource of which the node has the given amount. -/
def accounting (node : Node) (pods : List Pod) (resource capacity : String) :
    Calculation (Result Accounting) :=
  (Quantity.read ("invalid " ++ resource ++ " capacity on node " ++ node.name) capacity).andThen
    fun total ↦ (allocatable node resource).andThen fun allocatable ↦
    (used node.name resource pods).andThen fun used ↦ do
    let total ← total.renderAs resource
    let allocatable ← allocatable.renderAs resource
    let used ← used.renderAs resource
    pure (.ok ⟨total, allocatable, used⟩)

/-- The accounting of the tracked resources of which the node has any. -/
def resources (node : Node) (pods : List Pod) :
    List String → Dict Accounting → Calculation (Result (Dict Accounting))
  | [], done => pure (.ok done)
  | r :: rs, done =>
    match node.capacity.get? r with
    | none => resources node pods rs done
    | some capacity =>
      (accounting node pods r capacity).andThen fun a ↦ resources node pods rs (done.insert r a)

/-! ## State -/

/-- The conditions of a node that hold, joined by commas. -/
def status (node : Node) : String :=
  let held := (node.conditions.filter (·.status == "True")).map (·.type)
  let all := if node.unschedulable then held ++ ["SchedulingDisabled"] else held
  if all.isEmpty then "Unknown" else Text.join ',' all

/-- The beginning of the labels that name roles. -/
def rolePrefix : List Char := "node-role.kubernetes.io/".toList

/-- The role that a label names, if it names one. Equals signs at its end do not count. -/
def role? (label : String) : Option String :=
  if rolePrefix.isPrefixOf label.toList then
    some (String.ofList
      ((label.toList.drop rolePrefix.length).reverse.dropWhile (· == '=')).reverse)
  else none

/-- The roles of a node, joined by commas. -/
def roles (node : Node) : String := Text.join ',' (node.labels.keys.filterMap role?)

/-- The first internal address of a node. -/
def internalIp (node : Node) : String :=
  ((node.addresses.find? (·.type == "InternalIP")).map (·.address)).getD ""

/-- The snapshot of a node with the given pods. -/
def build (node : Node) (pods : List Pod) (tracked : List String) : Calculation (Result Spec) :=
  (resources node pods tracked .empty).andThen fun resources ↦ pure (.ok {
    nodeName := node.name
    resources
    status := status node
    roles := roles node
    scheduleVersion := node.software.kubeletVersion
    internalIp := internalIp node
    os := node.software.osImage
    kernelVersion := node.software.kernelVersion
    containerRuntime := node.software.containerRuntimeVersion })

end Snapshot

end NodeInventory
