import NodeInventory.Failure
import NodeInventory.Record.Basic

/-!
# The fleet registry

A registry outside the cluster that is told of nodes and asked whether it knows them. It answers
with a code and a message. A code from 400 on is a failure of the call, except of a question, to
which the code is the answer.

Of a resource the registry is told the amounts without their unit, and the unit beside them.
-/

namespace NodeInventory.Fleet

/-- A resource of a node, as the registry is told of it. -/
structure Resource where
  name : String := ""
  capacity : String := ""
  allocatable : String := ""
  /-- The unit of the amounts. -/
  unit : String := ""
  removed : Bool := false
deriving DecidableEq, Repr

/-- What the registry is told of a node. -/
structure NodeReport where
  nodeName : String := ""
  clusterId : String := ""
  status : String := ""
  resources : List Resource := []
deriving DecidableEq, Repr

/-- A node of a cluster. -/
structure NodeReference where
  nodeName : String := ""
  clusterId : String := ""
deriving DecidableEq, Repr

/-- What the registry answers. -/
structure Response where
  /-- A code as of HTTP. -/
  code : Int := 0
  message : String := ""
  data : List UInt8 := []
deriving DecidableEq, Repr

/-- A call of the registry. -/
inductive Call
  /-- Enter a node. -/
  | add (report : NodeReport)
  /-- Change what is known of a node. -/
  | update (report : NodeReport)
  /-- Take out a node. -/
  | delete (node : NodeReference)
  /-- Ask whether a node is known. -/
  | heartbeat (node : NodeReference)
deriving DecidableEq, Repr

/-- The word for a call. -/
def Call.method : Call → String
  | add _ => "AddNode"
  | update _ => "UpdateNode"
  | delete _ => "DeleteNode"
  | heartbeat _ => "Heartbeat"

/-- The node that a call is about. -/
def Call.nodeName : Call → String
  | add r | update r => r.nodeName
  | delete n | heartbeat n => n.nodeName

/-! ## Resources -/

/-- The unit in which amounts of a resource are told. -/
def unitOf (resource : String) : String :=
  if resource = "cpu" then "m" else if resource = "memory" then "Mi" else ""

/-- An amount without its unit; one that does not end in the unit is left as it is. -/
def withoutUnit (unit amount : String) : String :=
  let u := unit.toList
  let a := amount.toList
  if u.isSuffixOf a then String.ofList (a.take (a.length - u.length)) else amount

/-- A resource as the registry is told of it. -/
def Resource.ofAccounting (name : String) (a : Accounting) : Resource :=
  { name
    capacity := withoutUnit (unitOf name) a.total
    allocatable := withoutUnit (unitOf name) a.allocatable
    unit := unitOf name }

/-- The resources of a spec, by name. -/
def resourcesOf (spec : Spec) : List Resource :=
  spec.resources.toList.map fun e ↦ Resource.ofAccounting e.1 e.2

/-- What the registry is told of a node with the given spec. -/
def NodeReport.ofSpec (clusterId : String) (spec : Spec) : NodeReport :=
  ⟨spec.nodeName, clusterId, spec.status, resourcesOf spec⟩

/-! ## Answers -/

/-- The code for a node that the registry does not know. -/
def unknownNode : Int := 404

/-- The least code that is a failure. -/
def leastFailureCode : Int := 400

/-- An answer to anything but a question: done, or why it was not. -/
def done (answer : Result Response) : Result Unit :=
  match answer with
  | .error f => .error (.rpc f)
  | .ok r =>
    if leastFailureCode ≤ r.code then
      .error (.rpc (.plain ("fleet responded with code " ++ toString r.code ++ ": " ++ r.message)))
    else .ok ()

/-- An answer to a question: its code. -/
def codeOf (answer : Result Response) : Result Int :=
  match answer with
  | .error f => .error (.rpc f)
  | .ok r => .ok r.code

/-- What is taken off an amount is its unit or nothing. -/
theorem withoutUnit_append (amount unit : String) : withoutUnit unit (amount ++ unit) = amount := by
  simp [withoutUnit]

end NodeInventory.Fleet
