import NodeInventory.Dict

/-!
# Nodes and pods

What is seen of the live cluster: of a node its names, labels, amounts and conditions, of a pod
where it is bound and what its containers request. Amounts are texts here, because one that cannot
be read is the fault of the node and no hindrance to seeing it.
-/

namespace NodeInventory

/-- A condition of a node, and whether it holds as far as the cluster can tell. -/
structure Node.Condition where
  type : String
  status : String
deriving DecidableEq, Repr

/-- An address of a node. -/
structure Node.Address where
  type : String
  address : String
deriving DecidableEq, Repr

/-- The software of a node. -/
structure Node.Software where
  kubeletVersion : String := ""
  osImage : String := ""
  kernelVersion : String := ""
  containerRuntimeVersion : String := ""
deriving DecidableEq, Repr

/-- A live node. -/
structure Node where
  ownName : Option String := none
  /-- The beginning of the name of a node which was not given one. -/
  generateName : Option String := none
  labels : Dict String := .empty
  unschedulable : Bool := false
  capacity : Dict String := .empty
  allocatable : Dict String := .empty
  conditions : List Node.Condition := []
  addresses : List Node.Address := []
  software : Node.Software := {}
deriving DecidableEq

/-- A pod. -/
structure Pod where
  ownName : Option String := none
  /-- The node to which the pod is bound. -/
  nodeName : Option String := none
  /-- What each container requests. -/
  requests : List (Dict String) := []
deriving DecidableEq

namespace Node

/-- The name by which a node is known. -/
def name (n : Node) : String := (n.ownName <|> n.generateName).getD ""

/-- The label that holds the host name of a node. -/
def hostnameLabel : String := "kubernetes.io/hostname"

/-- All names to which a node answers. -/
def aliases (n : Node) : List String := n.name :: (n.labels.get? hostnameLabel).toList

end Node

end NodeInventory
