import NodeInventory.Api.Listing
import NodeInventory.Cluster.Names
import NodeInventory.Cluster.Reading
import NodeInventory.Failure
import NodeInventory.Text.Separated

/-!
# Nodes and pods in the cluster

Looking up nodes, pods and the identity of the cluster. Names that can be values of a label are
asked for together, a bounded number in one request, by the label that holds the host name; the
others are fetched one by one, and those for which there is no node are left out.
-/

namespace NodeInventory.Api.Cluster

/-- What an answer means, with the words for having had none in time and for every fault. -/
def result {α : Type} (late wrong : String) : Option (Except Fault α) → Result α
  | none => .error (.context late (.plain "deadline has elapsed"))
  | some (.error f) => .error (.context wrong (.plain f.message))
  | some (.ok a) => .ok a

/-! ## The cluster itself -/

/-- Reads the identity of a namespace. -/
def namespaceUid? (text : String) : Option (Option String) := do
  let v ← Json.parse text
  let ms ← kindedObject? "Namespace" v
  let metadata ← metadataOf? ms
  pure metadata.uid

/-- The identity of the cluster, which is that of one of its namespaces. -/
def uid : Exchange (Result String) := do
  let answer ← ask .get "/api/v1/namespaces/kube-system" none namespaceUid?
  pure (match result "timeout fetching kube-system namespace" "error fetching kube-system namespace"
      answer with
    | .error f => .error f
    | .ok none => .error (.plain "kube-system namespace has no UID")
    | .ok (some uid) => .ok uid)

/-! ## Nodes -/

/-- The place of all nodes. -/
def nodesPath : String := "/api/v1/nodes"

/-- Reads part of the listing of all nodes. -/
def listNodes (token : Option String) (limit : Nat) : Exchange (Result (Page Node)) := do
  let answer ← ask .get (query nodesPath (pageParameters token limit)) none (page? Node.ofJson?)
  pure (result "timeout listing nodes" "error listing nodes" answer)

/-- The greatest number of names in one request. -/
def namesPerRequest : Nat := 50

/-- Cuts a list into parts of a size, the last of which may be shorter. -/
def chunks {α : Type} (size : Nat) (l : List α) : List (List α) :=
  if l = [] ∨ size = 0 then []
  else l.take size :: chunks size (l.drop size)
termination_by l.length
decreasing_by
  have : l.length ≠ 0 := by simp_all
  simp only [List.length_drop]
  omega

/-- The words that ask for nodes by the label with their host name. -/
def selector (names : List String) : String :=
  Node.hostnameLabel ++ " in (" ++ Text.join ',' names ++ ")"

/-- Fetches nodes by label, a part of the names at a time. -/
def byLabel : List (List String) → List Node → Exchange (Result (List Node))
  | [], found => .done (.ok found)
  | names :: later, found => do
    let path := query nodesPath [("labelSelector", selector names)]
    let answer ← ask .get path none (page? Node.ofJson?)
    match result "timeout listing nodes by name" "error listing nodes by name" answer with
    | .error f => pure (.error f)
    | .ok page => byLabel later (found ++ page.items)

/-- Fetches nodes one by one. -/
def oneByOne : List String → List Node → Exchange (Result (List Node))
  | [], found => .done (.ok found)
  | name :: later, found => do
    let answer ← ask .get (nodesPath ++ "/" ++ name) none fun text ↦
      (Json.parse text).bind Node.ofJson?
    match answer with
    | some (.error f) =>
      if f.isNotFound then oneByOne later found
      else pure (.error (.context ("error fetching node " ++ name) (.plain f.message)))
    | answer =>
      match result "timeout fetching node" ("error fetching node " ++ name) answer with
      | .error f => pure (.error f)
      | .ok node => oneByOne later (found ++ [node])

/-- The nodes of some names. -/
def nodesByName (names : List String) : Exchange (Result (List Node)) := do
  let (selectable, others) := Node.partitionNames names
  match ← byLabel (chunks namesPerRequest selectable) [] with
  | .error f => pure (.error f)
  | .ok found => oneByOne others found

/-- The names of which no node lives. -/
def missing (names : List String) : Exchange (Result (List String)) := do
  let answer ← nodesByName names
  pure ((answer.within "error checking for live nodes").map (Node.missingNames names))

/-! ## Pods -/

/-- The pods that are bound to a node. -/
def podsOnNode (node : String) : Exchange (Result (List Pod)) := do
  let path := query "/api/v1/pods" [("fieldSelector", "spec.nodeName=" ++ node)]
  let answer ← ask .get path none (page? Pod.ofJson?)
  pure ((result "timeout listing pods of node" "error listing pods of node" answer).map (·.items))

end NodeInventory.Api.Cluster
