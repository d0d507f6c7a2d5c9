import NodeInventory.KeyStore
import NodeInventory.Simulation.Script
import NodeInventory.Store

/-!
# A world to run programs in

A store of records, a cluster, a fleet registry that agrees to everything, and a store of keys and
lists, in virtual time: nothing takes time unless a script says so. All requests are kept with the
time at which they were asked and with who asked, and everything that is told of a run afterwards is
told from them.
-/

namespace NodeInventory.Simulation

/-- A request that was asked. -/
structure Event where
  time : Nat
  /-- Who asked. -/
  agent : Nat
  request : Request

/-- The state of everything that programs ask. -/
structure World where
  /-- The time in milliseconds. -/
  now : Nat := 0
  store : Store := .empty
  /-- The live nodes by name. -/
  nodes : Dict Node := .empty
  pods : List Pod := []
  /-- Whether asking for the pods of a node gives all pods. -/
  allPods : Bool := false
  coordination : KeyStore := .empty
  script : Script := .empty
  /-- What was asked, the last first. -/
  events : List Event := []

namespace World

/-- Nodes by name; a later node takes the place of an earlier one. -/
def nodesOf (nodes : List Node) : Dict Node := Dict.ofList (nodes.map fun n ↦ (n.name, n))

/-- The same world at a later time. -/
def atTime (w : World) (time : Nat) : World := { w with now := max w.now time }

/-- Notes that a request is asked. -/
def note (w : World) (agent : Nat) (request : Request) : World :=
  { w with events := ⟨w.now, agent, request⟩ :: w.events }

/-- Takes the next direction for a request. -/
def direction (w : World) (request : Request) : Direction × World :=
  match scriptName? request with
  | none => ({}, w)
  | some name =>
    let (d, script) := w.script.take name
    (d, { w with script })

/-- Lets other parties do what a direction says they do. -/
def interfere (w : World) (d : Direction) : World :=
  let store := match d.put with
    | some r => w.store.put r
    | none => w.store
  let store := match d.drop with
    | some name => store.drop name
    | none => store
  { w with store }

/-- The record of a name, with or without its version. -/
def fetch (w : World) (name : String) (withoutVersion : Bool) : Option Record :=
  (w.store.records.get? name).map fun r ↦
    if withoutVersion then { r with metadata := { r.metadata with resourceVersion := none } } else r

/-- The pods of a node. -/
def podsOn (w : World) (node : String) : List Pod :=
  if w.allPods then w.pods else w.pods.filter (·.nodeName == some node)

/-- Replaces the store of records. -/
def withStore {α : Type} (w : World) (r : Store × α) : World × α := ({ w with store := r.1 }, r.2)

/-- The answer to a request that does not fail. -/
def respond (w : World) (d : Direction) : (r : Request) → World × r.Answer
  | .fetchRecord name => (w, .ok (w.fetch name d.withoutVersion))
  | .listRecords token limit => (w, .ok (d.recordPage.getD (w.store.records.page token limit)))
  | .createRecord r => w.withStore (w.store.create r)
  | .updateRecord r version => w.withStore (w.store.update r version)
  | .deleteRecord name => w.withStore (w.store.delete name)
  | .listNodes token limit => (w, .ok (d.nodePage.getD (w.nodes.page token limit)))
  | .findNodes names =>
    (w, .ok (match d.nodePage with
      | some page => page.items
      | none => names.filterMap w.nodes.get?))
  | .listPods node => (w, .ok (w.podsOn node))
  | .callFleet _ => (w, .ok { code := d.code.getD 200, message := d.message.getD "" })
  | .setKey key value ttl =>
    let (s, set) := w.coordination.set w.now key value ttl
    ({ w with coordination := s }, .ok set)
  | .extendKey key ttl =>
    let (s, extended) := w.coordination.extend w.now key ttl
    ({ w with coordination := s }, .ok extended)
  | .deleteKey key => ({ w with coordination := w.coordination.delete key }, .ok ())
  | .pushValue list value => ({ w with coordination := w.coordination.push list value }, .ok ())
  | .startRenewal _ _ | .stopRenewal _ | .pause _ | .count _ | .report _ => (w, ())

/-- The answer to a request that fails. -/
def refuse (f : Failure) : (r : Request) → Option r.Answer
  | .fetchRecord _ | .listRecords _ _ | .createRecord _ | .updateRecord _ _ | .deleteRecord _
  | .listNodes _ _ | .findNodes _ | .listPods _ | .callFleet _ | .setKey _ _ _ | .extendKey _ _
  | .deleteKey _ | .pushValue _ _ => some (.error f)
  | .startRenewal _ _ | .stopRenewal _ | .pause _ | .count _ | .report _ => none

/-- Follows a direction for a request whose time has come, and answers it. -/
def answer (w : World) (d : Direction) (r : Request) : World × r.Answer :=
  let w := w.interfere d
  match d.failure.bind fun f ↦ refuse f r with
  | some a => (w, a)
  | none => w.respond d r

end World

end NodeInventory.Simulation
