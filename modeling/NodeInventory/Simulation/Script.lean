import NodeInventory.Request

/-!
# Scripted interference

A script says how certain requests go otherwise than they would by themselves: they take time, other
parties change the store while they are under way, they fail, or they are answered with something
made up. The directions for a request are followed in order, one for each time it is asked; a
lasting one is followed from then on.
-/

namespace NodeInventory.Simulation

/-- How a request goes otherwise. What it says happens in the order in which it is listed here. -/
structure Direction where
  /-- How long the request takes, in milliseconds. -/
  delay : Nat := 0
  /-- A record that somebody stores meanwhile. -/
  put : Option Record := none
  /-- A record that somebody removes meanwhile. -/
  drop : Option String := none
  /-- The failure of the request. -/
  failure : Option Failure := none
  /-- Whether the record read has no version. -/
  withoutVersion : Bool := false
  /-- What a listing of records answers. -/
  recordPage : Option (Page Record) := none
  /-- What a listing of nodes answers. -/
  nodePage : Option (Page Node) := none
  /-- The code and the message of a response of the fleet registry. -/
  code : Option Int := none
  message : Option String := none
  /-- Whether the direction is lasting. -/
  lasting : Bool := false

/-- Directions by request. -/
abbrev Script := Dict (List Direction)

namespace Script

/-- Adds directions after those that are there. -/
def append (s t : Script) : Script :=
  t.toList.foldl (fun s e ↦ s.insert e.1 ((s.get? e.1).getD [] ++ e.2)) s

/-- Takes the next direction for a request. Without one, a request goes by itself. -/
def take (s : Script) (name : String) : Direction × Script :=
  match s.get? name with
  | none | some [] => ({}, s)
  | some (d :: ds) => (d, if d.lasting then s else s.insert name ds)

end Script

/-- The name under which a script has directions for a request. -/
def scriptName? : Request → Option String
  | .fetchRecord name => some ("get:" ++ name)
  | .listRecords _ _ => some "list"
  | .createRecord r => some ("create:" ++ r.name)
  | .updateRecord r _ => some ("update:" ++ r.name)
  | .deleteRecord name => some ("delete:" ++ name)
  | .listNodes _ _ => some "list_nodes"
  | .findNodes _ => some "nodes_by_name"
  | .listPods node => some ("pods_on_node:" ++ node)
  | .callFleet (.add r) => some ("add_node:" ++ r.nodeName)
  | .callFleet (.update r) => some ("update_node:" ++ r.nodeName)
  | .callFleet (.delete n) => some ("delete_node:" ++ n.nodeName)
  | .callFleet (.heartbeat n) => some ("heartbeat:" ++ n.nodeName)
  | .setKey key _ _ => some ("set_nx:" ++ key)
  | .extendKey key _ => some ("expire:" ++ key)
  | .deleteKey key => some ("del:" ++ key)
  | .pushValue list _ => some ("rpush:" ++ list)
  | .startRenewal _ _ | .stopRenewal _ | .pause _ | .count _ | .report _ => none

end NodeInventory.Simulation
