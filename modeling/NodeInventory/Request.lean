import NodeInventory.Cluster.Basic
import NodeInventory.Counter
import NodeInventory.Fleet.Basic

/-!
# Requests

Everything that the program asks of the world around it, one request at a time, with the type of
what it gets for an answer. What the program does is told by its requests and answers alone, so the
same program can be run against any world: one that always answers, one that fails at will, one that
it shares with others.
-/

namespace NodeInventory

/-- What is asked of the world. -/
inductive Request
  /-- Read a record. -/
  | fetchRecord (name : String)
  /-- Read part of the listing of all records. -/
  | listRecords (token : Option String) (limit : Nat)
  /-- Store a new record. -/
  | createRecord (record : Record)
  /-- Replace a record that still has the given version. -/
  | updateRecord (record : Record) (version : String)
  /-- Remove a record. -/
  | deleteRecord (name : String)
  /-- Read part of the listing of all nodes. -/
  | listNodes (token : Option String) (limit : Nat)
  /-- Read the nodes of some names. -/
  | findNodes (names : List String)
  /-- Read the pods that are bound to a node. -/
  | listPods (node : String)
  /-- Call the fleet registry. -/
  | callFleet (call : Fleet.Call)
  /-- Set a key that is not set, for so many milliseconds. -/
  | setKey (key value : String) (ttl : Nat)
  /-- Let a key that is set be set for so many milliseconds from now. -/
  | extendKey (key : String) (ttl : Nat)
  /-- Remove a key. -/
  | deleteKey (key : String)
  /-- Put a text at the end of a list. -/
  | pushValue (list value : String)
  /-- Begin to extend a key time and again. -/
  | startRenewal (key : String) (ttl : Nat)
  /-- Stop extending the key. -/
  | stopRenewal (key : String)
  /-- Let so many milliseconds pass. -/
  | pause (millis : Nat)
  /-- Count something. -/
  | count (counter : Counter)
  /-- Report a failure. -/
  | report (report : Report)

/-- The answers to a request. -/
def Request.Answer : Request → Type
  | fetchRecord _ => Result (Option Record)
  | listRecords _ _ => Result (Page Record)
  | createRecord _ => Result Unit
  | updateRecord _ _ => Result Unit
  | deleteRecord _ => Result Unit
  | listNodes _ _ => Result (Page Node)
  | findNodes _ => Result (List Node)
  | listPods _ => Result (List Pod)
  | callFleet _ => Result Fleet.Response
  | setKey _ _ _ => Result Bool
  | extendKey _ _ => Result Bool
  | deleteKey _ => Result Unit
  | pushValue _ _ => Result Unit
  | startRenewal _ _ | stopRenewal _ | pause _ | count _ | report _ => Unit

/-- Whether a request would change what is stored about nodes. -/
def Request.isWrite : Request → Bool
  | createRecord _ | updateRecord _ _ | deleteRecord _ => true
  | _ => false

end NodeInventory
