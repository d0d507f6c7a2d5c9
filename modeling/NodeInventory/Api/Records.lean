import NodeInventory.Api.Listing
import NodeInventory.Failure
import NodeInventory.Record.Writing
import NodeInventory.Word

/-!
# Records in the cluster

Reading and writing records by exchanges with the cluster. A refusal becomes a failure of the kind
that callers tell apart: there is no such object, there already is one, or it was written with a
stale version. Everything else that goes wrong in time is a query that failed.

A record is replaced under its own name, with the version that the caller knows and without the list
of its writers, which is the cluster's to keep.
-/

namespace NodeInventory.Api.Records

/-- The place of all records. -/
def path : String := "/apis/opsflow.io/v1alpha1/noderesourceinfos"

/-- The place of a record. -/
def pathOf (name : String) : String := path ++ "/" ++ name

/-- The failure that a fault means to somebody who asked for the named record. -/
def failure (name : String) (fault : Fault) : Failure :=
  let other := Failure.query (.context ("error accessing NodeResourceInfo " ++ name)
    (.plain fault.message))
  match fault with
  | .refused r =>
    if r.code = 404 then .notFound name
    else if r.code = 409 then
      if r.reason = "AlreadyExists" then .alreadyExists name else .conflict name
    else other
  | _ => other

/-- What an answer means to somebody who asked for the named record, with the words for having had
none in time. -/
def result {α : Type} (late name : String) : Option (Except Fault α) → Result α
  | none => .error (.context late (.plain "deadline has elapsed"))
  | some (.error f) => .error (failure name f)
  | some (.ok a) => .ok a

/-- Reads a record. That there is none is an answer. -/
def fetch (name : String) : Exchange (Result (Option Record)) := do
  let answer ← ask .get (pathOf name) none Record.parse
  pure (match answer with
    | some (.error f) => if f.isNotFound then .ok none else .error (failure name f)
    | answer => (result "timeout fetching NodeResourceInfo" name answer).map some)

/-- Reads part of the listing of all records. -/
def list (token : Option String) (limit : Nat) : Exchange (Result (Page Record)) := do
  let answer ← ask .get (query path (pageParameters token limit)) none (page? Record.ofJson?)
  pure (result "timeout listing NodeResourceInfo records" "*" answer)

/-- Stores a new record. -/
def create (r : Record) : Exchange (Result Record) := do
  let answer ← ask .post (query path []) (some r.toJson) Record.parse
  pure (result "timeout creating NodeResourceInfo" r.name answer)

/-- Replaces a record that still has the given version. -/
def update (r : Record) (version : String) : Exchange (Result Record) := do
  let sent : Record := { r with
    metadata := { r.metadata with resourceVersion := some version, fieldManagers := none } }
  let answer ← ask .put (query (pathOf r.name) []) (some sent.toJson) Record.parse
  pure (result "timeout updating NodeResourceInfo" r.name answer)

/-! ## Removing -/

/-- Whether a value is one of the words for how a request went, or null. -/
def isOutcome (v : Json) : Bool :=
  v.isNull || v.text? == some "Success" || v.text? == some "Failure"

/-- Reads the cause of a status. -/
def isCause (v : Json) : Bool :=
  match Json.fields? ["reason", "message", "field"] v with
  | some l => l.all fun f ↦ (Json.orDefault "" Json.text? f).isSome
  | none => false

/-- Whether a value tells the details of a status. -/
def isDetails (v : Json) : Bool :=
  v.isNull ||
    match Json.fields? ["name", "group", "kind", "uid", "causes", "retryAfterSeconds"] v with
    | some [name, group, kind, uid, causes, retry] =>
      ([name, group, kind, uid].all fun f ↦ (Json.orDefault "" Json.text? f).isSome) &&
        (Json.orDefault true (fun c ↦ c.items?.map (·.all isCause)) causes).getD false &&
        (Json.orDefault true
          (fun r ↦ r.int?.map fun n ↦ 0 ≤ n && n ≤ (Word.maxNat 32 : Int)) retry).getD false
    | _ => false

/-- Whether a value is a status, that is, tells how a request went. -/
def isStatus (v : Json) : Bool :=
  match Json.fields? ["status", "code", "message", "reason", "details"] v with
  | some [status, code, message, reason, details] =>
    (status.map isOutcome).getD true && (Json.orDefault 0 code? code).isSome &&
      (Json.orDefault "" Json.text? message).isSome &&
      (Json.orDefault "" Json.text? reason).isSome &&
      (details.map isDetails).getD true
  | _ => false

/-- Reads the response to a removal: a status, or else the record that was removed. -/
def removed? (text : String) : Option Unit := do
  let v ← Json.parse text
  if v.isSound Json.maxDepth then
    if (v.get "kind").text? = some "Status" then
      if isStatus v then some () else none
    else (Record.ofJson? v).map fun _ ↦ ()
  else none

/-- Removes a record. -/
def delete (name : String) : Exchange (Result Unit) := do
  let answer ← ask .delete (query (pathOf name) []) (some (Json.record [])) removed?
  pure (result "timeout deleting NodeResourceInfo" name answer)

end NodeInventory.Api.Records
