import NodeInventory.Json.Fields
import NodeInventory.Json.Reading
import NodeInventory.Json.Sound
import NodeInventory.Text.Form
import NodeInventory.Uri
import NodeInventory.Word

/-!
# Exchanges with the interface of the cluster

The cluster is asked by HTTP requests. An exchange is a sequence of requests that depends on the
replies, and a value. A reply may be a response, or come to nothing: the server does not answer
until the caller's patience ends, or the connection breaks. A request whose place is no address is
not sent at all.

A response of refusal says in its body what the refusal is. If the body cannot be read, the code of
the response stands for it.
-/

namespace NodeInventory.Api

/-- The methods of HTTP that are used. -/
inductive Method
  | get | post | put | delete
deriving DecidableEq, Repr

/-- The word for a method. -/
def Method.name : Method → String
  | get => "GET"
  | post => "POST"
  | put => "PUT"
  | delete => "DELETE"

/-- A request, to a path with a query. -/
structure Request where
  method : Method
  path : String
  body : Option Json := none

/-- What becomes of a request. -/
inductive Reply
  | response (status : Nat) (body : String)
  /-- No answer in time. -/
  | silence
  /-- The connection broke. -/
  | broken
deriving DecidableEq, Repr

/-- How long an answer may take, in milliseconds. -/
def patience : Nat := 10000

/-- Requests that depend on replies, and a value. -/
inductive Exchange (α : Type)
  | done (value : α)
  | send (request : Request) (next : Reply → Exchange α)

namespace Exchange

variable {α β : Type}

/-- One exchange after another. -/
protected def bind : Exchange α → (α → Exchange β) → Exchange β
  | done a, f => f a
  | send r next, f => send r fun reply ↦ (next reply).bind f

instance : Monad Exchange where
  pure := done
  bind := Exchange.bind

/-- What an exchange came to. -/
structure Transcript (α : Type) where
  value : α
  requests : List Request
  /-- The time that went by, in milliseconds. -/
  elapsed : Nat

/-- The reply of a server that has nothing more to say. -/
def lastReply : Reply := .response 500 ""

/-- Runs an exchange against replies in order. -/
def run : Exchange α → List Reply → Transcript α
  | done a, _ => ⟨a, [], 0⟩
  | send r next, replies =>
    let reply := replies.headD lastReply
    let t := (next reply).run replies.tail
    let time := match reply with
      | .silence => patience
      | _ => 0
    { t with requests := r :: t.requests, elapsed := time + t.elapsed }

end Exchange

/-! ## Refusals -/

/-- What a refusal is, in the words of the server. -/
structure Refusal where
  code : Nat
  reason : String
  message : String
deriving DecidableEq, Repr

/-- Reads a number of 16 bits. -/
def code? (v : Json) : Option Nat := do
  let n ← v.int?
  if 0 ≤ n ∧ n ≤ Word.maxNat 16 then some n.toNat else none

/-- Reads the body of a refusal. -/
def Refusal.parse? (body : String) : Option Refusal := do
  let v ← Json.parse body
  match Json.fields? ["status", "message", "reason", "code"] v with
  | some [some status, message, reason, some code] =>
    let _ ← status.text?
    pure {
      code := ← code? code
      reason := ← Json.orDefault "" Json.text? reason
      message := ← Json.orDefault "" Json.text? message }
  | _ => none

/-- The refusal of a response. -/
def Refusal.ofResponse (status : Nat) (body : String) : Refusal :=
  (Refusal.parse? body).getD ⟨status, "Failed to parse error data", body⟩

/-- Why a request that was answered in time came to nothing. -/
inductive Fault
  | refused (refusal : Refusal)
  /-- The body of the response is not what was asked for. -/
  | unreadable
  | broken
  /-- The place of the request is no address. -/
  | noAddress
deriving DecidableEq, Repr

/-- The wording of a fault. -/
def Fault.message : Fault → String
  | refused r => r.message ++ ": " ++ r.reason
  | unreadable => "unreadable response"
  | broken => "connection broken"
  | noAddress => "invalid address"

/-- Whether the server refused because there is no such object. -/
def Fault.isNotFound : Fault → Bool
  | refused r => r.reason == "NotFound"
  | _ => false

/-- What a reply says, if it came in time: the body of a response that is no refusal. -/
def receive : Reply → Option (Except Fault String)
  | .silence => none
  | .broken => some (.error .broken)
  | .response status body =>
    if 400 ≤ status ∧ status < 600 then some (.error (.refused (.ofResponse status body)))
    else some (.ok body)

/-- Sends a request and reads the response. -/
def ask {α : Type} (method : Method) (path : String) (body : Option Json)
    (read : String → Option α) : Exchange (Option (Except Fault α)) :=
  match Uri.sent? path with
  | none => .done (some (.error .noAddress))
  | some sent =>
    .send ⟨method, String.ofList sent, body⟩ fun reply ↦
      .done ((receive reply).map fun r ↦
        match r with
        | .error f => .error f
        | .ok text =>
          match read text with
          | some a => .ok a
          | none => .error .unreadable)

/-! ## Paths -/

/-- A path with parameters. -/
def query (path : String) (parameters : List (String × String)) : String :=
  path ++ "?" ++ String.join (parameters.map fun (k, v) ↦ "&" ++ k ++ "=" ++ Text.formEncode v)

end NodeInventory.Api
