import Mathlib.Data.List.Infix
import NodeInventory.Api.Exchange
import NodeInventory.Failure

/-!
# What exchanges ask

An exchange *follows* a list of requests if it sends them in order, whatever is replied, and stops
before the end of the list only to fail (`Follows`). So a run of it sends the beginning of the list,
and all of it if it comes to a value (`Follows.isPrefix`, `Follows.requests_eq`).

The replies to a run are given from outside. Where they are those of a server, which replies to
each request by itself, the run is determined by the server (`against`).
-/

namespace NodeInventory.Api

variable {α β : Type}

/-! ## Replies -/

/-- What the answer to a request is, in a reply to it. -/
def answer (read : String → Option α) (reply : Reply) : Option (Except Fault α) :=
  (receive reply).map fun r ↦
    match r with
    | .error f => .error f
    | .ok text =>
      match read text with
      | some a => .ok a
      | none => .error .unreadable

theorem answer_eq_ok {read : String → Option α} {reply : Reply} {text : String} {a : α}
    (h : receive reply = some (.ok text)) (hread : read text = some a) :
    answer read reply = some (.ok a) := by
  simp [answer, h, hread]

theorem answer_eq_error {read : String → Option α} {reply : Reply} {f : Fault}
    (h : receive reply = some (.error f)) : answer read reply = some (.error f) := by
  simp [answer, h]

theorem ask_eq_send {method : Method} {path : String} {body : Option Json}
    {read : String → Option α} (h : Uri.sent? path = some path.toList) :
    ask method path body read = .send ⟨method, path, body⟩ fun reply ↦ .done (answer read reply) := by
  rw [ask, h]
  simp only [String.ofList_toList]
  rfl

namespace Exchange

/-! ## Against a server -/

/-- Runs an exchange against a server, which replies to each request by itself. -/
def against (server : Request → Reply) : Exchange α → Transcript α
  | done a => ⟨a, [], 0⟩
  | send r next =>
    let t := (next (server r)).against server
    let time := match server r with
      | .silence => patience
      | _ => 0
    { t with requests := r :: t.requests, elapsed := time + t.elapsed }

@[simp] theorem value_against_send (server : Request → Reply) (r : Request)
    (next : Reply → Exchange α) :
    ((send r next).against server).value = ((next (server r)).against server).value := rfl

theorem run_map_requests (server : Request → Reply) (e : Exchange α) :
    e.run ((e.against server).requests.map server) = e.against server := by
  induction e with
  | done a => rfl
  | send r next ih =>
    cases hreply : server r <;>
      simp only [against, run, List.map_cons, List.headD_cons, List.tail_cons, hreply, ih]

theorem value_against_bind (server : Request → Reply) (e : Exchange α) (f : α → Exchange β) :
    ((e >>= f).against server).value = ((f (e.against server).value).against server).value := by
  induction e with
  | done a => rfl
  | send r next ih => exact ih (server r)

/-- One exchange after another, unless the first fails. -/
def andThen (e : Exchange (Result α)) (next : α → Exchange (Result β)) : Exchange (Result β) :=
  e >>= fun x ↦ x.casesOn (fun f ↦ pure (.error f)) next

/-! ## Lists of requests -/

/-- An exchange that sends the requests of a list in order, and stops before its end only to
fail. -/
inductive Follows : List Request → Exchange (Result α) → Prop
  | ok (a : α) : Follows [] (.done (.ok a))
  | error (rs : List Request) (f : Failure) : Follows rs (.done (.error f))
  | send {r : Request} {rs : List Request} {next : Reply → Exchange (Result α)}
      (h : ∀ reply, Follows rs (next reply)) : Follows (r :: rs) (.send r next)

namespace Follows

variable {rs rs' : List Request} {e : Exchange (Result α)}

/-- A run of it sends the beginning of the list. -/
theorem isPrefix (h : Follows rs e) (replies : List Reply) : (e.run replies).requests <+: rs := by
  induction h generalizing replies with
  | ok a => exact List.nil_prefix
  | error rs f => exact List.nil_prefix
  | send _ ih => exact List.prefix_cons_inj _ |>.mpr (ih _ _)

/-- A run of it that comes to a value sends the list. -/
theorem requests_eq (h : Follows rs e) {replies : List Reply} {a : α}
    (ha : (e.run replies).value = .ok a) : (e.run replies).requests = rs := by
  induction h generalizing replies with
  | ok a => rfl
  | error rs f => cases ha
  | send _ ih => exact congrArg _ (ih _ ha)

theorem andThen (h : Follows rs e) {next : α → Exchange (Result β)}
    (hnext : ∀ a, Follows rs' (next a)) : Follows (rs ++ rs') (e.andThen next) := by
  induction h with
  | ok a => exact hnext a
  | error rs f => exact .error _ f
  | send _ ih => exact .send fun reply ↦ ih reply

end Follows

end Exchange

end NodeInventory.Api
